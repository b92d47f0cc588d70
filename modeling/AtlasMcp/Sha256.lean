import AtlasMcp.PyText

/-!
# SHA-256

`hashlib.sha256(blob).hexdigest()` for a list of bytes.  Words are numbers below
`2 ^ 32`.
-/

namespace Sha256

/-- The first 32 bits of the fractional parts of the cube roots of the first
64 primes. -/
def roundConstants : List ℕ :=
  [0x428a2f98, 0x71374491, 0xb5c0fbcf, 0xe9b5dba5, 0x3956c25b, 0x59f111f1, 0x923f82a4,
    0xab1c5ed5, 0xd807aa98, 0x12835b01, 0x243185be, 0x550c7dc3, 0x72be5d74, 0x80deb1fe,
    0x9bdc06a7, 0xc19bf174, 0xe49b69c1, 0xefbe4786, 0x0fc19dc6, 0x240ca1cc, 0x2de92c6f,
    0x4a7484aa, 0x5cb0a9dc, 0x76f988da, 0x983e5152, 0xa831c66d, 0xb00327c8, 0xbf597fc7,
    0xc6e00bf3, 0xd5a79147, 0x06ca6351, 0x14292967, 0x27b70a85, 0x2e1b2138, 0x4d2c6dfc,
    0x53380d13, 0x650a7354, 0x766a0abb, 0x81c2c92e, 0x92722c85, 0xa2bfe8a1, 0xa81a664b,
    0xc24b8b70, 0xc76c51a3, 0xd192e819, 0xd6990624, 0xf40e3585, 0x106aa070, 0x19a4c116,
    0x1e376c08, 0x2748774c, 0x34b0bcb5, 0x391c0cb3, 0x4ed8aa4a, 0x5b9cca4f, 0x682e6ff3,
    0x748f82ee, 0x78a5636f, 0x84c87814, 0x8cc70208, 0x90befffa, 0xa4506ceb, 0xbef9a3f7,
    0xc67178f2]

/-- Addition of words. -/
def addWords (ws : List ℕ) : ℕ := ws.sum % 2 ^ 32

/-- Rotation of a word to the right. -/
def rotr (x n : ℕ) : ℕ := (x >>> n) ||| ((x <<< (32 - n)) % 2 ^ 32)

/-- The eight working variables. -/
structure Registers where
  a : ℕ
  b : ℕ
  c : ℕ
  d : ℕ
  e : ℕ
  f : ℕ
  g : ℕ
  h : ℕ

/-- The registers at the start. -/
def initial : Registers :=
  ⟨0x6a09e667, 0xbb67ae85, 0x3c6ef372, 0xa54ff53a, 0x510e527f, 0x9b05688c, 0x1f83d9ab,
    0x5be0cd19⟩

/-- One round with a round constant and a word of the schedule. -/
def round (r : Registers) (k w : ℕ) : Registers :=
  let s1 := rotr r.e 6 ^^^ rotr r.e 11 ^^^ rotr r.e 25
  let ch := (r.e &&& r.f) ^^^ ((2 ^ 32 - 1 - r.e) &&& r.g)
  let t1 := addWords [r.h, s1, ch, k, w]
  let s0 := rotr r.a 2 ^^^ rotr r.a 13 ^^^ rotr r.a 22
  let maj := (r.a &&& r.b) ^^^ (r.a &&& r.c) ^^^ (r.b &&& r.c)
  ⟨addWords [t1, s0, maj], r.a, r.b, r.c, addWords [r.d, t1], r.e, r.f, r.g⟩

/-- The next word of the schedule after its last sixteen. -/
def nextWord (last : List ℕ) : ℕ :=
  let w15 := last.getD 1 0
  let w2 := last.getD 14 0
  let s0 := rotr w15 7 ^^^ rotr w15 18 ^^^ (w15 >>> 3)
  let s1 := rotr w2 17 ^^^ rotr w2 19 ^^^ (w2 >>> 10)
  addWords [last.getD 0 0, s0, last.getD 9 0, s1]

/-- The rounds with the constants left; `last` are the words of the schedule
from the current one on, sixteen of them. -/
def rounds : List ℕ → List ℕ → Registers → Registers
  | [], _, r => r
  | k :: ks, last, r =>
      rounds ks (last.tail ++ [nextWord last]) (round r k (last.headD 0))

/-- Take in one block of sixteen words. -/
def compress (r : Registers) (block : List ℕ) : Registers :=
  let t := rounds roundConstants block r
  ⟨addWords [r.a, t.a], addWords [r.b, t.b], addWords [r.c, t.c], addWords [r.d, t.d],
    addWords [r.e, t.e], addWords [r.f, t.f], addWords [r.g, t.g], addWords [r.h, t.h]⟩

/-- The number written by bytes, the most significant first. -/
def ofBytes (bytes : List ℕ) : ℕ := bytes.foldl (fun n b => n * 256 + b) 0

/-- The last `width` bytes of a number, the most significant first. -/
def toBytes : ℕ → ℕ → List ℕ
  | 0, _ => []
  | width + 1, n => toBytes width (n / 256) ++ [n % 256]

/-- The message, a one bit, zeros up to 56 bytes in the last block, and the
length in bits. -/
def pad (message : List ℕ) : List ℕ :=
  message ++ [0x80] ++ List.replicate ((119 - message.length % 64) % 64) 0 ++
    toBytes 8 (8 * message.length)

/-- Take in the blocks of a padded message, `blocks` of them. -/
def absorb : ℕ → List ℕ → Registers → Registers
  | 0, _, r => r
  | blocks + 1, bytes, r =>
      let words := (List.range 16).map fun i => ofBytes ((bytes.drop (4 * i)).take 4)
      absorb blocks (bytes.drop 64) (compress r words)

/-- The registers after all the blocks of a message. -/
def registers (message : List ℕ) : Registers :=
  let padded := pad message
  absorb (padded.length / 64) padded initial

/-- `hashlib.sha256(message).hexdigest()`. -/
def hexdigest (message : List ℕ) : List Char :=
  let r := registers message
  [r.a, r.b, r.c, r.d, r.e, r.f, r.g, r.h].flatMap (PyText.hexPadded 8)

/-- A digest is written in hex digits. -/
theorem mem_hexPadded {c : Char} {width n : ℕ} (h : c ∈ PyText.hexPadded width n) :
    ∃ d < 16, c = PyJson.hexDigit d := by
  induction width generalizing n with
  | zero => simp [PyText.hexPadded] at h
  | succ width ih =>
      rw [PyText.hexPadded, List.mem_append] at h
      rcases h with h | h
      · exact ih h
      · exact ⟨n % 16, Nat.mod_lt _ (by norm_num), List.mem_singleton.mp h⟩

/-- The digest is written in hexadecimal digits, of which none is a colon. -/
theorem colon_notMem_hexdigest (message : List ℕ) : ':' ∉ hexdigest message := by
  intro h
  obtain ⟨word, -, hword⟩ := List.mem_flatMap.mp h
  obtain ⟨d, hd, heq⟩ := mem_hexPadded hword
  interval_cases d <;> cases heq

example : String.ofList (hexdigest ("abc".toList.map Char.toNat)) =
    "ba7816bf8f01cfea414140de5dae2223b00361a396177a9cb410ff61f20015ad" := by
  decide +kernel

end Sha256
