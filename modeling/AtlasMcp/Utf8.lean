import Mathlib

/-!
# Decoding UTF-8

`bytes.decode("utf-8", errors="replace")`, on lists of bytes: a well-formed sequence
gives its character, and of anything else the longest part that begins a well-formed
sequence, or one byte, is replaced by U+FFFD.

`decodeReplace_encode` is the round trip: the bytes of a text are read back as that text.
-/

namespace Utf8

/-- The bytes of a character. -/
def encodeChar (c : Char) : List ℕ := (String.utf8EncodeChar c).map UInt8.toNat

/-- The bytes of the sequence that starts with this byte, none if no sequence
does. -/
def width (b : ℕ) : ℕ :=
  if b < 0x80 then 1
  else if 0xc2 ≤ b ∧ b < 0xe0 then 2
  else if 0xe0 ≤ b ∧ b < 0xf0 then 3
  else if 0xf0 ≤ b ∧ b < 0xf5 then 4
  else 0

/-- A byte that goes on with a character. -/
def isContinuation (b : ℕ) : Bool := 0x80 ≤ b && b < 0xc0

/-- The second byte `c` may follow the first byte `b`: no overlong form, no
surrogate, nothing beyond U+10FFFF. -/
def isSecond (b c : ℕ) : Bool :=
  isContinuation c && (b != 0xe0 || 0xa0 ≤ c) && (b != 0xed || c < 0xa0) &&
    (b != 0xf0 || 0x90 ≤ c) && (b != 0xf4 || c < 0x90)

/-- The longest part in front that begins a sequence, or one byte. -/
def takeSequence : List ℕ → List ℕ
  | [] => []
  | [b] => [b]
  | b :: c :: rest =>
      if 2 ≤ width b ∧ isSecond b c then
        b :: c :: (rest.take (width b - 2)).takeWhile isContinuation
      else [b]

/-- The number a sequence writes. -/
def value : List ℕ → ℕ
  | [] => 0
  | b :: rest =>
      let lead := match rest.length with
        | 0 => b
        | 1 => b - 0xc0
        | 2 => b - 0xe0
        | _ => b - 0xf0
      rest.foldl (fun v c => v * 64 + (c - 0x80)) lead

/-- The character of a sequence that is complete, else the replacement
character. -/
def decodeSequence (bytes : List ℕ) : Char :=
  if bytes.length = width (bytes.headD 0xff) then Char.ofNat (value bytes)
  else Char.ofNat 0xfffd

/-- Decode at most so many sequences. -/
def decodeSequences : ℕ → List ℕ → List Char
  | 0, _ => []
  | _, [] => []
  | n + 1, bytes =>
      let front := takeSequence bytes
      decodeSequence front :: decodeSequences n (bytes.drop front.length)

/-- `bytes.decode("utf-8", errors="replace")`. -/
def decodeReplace (bytes : List ℕ) : String :=
  String.ofList (decodeSequences bytes.length bytes)

/-- The bytes of the character with this number. -/
def encodeNumber (v : ℕ) : List ℕ :=
  if v ≤ 0x7f then [v]
  else if v ≤ 0x7ff then [v / 64 + 0xc0, v % 64 + 0x80]
  else if v ≤ 0xffff then [v / 4096 + 0xe0, v / 64 % 64 + 0x80, v % 64 + 0x80]
  else [v / 262144 + 0xf0, v / 4096 % 64 + 0x80, v / 64 % 64 + 0x80, v % 64 + 0x80]

/-- The number of a character: no surrogate, and within range. -/
theorem toNat_valid (c : Char) :
    c.toNat < 0xd800 ∨ 0xdfff < c.toNat ∧ c.toNat < 0x110000 := c.valid

theorem encodeChar_eq (c : Char) : encodeChar c = encodeNumber c.toNat := by
  have hvalid := toNat_valid c
  have hval : c.val.toNat = c.toNat := rfl
  simp only [encodeChar, String.utf8EncodeChar, encodeNumber, hval]
  split
  · simp
    omega
  · split
    · simp
      omega
    · split
      · simp
        omega
      · simp
        omega

/-- The bytes that go on are those from `80` to `bf`, in hexadecimal
digits. -/
theorem isContinuation_iff {b : ℕ} : isContinuation b = true ↔ 0x80 ≤ b ∧ b < 0xc0 := by
  simp [isContinuation]

/-- The second bytes after a first one: after some of them not all those that
go on are allowed, so that no character has two encodings. -/
theorem isSecond_iff {b c : ℕ} :
    isSecond b c = true ↔ 0x80 ≤ c ∧ c < 0xc0 ∧ (b = 0xe0 → 0xa0 ≤ c) ∧
      (b = 0xed → c < 0xa0) ∧ (b = 0xf0 → 0x90 ≤ c) ∧ (b = 0xf4 → c < 0x90) := by
  simp only [isSecond, Bool.and_eq_true, isContinuation_iff, Bool.or_eq_true, bne_iff_ne,
    decide_eq_true_eq]
  omega

/-- The sequence of a character is taken as a whole. -/
theorem takeSequence_encodeNumber {v : ℕ} (h : v < 0xd800 ∨ 0xdfff < v ∧ v < 0x110000)
    (rest : List ℕ) : takeSequence (encodeNumber v ++ rest) = encodeNumber v := by
  unfold encodeNumber
  split
  · have hwidth : width v = 1 := if_pos (by omega)
    cases rest <;> simp [takeSequence, hwidth]
  · split
    · have hwidth : width (v / 64 + 0xc0) = 2 := by
        unfold width
        grind
      have hsecond : isSecond (v / 64 + 0xc0) (v % 64 + 0x80) = true :=
          isSecond_iff.mpr (by omega)
      simp [takeSequence, hwidth, hsecond]
    · split
      · have hwidth : width (v / 4096 + 0xe0) = 3 := by
          unfold width
          grind
        have hsecond : isSecond (v / 4096 + 0xe0) (v / 64 % 64 + 0x80) = true :=
          isSecond_iff.mpr (by omega)
        have hthird : isContinuation (v % 64 + 0x80) = true :=
          isContinuation_iff.mpr (by omega)
        simp [takeSequence, hwidth, hsecond, hthird]
      · have hwidth : width (v / 262144 + 0xf0) = 4 := by
          unfold width
          grind
        have hsecond : isSecond (v / 262144 + 0xf0) (v / 4096 % 64 + 0x80) = true :=
          isSecond_iff.mpr (by omega)
        have hthird : isContinuation (v / 64 % 64 + 0x80) = true :=
          isContinuation_iff.mpr (by omega)
        have hfourth : isContinuation (v % 64 + 0x80) = true :=
          isContinuation_iff.mpr (by omega)
        simp [takeSequence, hwidth, hsecond, hthird, hfourth]

/-- A sequence gives the number it writes. -/
theorem value_encodeNumber {v : ℕ} (h : v < 0x110000) :
    value (encodeNumber v) = v := by
  unfold encodeNumber
  split
  · rfl
  · split
    · simp only [value, List.length_cons, List.length_nil, List.foldl_cons, List.foldl_nil]
      omega
    · split
      · simp only [value, List.length_cons, List.length_nil, List.foldl_cons,
          List.foldl_nil]
        omega
      · simp only [value, List.length_cons, List.length_nil, List.foldl_cons,
          List.foldl_nil]
        omega

/-- How many bytes a character takes can be told from the first one. -/
theorem width_encodeNumber {v : ℕ} (h : v < 0x110000) :
    (encodeNumber v).length = width ((encodeNumber v).headD 0xff) := by
  unfold encodeNumber width
  grind

/-- The bytes of a character are decoded to it. -/
theorem decodeSequence_encodeChar (c : Char) : decodeSequence (encodeChar c) = c := by
  have hlt : c.toNat < 0x110000 := by
    rcases toNat_valid c with h | h <;> omega
  rw [encodeChar_eq, decodeSequence, if_pos (width_encodeNumber hlt),
    value_encodeNumber hlt]
  exact Char.ofNat_toNat c

theorem encodeChar_ne_nil (c : Char) : encodeChar c ≠ [] := by
  rw [encodeChar_eq]
  unfold encodeNumber
  split
  · simp
  · split
    · simp
    · split <;> simp

/-- The sequence of the first character is the one in front. -/
theorem takeSequence_encodeChar (c : Char) (rest : List ℕ) :
    takeSequence (encodeChar c ++ rest) = encodeChar c := by
  rw [encodeChar_eq]
  exact takeSequence_encodeNumber (toNat_valid c) rest

/-- A text starts with another if its bytes start with those of the other. -/
theorem encode_prefix_iff {cs ds : List Char} :
    cs.flatMap encodeChar <+: ds.flatMap encodeChar ↔ cs <+: ds := by
  induction cs generalizing ds with
  | nil => simp
  | cons c cs ih =>
      cases ds with
      | nil =>
          rw [List.flatMap_nil, List.prefix_nil, List.flatMap_cons, List.append_eq_nil_iff]
          simp [encodeChar_ne_nil c]
      | cons d ds =>
          rw [List.flatMap_cons, List.flatMap_cons, List.cons_prefix_cons, ← ih]
          constructor
          · intro h
            obtain ⟨rest, hrest⟩ := h
            rw [List.append_assoc] at hrest
            -- both begin with one sequence, which is that of both characters
            have hfront := congrArg takeSequence hrest
            rw [takeSequence_encodeChar, takeSequence_encodeChar] at hfront
            have hchar := congrArg decodeSequence hfront
            rw [decodeSequence_encodeChar, decodeSequence_encodeChar] at hchar
            subst hchar
            exact ⟨rfl, rest, List.append_cancel_left hrest⟩
          · intro h
            obtain ⟨rfl, h⟩ := h
            exact (List.prefix_append_right_inj _).mpr h

/-- With one step for each character a text is decoded whole. -/
theorem decodeSequences_encode {n : ℕ} {cs : List Char} (h : cs.length ≤ n) :
    decodeSequences n (cs.flatMap encodeChar) = cs := by
  induction cs generalizing n with
  | nil => cases n <;> rfl
  | cons c cs ih =>
      obtain ⟨n, rfl⟩ : ∃ m, n = m + 1 := ⟨n - 1, by simp at h; omega⟩
      have hfront := takeSequence_encodeChar c (cs.flatMap encodeChar)
      obtain ⟨b, rest, hbytes⟩ := List.exists_cons_of_ne_nil
        (List.append_ne_nil_of_left_ne_nil (encodeChar_ne_nil c) (cs.flatMap encodeChar))
      have hstep : decodeSequences (n + 1) (encodeChar c ++ cs.flatMap encodeChar) =
          decodeSequence (encodeChar c) :: decodeSequences n (cs.flatMap encodeChar) := by
        rw [hbytes]
        simp only [decodeSequences]
        rw [← hbytes, hfront, List.drop_left]
      rw [List.flatMap_cons, hstep, decodeSequence_encodeChar, ih (by simpa using h)]

/-- **Round trip.**  The bytes of a text are read back as that text. -/
theorem decodeReplace_encode (s : String) :
    decodeReplace (s.toList.flatMap encodeChar) = s := by
  have hlength : s.toList.length ≤ (s.toList.flatMap encodeChar).length := by
    induction s.toList with
    | nil => simp
    | cons c cs ih =>
        have hpos := List.length_pos_of_ne_nil (encodeChar_ne_nil c)
        simp only [List.length_cons, List.flatMap_cons, List.length_append]
        omega
  rw [decodeReplace, decodeSequences_encode hlength, String.ofList_toList]

-- a stray byte, a sequence cut short and an overlong one
example : decodeReplace [0x61, 0xff, 0xe2, 0x82, 0x62, 0xc0, 0xaf] =
    "a\uFFFD\uFFFDb\uFFFD\uFFFD" := by decide +kernel

end Utf8
