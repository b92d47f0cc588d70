import AtlasMcp.Glob
import AtlasMcp.Utf8
import AtlasMcp.StoreRecords

/-!
# A Redis keyspace

One keyspace of texts and hashes, most of which expire, and the commands on it.  Times are
in seconds.  Whether a key is gone at the very instant it expires, or only after it, is a
parameter of the keyspace.  The fields of a hash are read as numbers.
-/

namespace Redis

open StoreRecords

/-- What there is under a key: a text, or a hash. -/
inductive Content
  | text (value : String)
  | hash (fields : AList fun _ : String => ℚ)

/-- What there is under a key, and when it expires, if it does. -/
structure Entry where
  content : Content
  expiresAt : Option ℚ

/-- The errors the server answers with. -/
inductive Error
  | wrongType
  | invalidExpire
  deriving DecidableEq

/-- The keys of a database with their entries.  Whether an entry is gone at
the very moment at which it expires or just after it is left open. -/
structure Keyspace (goneAtExpiry : Bool) where
  entries : AList (fun _ : String => Entry) := ∅

/-- A key with this expiry is still there.  At the very moment of its expiry it
may be there or not. -/
def Alive (goneAtExpiry : Bool) (expiresAt : Option ℚ) (now : ℚ) : Prop :=
  ∀ t ∈ expiresAt, if goneAtExpiry then now < t else now ≤ t

instance (gone : Bool) (expiresAt : Option ℚ) (now : ℚ) :
    Decidable (Alive gone expiresAt now) :=
  inferInstanceAs (Decidable (∀ t ∈ expiresAt, _))

/-- What is there was there before. -/
theorem Alive.of_le {gone : Bool} {expiresAt : Option ℚ} {t now : ℚ}
    (h : Alive gone expiresAt now) (hle : t ≤ now) : Alive gone expiresAt t := by
  intro x hx
  have hnow := h x hx
  cases gone with
  | true => exact lt_of_le_of_lt hle hnow
  | false => exact le_trans hle hnow

theorem Alive.le {gone : Bool} {t now : ℚ} (h : Alive gone (some t) now) : now ≤ t := by
  have hnow := h t rfl
  cases gone with
  | true => exact le_of_lt hnow
  | false => exact hnow

theorem alive_of_lt {gone : Bool} {t now : ℚ} (h : now < t) : Alive gone (some t) now := by
  intro x hx
  cases hx
  cases gone with
  | true => exact h
  | false => exact h.le

/-- The UTF-8 bytes of a key or a pattern. -/
def bytes (s : String) : List ℕ := s.toList.flatMap Utf8.encodeChar

/-- `SCAN` with this pattern finds the key. -/
def Matches (pattern key : String) : Prop := Glob.globMatch (bytes pattern) (bytes key) = true

instance (pattern key : String) : Decidable (Matches pattern key) :=
  inferInstanceAs (Decidable (_ = true))

namespace Keyspace

variable {gone : Bool}

/-- The entry of a key that is there. -/
def find (r : Keyspace gone) (key : String) (now : ℚ) : Option Entry :=
  (r.entries.lookup key).filter fun entry => Alive gone entry.expiresAt now

/-- The entry takes the place of what was there. -/
def put (r : Keyspace gone) (key : String) (entry : Entry) : Keyspace gone :=
  ⟨r.entries.insert key entry⟩

/-- `GET key`. -/
def get (r : Keyspace gone) (key : String) (now : ℚ) : Except Error (Option String) :=
  match r.find key now with
  | none => .ok none
  | some ⟨.text value, _⟩ => .ok (some value)
  | some ⟨.hash _, _⟩ => .error .wrongType

/-- `SET key value EX seconds`. -/
def setEx (r : Keyspace gone) (key value : String) (seconds : ℤ) (now : ℚ) :
    Except Error Unit × Keyspace gone :=
  if seconds ≤ 0 then (.error .invalidExpire, r)
  else (.ok (), r.put key ⟨.text value, some (now + seconds)⟩)

/-- `SET key value NX PX ms`: whether the key was set. -/
def setNxPx (r : Keyspace gone) (key value : String) (ms : ℤ) (now : ℚ) :
    Except Error Bool × Keyspace gone :=
  if ms ≤ 0 then (.error .invalidExpire, r)
  else match r.find key now with
    | some _ => (.ok false, r)
    | none => (.ok true, r.put key ⟨.text value, some (now + ms / 1000)⟩)

/-- `DEL key`. -/
def del (r : Keyspace gone) (key : String) : Keyspace gone := ⟨r.entries.erase key⟩

/-- The keys that `SCAN` with `MATCH pattern` returns, each of them once. -/
def scan (r : Keyspace gone) (pattern : String) (now : ℚ) : List String :=
  r.entries.keys.filter fun key => (r.find key now).isSome ∧ Matches pattern key

/-- `HMGET key fields`. -/
def hmget (r : Keyspace gone) (key : String) (fields : List String) (now : ℚ) :
    Except Error (List (Option ℚ)) :=
  match r.find key now with
  | none => .ok (fields.map fun _ => none)
  | some ⟨.hash hash, _⟩ => .ok (fields.map hash.lookup)
  | some ⟨.text _, _⟩ => .error .wrongType

/-- The hash with some fields written. -/
def writeFields (hash : AList fun _ : String => ℚ) (fields : List (String × ℚ)) :
    AList fun _ : String => ℚ :=
  fields.foldl (fun hash x => hash.insert x.1 x.2) hash

/-- `HMSET key fields`.  A hash that is there keeps its other fields and its
expiry. -/
def hmset (r : Keyspace gone) (key : String) (fields : List (String × ℚ)) (now : ℚ) :
    Except Error (Keyspace gone) :=
  match r.find key now with
  | none => .ok (r.put key ⟨.hash (writeFields ∅ fields), none⟩)
  | some ⟨.hash hash, expiresAt⟩ => .ok (r.put key ⟨.hash (writeFields hash fields), expiresAt⟩)
  | some ⟨.text _, _⟩ => .error .wrongType

/-- `EXPIRE key seconds`. -/
def expire (r : Keyspace gone) (key : String) (seconds : ℤ) (now : ℚ) : Keyspace gone :=
  match r.find key now with
  | none => r
  | some entry =>
      if seconds ≤ 0 then r.del key else r.put key { entry with expiresAt := some (now + seconds) }

variable {r : Keyspace gone} {key : String} {now : ℚ} {entry : Entry}

/-- What is found under a key is an entry that is alive. -/
theorem find_eq_some : r.find key now = some entry ↔
    r.entries.lookup key = some entry ∧ Alive gone entry.expiresAt now := by
  simp [find, Option.filter_eq_some_iff]

/-- What was put there is found as long as it is alive. -/
theorem find_put : (r.put key entry).find key now =
    if Alive gone entry.expiresAt now then some entry else none := by
  simp [find, put, Option.filter]

/-- A hash that is not there begins with these fields, and does not expire. -/
theorem hmset_of_none (h : r.find key now = none) (fields : List (String × ℚ)) :
    r.hmset key fields now = .ok (r.put key ⟨.hash (writeFields ∅ fields), none⟩) := by
  simp only [hmset, h]

/-- A hash that is there keeps its other fields, and the time at which it
expires. -/
theorem hmset_of_hash {hash : AList fun _ : String => ℚ} {expiresAt : Option ℚ}
    (h : r.find key now = some ⟨.hash hash, expiresAt⟩) (fields : List (String × ℚ)) :
    r.hmset key fields now =
      .ok (r.put key ⟨.hash (writeFields hash fields), expiresAt⟩) := by
  simp only [hmset, h]

/-- A key that is there lives on from now. -/
theorem lookup_expire (h : r.find key now = some entry) {seconds : ℤ} (hpos : 0 < seconds) :
    (r.expire key seconds now).entries.lookup key =
      some { entry with expiresAt := some (now + seconds) } := by
  simp only [expire, h, not_le.mpr hpos, if_false, put, AList.lookup_insert]

theorem lookup_put_ne {other : String} (hne : other ≠ key) :
    (r.put key entry).entries.lookup other = r.entries.lookup other :=
  AList.lookup_insert_ne hne

/-- A scan finds the keys that match and have not expired. -/
theorem mem_scan {pattern : String} :
    key ∈ r.scan pattern now ↔ (∃ entry, r.find key now = some entry) ∧ Matches pattern key := by
  simp only [scan, List.mem_filter, decide_eq_true_eq, Option.isSome_iff_exists]
  constructor
  · intro h
    exact h.2
  · intro h
    obtain ⟨entry, hentry⟩ := h.1
    have hlookup := (find_eq_some.mp hentry).1
    exact ⟨AList.lookup_isSome.mp (Option.isSome_iff_exists.mpr ⟨entry, hlookup⟩), h⟩

theorem nodup_scan (pattern : String) : (r.scan pattern now).Nodup :=
  (AList.keys_nodup r.entries).filter _

end Keyspace

/-- A character that stands for itself in a pattern.  The others are those that
Redis gives a meaning. -/
def IsPlain (c : Char) : Prop := c ≠ '*' ∧ c ≠ '?' ∧ c ≠ '[' ∧ c ≠ '\\'

/-- Its bytes do. -/
theorem isPlain_of_mem_encodeChar {c : Char} (hc : IsPlain c) {b : ℕ}
    (hb : b ∈ Utf8.encodeChar c) : Glob.isPlain b = true := by
  have hne : ∀ d : Char, c ≠ d → c.toNat ≠ d.toNat := by
    intro d hcd heq
    exact hcd (Char.toNat_inj.mp heq)
  have hstar : c.toNat ≠ 0x2a := hne '*' hc.1
  have hany : c.toNat ≠ 0x3f := hne '?' hc.2.1
  have hset : c.toNat ≠ 0x5b := hne '[' hc.2.2.1
  have hescape : c.toNat ≠ 0x5c := hne '\\' hc.2.2.2
  rw [Utf8.encodeChar_eq, Utf8.encodeNumber] at hb
  simp only [Glob.isPlain, Bool.and_eq_true, bne_iff_ne]
  split at hb
  · obtain rfl := List.mem_singleton.mp hb
    exact ⟨⟨⟨hstar, hany⟩, hset⟩, hescape⟩
  · -- the bytes of a longer sequence are no ASCII
    have hlarge : 0x80 ≤ b := by
      split at hb
      · simp at hb
        omega
      · split at hb <;>
        · simp at hb
          omega
    omega

/-- **A plain prefix with a star** finds the keys that start with the
prefix. -/
theorem matches_star_iff {pre : String} (h : ∀ c ∈ pre.toList, IsPlain c) (key : String) :
    Matches (pre ++ "*") key ↔ pre.toList <+: key.toList := by
  have hbytes : bytes (pre ++ "*") = bytes pre ++ [0x2a] := by
    simp only [bytes, String.toList_append, List.flatMap_append]
    rfl
  have hplain : ∀ b ∈ bytes pre, Glob.isPlain b = true := by
    intro b hb
    obtain ⟨c, hc, hbc⟩ := List.mem_flatMap.mp hb
    exact isPlain_of_mem_encodeChar (h c hc) hbc
  rw [Matches, hbytes, Glob.globMatch_star_iff hplain]
  exact Utf8.encode_prefix_iff

end Redis
