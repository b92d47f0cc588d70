import Mathlib

/-!
# Python values and their JSON text

The values Python's `json` module reads and writes, with the text `json.dumps`
gives them.  Dictionaries are lists of pairs in insertion order, as Python keeps
them; `Value.Wf` says that no dictionary holds a key twice.

`Value.other` stands for a scalar the encoder does not know (a date, a decimal):
only its type name and its `str()` are kept, and `json.dumps(.., default=str)`
writes it as that text.

Floats stay abstract: `PyFloat F` lists what the `json` module and string
formatting need of the running Python's floats, in particular that reading back
the text of a float gives the same float.

Text is a list of characters, so that encoder and decoder are plain list
functions.  Lone surrogates, which a Python string can hold, are not characters
here.
-/

namespace PyJson

/-- `-?(0|[1-9][0-9]*)` without the sign. -/
def IsNatToken (ds : List Char) : Prop :=
  ds = ['0'] ∨ ∃ d rest, ds = d :: rest ∧ d ≠ '0' ∧ ∀ c ∈ ds, c.isDigit

/-- `-?(0|[1-9][0-9]*)`. -/
def IsIntToken (cs : List Char) : Prop :=
  IsNatToken cs ∨ ∃ ds, cs = '-' :: ds ∧ IsNatToken ds

/-- `(\.[0-9]+)?`. -/
def IsFracToken (cs : List Char) : Prop :=
  cs = [] ∨ ∃ ds, cs = '.' :: ds ∧ ds ≠ [] ∧ ∀ c ∈ ds, c.isDigit

/-- `([eE][-+]?[0-9]+)?`. -/
def IsExpToken (cs : List Char) : Prop :=
  cs = [] ∨ ∃ e sign ds, cs = e :: (sign ++ ds) ∧ (e = 'e' ∨ e = 'E') ∧
    (sign = [] ∨ sign = ['-'] ∨ sign = ['+']) ∧ ds ≠ [] ∧ ∀ c ∈ ds, c.isDigit

/-- A number text with a fraction or an exponent.  Without either it is an
integer. -/
def IsFloatToken (cs : List Char) : Prop :=
  ∃ i f e, cs = i ++ f ++ e ∧ IsIntToken i ∧ IsFracToken f ∧ IsExpToken e ∧
    (f ≠ [] ∨ e ≠ [])

/-- What the `json` module and `str.format` use of Python's floats. -/
class PyFloat (F : Type) where
  /-- The encoder's text of a float: `float.__repr__`, `NaN` or `Infinity`. -/
  repr : F → List Char
  /-- `float(text)`. -/
  ofLiteral : List Char → F
  nan : F
  inf : F
  negInf : F
  /-- The float nearest to an exact quotient. -/
  ofRat : ℚ → F
  /-- `format(x, ".1f")`. -/
  fixed1 : F → String
  isZero : F → Bool
  /-- Reading back the text of a float gives that float. -/
  repr_spec : ∀ x,
    (IsFloatToken (repr x) ∧ ofLiteral (repr x) = x) ∨
    (repr x = "NaN".toList ∧ nan = x) ∨
    (repr x = "Infinity".toList ∧ inf = x) ∨
    (repr x = "-Infinity".toList ∧ negInf = x)

/-- A Python value made of the types `json` knows, or an unknown scalar.  The
keys of a dictionary are texts, and stand in the order in which they came. -/
inductive Value (F : Type) where
  | none
  | bool (b : Bool)
  | int (n : ℤ)
  | float (x : F)
  | str (s : String)
  | list (xs : List (Value F))
  | dict (kvs : List (String × Value F))
  | other (typeName text : String)

section Dict

variable {α : Type}

/-- `d.get(key)`. -/
def dictGet (kvs : List (String × α)) (key : String) : Option α :=
  kvs.lookup key

/-- `d[key] = v`: in place if the key is there, else at the end. -/
def dictSet (kvs : List (String × α)) (key : String) (v : α) : List (String × α) :=
  if kvs.any (·.1 = key) then
    kvs.map fun kv => if kv.1 = key then (key, v) else kv
  else kvs ++ [(key, v)]

/-- `dict(pairs)`: a later pair overwrites an earlier one with its key. -/
def dictOf (pairs : List (String × α)) : List (String × α) :=
  pairs.foldl (fun d kv => dictSet d kv.1 kv.2) []

theorem dictSet_of_fresh {kvs : List (String × α)} {key : String}
    (h : key ∉ kvs.map Prod.fst) (v : α) : dictSet kvs key v = kvs ++ [(key, v)] := by
  have hany : kvs.any (·.1 = key) = false := by
    simp only [List.any_eq_false, decide_eq_true_eq]
    intro kv hkv heq
    exact h (heq ▸ List.mem_map_of_mem hkv)
  simp [dictSet, hany]

/-- Pairs with distinct keys are their own dictionary. -/
theorem dictOf_of_nodup {pairs : List (String × α)}
    (h : (pairs.map Prod.fst).Nodup) : dictOf pairs = pairs := by
  suffices hacc : ∀ acc, ((acc ++ pairs).map Prod.fst).Nodup →
      pairs.foldl (fun d kv => dictSet d kv.1 kv.2) acc = acc ++ pairs by
    simpa [dictOf] using hacc [] (by simpa using h)
  clear h
  induction pairs with
  | nil => simp
  | cons kv rest ih =>
      intro acc hacc
      have hfresh : kv.1 ∉ acc.map Prod.fst := by
        rw [List.map_append, List.map_cons, List.nodup_append] at hacc
        exact fun hmem => hacc.2.2 _ hmem _ List.mem_cons_self rfl
      rw [List.foldl_cons, dictSet_of_fresh hfresh,
        ih _ (by simpa using hacc)]
      simp

end Dict

namespace Value

variable {F : Type}

/-- `bool(v)`. -/
def truthy [PyFloat F] : Value F → Bool
  | none => false
  | bool b => b
  | int n => n ≠ 0
  | float x => !PyFloat.isZero x
  | str s => s ≠ ""
  | list xs => !xs.isEmpty
  | dict kvs => !kvs.isEmpty
  | other _ _ => true

mutual

/-- No dictionary anywhere in the value holds a key twice. -/
def Wf : Value F → Prop
  | list xs => WfItems xs
  | dict kvs => (kvs.map Prod.fst).Nodup ∧ WfMembers kvs
  | _ => True

/-- The items of a list are well formed. -/
def WfItems : List (Value F) → Prop
  | [] => True
  | v :: xs => v.Wf ∧ WfItems xs

/-- The members of a dictionary are well formed. -/
def WfMembers : List (String × Value F) → Prop
  | [] => True
  | (_, v) :: kvs => v.Wf ∧ WfMembers kvs

end

mutual

/-- What reading the JSON text of a value gives: unknown scalars become
strings. -/
def jsonify : Value F → Value F
  | list xs => list (jsonifyItems xs)
  | dict kvs => dict (jsonifyMembers kvs)
  | other _ text => str text
  | v => v

/-- The items of a list, as JSON. -/
def jsonifyItems : List (Value F) → List (Value F)
  | [] => []
  | v :: xs => v.jsonify :: jsonifyItems xs

/-- The members of a dictionary, as JSON; the keys are texts already. -/
def jsonifyMembers : List (String × Value F) → List (String × Value F)
  | [] => []
  | (k, v) :: kvs => (k, v.jsonify) :: jsonifyMembers kvs

end

end Value

/-! ## The encoder -/

/-- `str(n)`. -/
def intText (n : ℤ) : List Char :=
  if n < 0 then '-' :: Nat.toDigits 10 n.natAbs else Nat.toDigits 10 n.natAbs

/-- `{:x}` of a number below sixteen. -/
def hexDigit (n : ℕ) : Char := Nat.digitChar n

/-- `\uXXXX` of a 16-bit code unit. -/
def unicodeEscape (n : ℕ) : List Char :=
  ['\\', 'u', hexDigit (n / 4096 % 16), hexDigit (n / 256 % 16),
    hexDigit (n / 16 % 16), hexDigit (n % 16)]

/-- The text of one character inside a string, with `ensure_ascii`. -/
def escapeChar (c : Char) : List Char :=
  if c = '"' then ['\\', '"']
  else if c = '\\' then ['\\', '\\']
  else if c = '\n' then ['\\', 'n']
  else if c = '\r' then ['\\', 'r']
  else if c = '\t' then ['\\', 't']
  else if c = '\x0c' then ['\\', 'f']
  else if c = '\x08' then ['\\', 'b']
  else if 0x20 ≤ c.toNat ∧ c.toNat ≤ 0x7e then [c]
  else if c.toNat < 0x10000 then unicodeEscape c.toNat
  else
    -- a surrogate pair
    let v := c.toNat - 0x10000
    unicodeEscape (0xd800 + v / 0x400) ++ unicodeEscape (0xdc00 + v % 0x400)

/-- The text of a string, quotes included. -/
def stringText (s : String) : List Char :=
  '"' :: (s.toList.flatMap escapeChar ++ ['"'])

section Encode

variable {F : Type} [PyFloat F]

mutual

/-- `json.dumps(v, default=str)`, as a list of characters. -/
def encode : Value F → List Char
  | .none => "null".toList
  | .bool true => "true".toList
  | .bool false => "false".toList
  | .int n => intText n
  | .float x => PyFloat.repr x
  | .str s => stringText s
  | .list [] => ['[', ']']
  | .list (v :: xs) => '[' :: (encode v ++ encodeItems xs)
  | .dict [] => ['{', '}']
  | .dict ((k, v) :: kvs) =>
      '{' :: (stringText k ++ ':' :: ' ' :: (encode v ++ encodeMembers kvs))
  | .other _ text => stringText text

/-- The items after the first one, and the closing bracket. -/
def encodeItems : List (Value F) → List Char
  | [] => [']']
  | v :: xs => ',' :: ' ' :: (encode v ++ encodeItems xs)

/-- The members after the first one, and the closing brace. -/
def encodeMembers : List (String × Value F) → List Char
  | [] => ['}']
  | (k, v) :: kvs =>
      ',' :: ' ' :: (stringText k ++ ':' :: ' ' :: (encode v ++ encodeMembers kvs))

end

/-- `json.dumps(v, default=str)`. -/
def dumps (v : Value F) : String := String.ofList (encode v)

end Encode

end PyJson
