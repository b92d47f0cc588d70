import Mathlib
import AtlasMcp.JsonValue

/-!
# Python strings

The string methods the code uses, on lists of characters.  What depends on the
Unicode character database of the running Python (case mapping, normal form,
printability) is a parameter, `UnicodeDb`, fixed on ASCII only; white space is
the list Python documents.
-/

/-- The Unicode character database behind `str.upper`, `str.lower`,
`unicodedata.normalize("NFKC", ..)`, `str.isprintable` and `str.isalnum`. -/
class UnicodeDb where
  /-- Upper case is taken character by character; some give several. -/
  upper : Char → List Char
  /-- Lower case depends on the place in a word (final sigma). -/
  lower : List Char → List Char
  nfkc : List Char → List Char
  isPrintable : Char → Bool
  isAlnum : Char → Bool
  upper_ascii : ∀ c : Char, c.toNat < 128 → upper c = [c.toUpper]
  lower_ascii : ∀ cs : List Char, (∀ c ∈ cs, c.toNat < 128) →
    lower cs = cs.map Char.toLower
  nfkc_ascii : ∀ cs : List Char, (∀ c ∈ cs, c.toNat < 128) → nfkc cs = cs
  isPrintable_ascii : ∀ c : Char, c.toNat < 128 →
    isPrintable c = (32 ≤ c.toNat && c.toNat < 127)
  isAlnum_ascii : ∀ c : Char, c.toNat < 128 → isAlnum c = c.isAlphanum

namespace PyText

/-- The database restricted to ASCII, for runs on concrete ASCII inputs. -/
instance ascii : UnicodeDb where
  upper c := [c.toUpper]
  lower cs := cs.map Char.toLower
  nfkc cs := cs
  isPrintable c := 32 ≤ c.toNat && c.toNat < 127
  isAlnum c := c.isAlphanum
  upper_ascii _ _ := rfl
  lower_ascii _ _ := rfl
  nfkc_ascii _ _ := rfl
  isPrintable_ascii _ _ := rfl
  isAlnum_ascii _ _ := rfl

/-- `c.isspace()`. -/
def isSpace (c : Char) : Bool :=
  (9 ≤ c.toNat && c.toNat ≤ 13) || (28 ≤ c.toNat && c.toNat ≤ 32) ||
    c.toNat ∈ [0x85, 0xa0, 0x1680, 0x2028, 0x2029, 0x202f, 0x205f, 0x3000] ||
    (0x2000 ≤ c.toNat && c.toNat ≤ 0x200a)

/-- `s.strip()`. -/
def strip (s : List Char) : List Char := (s.dropWhile isSpace).rdropWhile isSpace

/-- `s.rstrip(chars)`. -/
def rstrip (chars s : List Char) : List Char := s.rdropWhile (· ∈ chars)

/-- `s.split(None, 1)[0]`. -/
def firstWord (s : List Char) : List Char :=
  (s.dropWhile isSpace).takeWhile (!isSpace ·)

/-- `s.upper()`. -/
def upper [UnicodeDb] (s : List Char) : List Char := s.flatMap UnicodeDb.upper

theorem upper_append [UnicodeDb] (s t : List Char) :
    upper (s ++ t) = upper s ++ upper t :=
  List.flatMap_append

@[simp]
theorem upper_nil [UnicodeDb] : upper [] = [] := rfl

theorem upper_space [UnicodeDb] : upper [' '] = [' '] := by
  simp [upper, UnicodeDb.upper_ascii ' ' (by decide)]

/-! ## Words -/

/-- A letter, a digit or an underscore. -/
def isWordChar [UnicodeDb] (c : Char) : Bool := UnicodeDb.isAlnum c || c = '_'

/-- In `pre ++ (w ++ post)` the part `w` is a whole word: a maximal run of
letters, digits and underscores. -/
structure WholeWord [UnicodeDb] (pre w post : List Char) : Prop where
  nonempty : w ≠ []
  inside : ∀ c ∈ w, isWordChar c
  before : ∀ c, pre.getLast? = some c → ¬ isWordChar c
  after : ∀ c, post.head? = some c → ¬ isWordChar c

/-- Nothing but a space, or the end of the text, stands on either side. -/
structure SetOff (pre post : List Char) : Prop where
  before : pre = [] ∨ pre.getLast? = some ' '
  after : post = [] ∨ post.head? = some ' '

/-- `f" {kw} " in f" {s.upper()} "`. -/
def BetweenSpaces [UnicodeDb] (kw s : List Char) : Prop :=
  ' ' :: (kw ++ [' ']) <:+: ' ' :: (upper s ++ [' '])

instance [UnicodeDb] (kw s : List Char) : Decidable (BetweenSpaces kw s) := by
  unfold BetweenSpaces
  infer_instance

/-- The substring test finds every word that spaces set off. -/
theorem betweenSpaces_of_setOff [UnicodeDb] {pre w post : List Char}
    (h : SetOff pre post) : BetweenSpaces (upper w) (pre ++ (w ++ post)) := by
  have hleft : ∃ left, ' ' :: upper pre = left ++ [' '] := by
    rcases h.before with rfl | hlast
    · exact ⟨[], rfl⟩
    · obtain ⟨front, rfl⟩ := List.getLast?_eq_some_iff.mp hlast
      exact ⟨' ' :: upper front, by simp [upper_append, upper_space]⟩
  have hright : ∃ right, upper post ++ [' '] = ' ' :: right := by
    rcases h.after with rfl | hhead
    · exact ⟨[], rfl⟩
    · obtain ⟨rest, rfl⟩ := List.head?_eq_some_iff.mp hhead
      refine ⟨upper rest ++ [' '], ?_⟩
      rw [← List.singleton_append, upper_append, upper_space, List.append_assoc,
        List.singleton_append]
  obtain ⟨left, hleft⟩ := hleft
  obtain ⟨right, hright⟩ := hright
  refine ⟨left, right, ?_⟩
  calc left ++ ' ' :: (upper w ++ [' ']) ++ right
      = (left ++ [' ']) ++ (upper w ++ ' ' :: right) := by simp
    _ = (' ' :: upper pre) ++ (upper w ++ (upper post ++ [' '])) := by
        rw [hleft, hright]
    _ = ' ' :: (upper (pre ++ (w ++ post)) ++ [' ']) := by simp [upper_append]

/-- The last `width` hex digits of a number. -/
def hexPadded : ℕ → ℕ → List Char
  | 0, _ => []
  | width + 1, n => hexPadded width (n / 16) ++ [PyJson.hexDigit (n % 16)]

/-- One character inside `repr(s)`. -/
def reprChar [UnicodeDb] (quote c : Char) : List Char :=
  if c = quote ∨ c = '\\' then ['\\', c]
  else if c = '\t' then ['\\', 't']
  else if c = '\n' then ['\\', 'n']
  else if c = '\r' then ['\\', 'r']
  else if UnicodeDb.isPrintable c then [c]
  else if c.toNat ≤ 0xff then ['\\', 'x'] ++ hexPadded 2 c.toNat
  else if c.toNat ≤ 0xffff then ['\\', 'u'] ++ hexPadded 4 c.toNat
  else ['\\', 'U'] ++ hexPadded 8 c.toNat

/-- `repr(s)`: double quotes only when that saves escaping single ones. -/
def pyRepr [UnicodeDb] (s : String) : String :=
  let quote := if '\'' ∈ s.toList ∧ '"' ∉ s.toList then '"' else '\''
  String.ofList (quote :: (s.toList.flatMap (reprChar quote) ++ [quote]))

section

variable {F : Type} [PyJson.PyFloat F] [UnicodeDb]

/-- `repr(x)` of a float; the encoder spells the constants differently. -/
def pyReprFloat (x : F) : String :=
  let text := String.ofList (PyJson.PyFloat.repr x)
  if text = "NaN" then "nan" else if text = "Infinity" then "inf"
  else if text = "-Infinity" then "-inf" else text

open PyJson in
mutual

/-- `repr(v)`. -/
def pyReprValue : Value F → String
  | .none => "None"
  | .bool true => "True"
  | .bool false => "False"
  | .int n => String.ofList (intText n)
  | .float x => pyReprFloat x
  | .str s => pyRepr s
  | .list xs => "[" ++ ", ".intercalate (pyReprItems xs) ++ "]"
  | .dict kvs => "\x7b" ++ ", ".intercalate (pyReprMembers kvs) ++ "\x7d"
  | .other _ text => text

/-- The items of a list, as `repr` writes them. -/
def pyReprItems : List (Value F) → List String
  | [] => []
  | v :: xs => pyReprValue v :: pyReprItems xs

/-- The members of a dictionary, as `repr` writes them. -/
def pyReprMembers : List (String × Value F) → List String
  | [] => []
  | (k, v) :: kvs => (pyRepr k ++ ": " ++ pyReprValue v) :: pyReprMembers kvs

end

/-- `str(v)`. -/
def pyStrValue : PyJson.Value F → String
  | .str s => s
  | v => pyReprValue v

end

/-- `s.startswith(p)`. -/
def startsWith (s p : String) : Bool := p.toList.isPrefixOf s.toList

/-- `s.endswith(p)`. -/
def endsWith (s p : String) : Bool := p.toList.isSuffixOf s.toList

end PyText
