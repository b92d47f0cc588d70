import AtlasMcp.PyText

/-!
# The customer id in a question

`PlannerAgent._extract_customer_id` searches the question with a regular expression, without
regard to case:

    \b(?:cust|customer|account|acct)[_-]?([A-Za-z0-9\-_]{3,64})\b

The search takes the first place where it matches, and there the first of the words, the
separator if there is one, and the longest id, as far as a match is left.
-/

namespace Agents

open PyText

namespace CustomerIds

section Search

variable [UnicodeDb]

/-- `\w`. -/
def isWord (c : Char) : Bool := UnicodeDb.isAlnum c || c = '_'

/-- `\b`, between two characters or at an end. -/
def atBoundary (before after : Option Char) : Bool := before.any isWord != after.any isWord

omit [UnicodeDb] in
/-- The character is a small letter of the expression, in either case.  A long
s is an `s`. -/
def sameLetter (letter c : Char) : Bool :=
  c = letter || c = letter.toUpper || (letter = 's' && c = '\u017f')

omit [UnicodeDb] in
/-- `[A-Za-z0-9\-_]`.  Besides ASCII these are the long s, the dotless and the
dotted `i`, and the kelvin sign: each is another case of an ASCII letter. -/
def isIdChar (c : Char) : Bool :=
  c.isAlphanum || c = '-' || c = '_' || c ∈ ['\u017f', '\u0131', '\u0130', '\u212a']

omit [UnicodeDb] in
/-- What follows a word of the expression. -/
def afterWord : List Char → List Char → Option (List Char)
  | [], s => some s
  | letter :: word, c :: s => if sameLetter letter c then afterWord word s else none
  | _ :: _, [] => none

/-- `([A-Za-z0-9\-_]{3,64})\b`. -/
def idAt (s : List Char) : Option (List Char) :=
  let longest := min 64 (s.takeWhile isIdChar).length
  ((List.range (longest + 1)).reverse.find? fun n =>
    3 ≤ n && atBoundary s[n - 1]? s[n]?).map s.take

/-- `[_-]?` and the id. -/
def idAfterWord (s : List Char) : Option (List Char) :=
  match s with
  | c :: rest => if c = '_' ∨ c = '-' then (idAt rest).or (idAt s) else idAt s
  | [] => none

/-- The id of a match that starts here. -/
def matchAt (before : Option Char) (s : List Char) : Option (List Char) :=
  if atBoundary before s.head? then
    ["cust", "customer", "account", "acct"].findSome? fun word =>
      (afterWord word.toList s).bind idAfterWord
  else none

/-- The id of the first match. -/
def searchFrom (before : Option Char) : List Char → Option (List Char)
  | [] => none
  | c :: s => (matchAt before (c :: s)).or (searchFrom (some c) s)

end Search

end CustomerIds

/-- `PlannerAgent._extract_customer_id`. -/
def extractCustomerId [UnicodeDb] (question : String) : Option String :=
  (CustomerIds.searchFrom none question.toList).map String.ofList

example : extractCustomerId "Why was my order CUST-1234's refund delayed?" = some "1234" := by
  decide

namespace CustomerIds

variable [UnicodeDb] {s id : List Char} {before : Option Char}

omit [UnicodeDb] in
theorem suffix_of_afterWord {word rest : List Char} (h : afterWord word s = some rest) :
    rest <:+ s := by
  induction word generalizing s with
  | nil =>
      obtain rfl : s = rest := Option.some.inj h
      exact List.suffix_rfl
  | cons letter word ih =>
      cases s with
      | nil => cases h
      | cons c s =>
          rw [afterWord] at h
          split at h
          · exact (ih h).trans (List.suffix_cons c s)
          · cases h

/-- An id is made of at least three and at most sixty-four characters of the
class. -/
structure IsId (id : List Char) : Prop where
  length_ge : 3 ≤ id.length
  length_le : id.length ≤ 64
  chars : ∀ c ∈ id, isIdChar c = true

/-- What is taken for an id where the text begins is one, and the text begins
with it. -/
theorem isId_of_idAt (h : idAt s = some id) : IsId id ∧ id <+: s := by
  unfold idAt at h
  obtain ⟨n, hfind, rfl⟩ := Option.map_eq_some_iff.mp h
  have hmem := List.mem_of_find?_eq_some hfind
  have hspec := List.find?_some hfind
  simp only [List.mem_reverse, List.mem_range] at hmem
  simp only [Bool.and_eq_true, decide_eq_true_eq] at hspec
  have hrun : n ≤ (s.takeWhile isIdChar).length := by omega
  have hstart : s.take n = (s.takeWhile isIdChar).take n := by
    conv_lhs => rw [← List.takeWhile_append_dropWhile (p := isIdChar) (l := s)]
    exact List.take_append_of_le_length hrun
  have hlength : (s.take n).length = n := by
    rw [hstart, List.length_take]
    omega
  refine ⟨⟨by omega, by omega, fun c hc => ?_⟩, List.take_prefix n s⟩
  rw [hstart] at hc
  exact List.mem_takeWhile_imp (List.mem_of_mem_take hc)

/-- What is taken for an id after a word is one, and is part of the text. -/
theorem isId_of_idAfterWord (h : idAfterWord s = some id) : IsId id ∧ id <:+: s := by
  cases s with
  | nil => cases h
  | cons c rest =>
      have hhere (h : idAt (c :: rest) = some id) : IsId id ∧ id <:+: c :: rest :=
        (isId_of_idAt h).imp_right List.IsPrefix.isInfix
      rw [idAfterWord] at h
      split at h
      · rcases Option.or_eq_some_iff.mp h with hafter | ⟨-, h⟩
        · obtain ⟨hid, hstart⟩ := isId_of_idAt hafter
          exact ⟨hid, hstart.isInfix.trans (List.suffix_cons c rest).isInfix⟩
        · exact hhere h
      · exact hhere h

/-- Whatever the search returns is an id, and is part of the text. -/
theorem isId_of_searchFrom (h : searchFrom before s = some id) : IsId id ∧ id <:+: s := by
  induction s generalizing before with
  | nil => cases h
  | cons c s ih =>
      rcases Option.or_eq_some_iff.mp h with hmatch | ⟨-, hlater⟩
      · unfold matchAt at hmatch
        split at hmatch
        · obtain ⟨word, -, hword⟩ := List.exists_of_findSome?_eq_some hmatch
          obtain ⟨rest, hrest, hid⟩ := Option.bind_eq_some_iff.mp hword
          obtain ⟨hid, hinfix⟩ := isId_of_idAfterWord hid
          exact ⟨hid, hinfix.trans (suffix_of_afterWord hrest).isInfix⟩
        · cases hmatch
      · obtain ⟨hid, hinfix⟩ := ih hlater
        exact ⟨hid, hinfix.trans (List.suffix_cons c s).isInfix⟩

end CustomerIds

/-- **The extracted id is part of the question**, of three to sixty-four
characters. -/
theorem isId_of_extractCustomerId [UnicodeDb] {question id : String}
    (h : extractCustomerId question = some id) :
    CustomerIds.IsId id.toList ∧ id.toList <:+: question.toList := by
  obtain ⟨chars, hsearch, rfl⟩ := Option.map_eq_some_iff.mp h
  rw [String.toList_ofList]
  exact CustomerIds.isId_of_searchFrom hsearch

end Agents
