import Mathlib
import AtlasMcp.PyText

/-!
# The SELECT-only guard of the Postgres tool

`mustBeSelect` is the validator of the `sql` argument.  It looks for a forbidden
keyword with a space on either side, in the upper-cased statement between two
spaces.  SQL separates words by much else: a tab, a newline, a parenthesis.

`accepted_free_of_keywords_iff` says for which statements the guard keeps the
forbidden words out: it fails on exactly those that pass its other tests while
no keyword stands between two spaces and one is set off by something else.
-/

namespace SelectGuard

open PyText

/-- The words that a statement must not have, where they stand between
blanks. -/
def forbiddenKeywords : List String :=
  ["INSERT", "UPDATE", "DELETE", "DROP", "TRUNCATE", "ALTER", "CREATE", "GRANT",
    "REVOKE", "COPY", "CALL", "EXECUTE"]

/-- The words that a statement has to begin with. -/
def allowedHeads : List (List Char) := ["SELECT".toList, "WITH".toList]

section Guard

variable [UnicodeDb]

/-- The statement without surrounding white space and trailing semicolons. -/
def stripped (value : String) : List Char := rstrip [';'] (strip value.toList)

/-- The first word of a statement, in upper case. -/
def head (stmt : List Char) : List Char := upper (firstWord stmt)

/-- `PostgresQueryInput.must_be_select`; the error is the text of its
`ValueError`. -/
def mustBeSelect (value : String) : Except String String :=
  let stmt := stripped value
  if stmt = [] then .error "sql is required"
  else if head stmt ∉ allowedHeads then
    .error "only SELECT or WITH statements are permitted"
  else match forbiddenKeywords.find? fun kw => BetweenSpaces kw.toList stmt with
    | some kw => .error ("forbidden keyword: " ++ kw)
    | none =>
        if ';' ∈ stmt then .error "only one statement per call"
        else .ok (String.ofList stmt)

/-- A text without quotes and comment openers. -/
structure Plain (s : List Char) : Prop where
  noQuote : '\'' ∉ s ∧ '"' ∉ s
  noComment : ¬ ['-', '-'] <:+: s ∧ ¬ ['/', '*'] <:+: s

/-- No forbidden keyword is a whole word of the statement, in any letter
case. -/
def FreeOfKeywords (stmt : List Char) : Prop :=
  ∀ kw ∈ forbiddenKeywords, ∀ pre w post, stmt = pre ++ (w ++ post) →
    WholeWord pre w post → upper w ≠ kw.toList

/-- Every forbidden keyword that is a whole word of the statement is set off
by spaces. -/
def KeywordsSetOff (stmt : List Char) : Prop :=
  ∀ kw ∈ forbiddenKeywords, ∀ pre w post, stmt = pre ++ (w ++ post) →
    WholeWord pre w post → upper w = kw.toList → SetOff pre post

/-- What the guard tests. -/
theorem mustBeSelect_ok_iff (value out : String) :
    mustBeSelect value = .ok out ↔
      head (stripped value) ∈ allowedHeads ∧
      (∀ kw ∈ forbiddenKeywords, ¬ BetweenSpaces kw.toList (stripped value)) ∧
      ';' ∉ stripped value ∧ out = String.ofList (stripped value) := by
  by_cases hhead : head (stripped value) ∈ allowedHeads
  · have hne : stripped value ≠ [] := by
      intro h
      rw [h] at hhead
      simp [head, firstWord, allowedHeads] at hhead
    cases hfind : forbiddenKeywords.find? fun kw =>
        BetweenSpaces kw.toList (stripped value) with
    | some kw =>
        have hspaced : BetweenSpaces kw.toList (stripped value) := by
          simpa using List.find?_some hfind
        have hkw := List.mem_of_find?_eq_some hfind
        simp only [mustBeSelect, hne, hhead, hfind]
        simp only [if_false, not_true, reduceCtorEq, false_iff]
        exact fun h => h.2.1 kw hkw hspaced
    | none =>
        have hnone : ∀ kw ∈ forbiddenKeywords,
            ¬ BetweenSpaces kw.toList (stripped value) := by
          simpa using hfind
        simp only [mustBeSelect, hne, hhead, hfind]
        by_cases hsemi : ';' ∈ stripped value
        · simp [hsemi]
        · simp only [hsemi, if_false, not_true, not_false_iff, true_and, Except.ok.injEq]
          exact ⟨fun h => ⟨hnone, h.symm⟩, fun h => h.2.symm⟩
  · simp only [mustBeSelect, hhead, not_false_iff, if_true, false_and, iff_false]
    split <;> simp

/-- An accepted statement whose keywords are all set off by spaces has
none. -/
theorem freeOfKeywords_of_setOff {stmt : List Char} (hset : KeywordsSetOff stmt)
    (hnone : ∀ kw ∈ forbiddenKeywords, ¬ BetweenSpaces kw.toList stmt) :
    FreeOfKeywords stmt := by
  intro kw hkw pre w post hstmt hword hupper
  have hsetOff : SetOff pre post := hset kw hkw pre w post hstmt hword hupper
  apply hnone kw hkw
  rw [← hupper, hstmt]
  exact betweenSpaces_of_setOff hsetOff

/-- **When the guard keeps the keywords out.**  For a statement without quotes
and comments, acceptance rules out every forbidden whole word if and only if
the statement fails another test of the guard, or has a keyword between two
spaces, or sets off all its keywords by spaces. -/
theorem accepted_free_of_keywords_iff (value : String) :
    (Plain value.toList → ∀ out, mustBeSelect value = .ok out →
      FreeOfKeywords out.toList) ↔
      (Plain value.toList →
        head (stripped value) ∈ allowedHeads →
        ';' ∉ stripped value →
        (∃ kw ∈ forbiddenKeywords, BetweenSpaces kw.toList (stripped value)) ∨
          KeywordsSetOff (stripped value)) := by
  constructor
  · intro h hplain hhead hsemi
    by_cases hspaced : ∃ kw ∈ forbiddenKeywords,
        BetweenSpaces kw.toList (stripped value)
    · exact Or.inl hspaced
    · right
      push Not at hspaced
      have hfree := h hplain _ ((mustBeSelect_ok_iff value _).mpr
        ⟨hhead, hspaced, hsemi, rfl⟩)
      rw [String.toList_ofList] at hfree
      exact fun kw hkw pre w post hstmt hword hupper =>
        absurd hupper (hfree kw hkw pre w post hstmt hword)
  · intro h hplain out hout
    obtain ⟨hhead, hnone, hsemi, rfl⟩ := (mustBeSelect_ok_iff value out).mp hout
    rw [String.toList_ofList]
    rcases h hplain hhead hsemi with ⟨kw, hkw, hspaced⟩ | hset
    · exact absurd hspaced (hnone kw hkw)
    · exact freeOfKeywords_of_setOff hset hnone

end Guard

/-- A deletion inside a WITH clause, right after its parenthesis. -/
def deletingWith : String :=
  "WITH t AS (DELETE FROM orders RETURNING id) SELECT id FROM t"

/-- The guard accepts a deletion. -/
theorem deletingWith_accepted :
    Plain deletingWith.toList ∧ mustBeSelect deletingWith = .ok deletingWith ∧
      ¬ FreeOfKeywords deletingWith.toList := by
  refine ⟨⟨by decide +kernel, by decide +kernel⟩, ?_, ?_⟩
  · rw [mustBeSelect_ok_iff]
    decide +kernel
  · intro hfree
    refine hfree "DELETE" (by decide) "WITH t AS (".toList "DELETE".toList
      " FROM orders RETURNING id) SELECT id FROM t".toList rfl ⟨?_, ?_, ?_, ?_⟩ rfl
    · decide
    · intro c hc
      fin_cases hc <;> rfl
    · intro c hc
      cases hc
      decide
    · intro c hc
      cases hc
      decide

end SelectGuard
