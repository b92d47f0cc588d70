import Mathlib.Data.List.Basic

/-!
# Boolean queries

A query is a condition on single documents or a combination of queries: all of the `must`
ones match, one of the `should` ones if there are any, and none of the `mustNot` ones.

`matches_restrict_iff` is the rule for narrowing a query from outside: one more `must`
clause beside the others restricts the whole query, whatever is nested in it.
-/

namespace BooleanQueries

/-- A query: a condition, or a combination of further queries.  The conditions
are of any kind; what they hold of is said by an index. -/
inductive Query (L : Type)
  | leaf (l : L)
  | bool (must should mustNot : List (Query L))

namespace Query

variable {L : Type}

mutual

/-- The query matches a document of which the conditions `holds` are true. -/
def Matches (holds : L → Prop) : Query L → Prop
  | leaf l => holds l
  | bool must should mustNot =>
      MatchAll holds must ∧ (should = [] ∨ MatchSome holds should) ∧ ¬ MatchSome holds mustNot

/-- All the queries of a list match. -/
def MatchAll (holds : L → Prop) : List (Query L) → Prop
  | [] => True
  | q :: qs => q.Matches holds ∧ MatchAll holds qs

/-- One of the queries of a list matches. -/
def MatchSome (holds : L → Prop) : List (Query L) → Prop
  | [] => False
  | q :: qs => q.Matches holds ∨ MatchSome holds qs

end

variable {holds : L → Prop}

theorem matches_leaf_iff {l : L} : (leaf l).Matches holds ↔ holds l := by
  rw [Matches]

/-- A combination matches where all that must do, nothing that must not, and
one of those that should, unless there is none of those. -/
theorem matches_bool_iff {must should mustNot : List (Query L)} :
    (bool must should mustNot).Matches holds ↔
      MatchAll holds must ∧ (should = [] ∨ MatchSome holds should) ∧
        ¬ MatchSome holds mustNot := by
  rw [Matches]

/-- A combination of `must` clauses only is their conjunction. -/
theorem matches_must_iff {qs : List (Query L)} :
    (bool qs [] []).Matches holds ↔ MatchAll holds qs := by
  simp [matches_bool_iff, MatchSome]

/-- **A clause added to a query restricts it.** -/
theorem matches_restrict_iff {q : Query L} {must should mustNot : List (Query L)} :
    (bool (q :: must) should mustNot).Matches holds ↔
      q.Matches holds ∧ (bool must should mustNot).Matches holds := by
  simp [matches_bool_iff, MatchAll, and_assoc]

end Query

end BooleanQueries
