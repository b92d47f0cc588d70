import AtlasMcp.PostgresClient
import AtlasMcp.SqlLexing

/-!
# The row cap of a query

`AsyncpgBackend.fetch` caps the rows of a query by a LIMIT clause at the end of the statement.
The clause is in force only as part of the statement: a statement that ends inside a comment, a
literal or a quoted identifier swallows it, all of it (`clause_swallowed`).  The guard takes such
statements, so `rowsCapped_iff` is all there is to say: the cap holds for those that leave none
of these open.
-/

namespace Server

open PyJson PyText SqlLexing

/-- The word of the clause, with its spaces. -/
def limitWord : List Char := [' ', 'L', 'I', 'M', 'I', 'T', ' ']

/-- The clause that `fetch` appends. -/
def limitClause (maxRows : ℤ) : List Char := limitWord ++ intText maxRows

/-- The statement leaves no comment, literal or quoted identifier open at its
end. -/
def LeavesNothingOpen (sql : String) : Prop := (run start sql.toList).Outside

instance (sql : String) : Decidable (LeavesNothingOpen sql) :=
  inferInstanceAs (Decidable (State.Outside _))

/-- A digit neither opens nor closes anything. -/
theorem digit_inert {n : ℕ} {c : Char} (h : c ∈ Nat.toDigits 10 n) : c ∉ openers ∧ c ∉ closers := by
  have hdigit : c.isDigit = true := Nat.isDigit_of_mem_toDigits (by decide) (by decide) h
  constructor
  · intro hc
    simp only [openers, List.mem_cons, List.not_mem_nil, or_false] at hc
    rcases hc with rfl | rfl | rfl | rfl | rfl <;> exact absurd hdigit (by decide)
  · intro hc
    simp only [closers, List.mem_cons, List.not_mem_nil, or_false] at hc
    rcases hc with rfl | rfl | rfl | rfl | rfl | rfl <;> exact absurd hdigit (by decide)

/-- Nor does the word of the clause. -/
theorem limitWord_inert {c : Char} (h : c ∈ limitWord) : c ∉ openers ∧ c ∉ closers := by
  simp only [limitWord, List.mem_cons, List.not_mem_nil, or_false] at h
  rcases h with rfl | rfl | rfl | rfl | rfl | rfl | rfl <;> exact ⟨by decide, by decide⟩

/-- No character of the clause closes anything. -/
theorem notMem_closers {maxRows : ℤ} {c : Char} (h : c ∈ limitClause maxRows) : c ∉ closers := by
  rcases List.mem_append.mp h with hc | hc
  · exact (limitWord_inert hc).2
  · unfold intText at hc
    split at hc
    · rcases List.mem_cons.mp hc with rfl | hc
      · decide
      · exact (digit_inert hc).2
    · exact (digit_inert hc).2

/-- After a space and a word, the statement goes on with a space. -/
theorem run_limitWord {st : State} (hst : st.Outside) : run st limitWord = .code .other := by
  rw [limitWord, run_cons]
  rcases step_space_of_outside hst with h | ⟨since, h⟩
  · rw [h]
    rfl
  · rw [h]
    cases since <;> rfl

/-- Appended to a statement that leaves nothing open, the clause is part of
it. -/
theorem limitClause_outside {st : State} (hst : st.Outside) (maxRows : ℤ) (k : ℕ) :
    (run st ((limitClause maxRows).take k)).Outside := by
  have hdigits (st : State) (hst : st.Outside) (n k : ℕ) :
      (run st ((Nat.toDigits 10 n).take k)).Outside :=
    outside_run hst fun c hc => (digit_inert (List.mem_of_mem_take hc)).1
  rw [limitClause, List.take_append, run_append]
  by_cases hk : k ≤ limitWord.length
  · rw [Nat.sub_eq_zero_of_le hk, List.take_zero, run_nil]
    exact outside_run hst fun c hc => (limitWord_inert (List.mem_of_mem_take hc)).1
  · rw [List.take_of_length_le (by omega), run_limitWord hst]
    unfold intText
    split
    · cases k - limitWord.length with
      | zero => trivial
      -- a minus after a space is no comment
      | succ j => exact hdigits (step (.code .other) '-') trivial _ j
    · exact hdigits (.code .other) trivial _ _

section Calls

variable {F : Type} [UnicodeDb]

/-- The text that is sent is the statement, with the limit behind it. -/
theorem FetchCall.toList_text (call : FetchCall F) :
    call.text.toList = call.input.sql.toList ++ limitClause call.input.maxRows := by
  have hword : " LIMIT ".toList = limitWord := by decide
  simp only [FetchCall.text, limitClause, String.toList_append, String.toList_ofList]
  rw [hword, List.append_assoc]

/-- The clause lies outside every comment, literal and quoted identifier of
the text sent. -/
def FetchCall.RowsCapped (call : FetchCall F) : Prop :=
  ∀ i, call.input.sql.toList.length ≤ i → i < call.text.toList.length →
    LiesOutside call.text.toList i

/-- A statement that leaves something open swallows the whole clause. -/
theorem clause_swallowed {call : FetchCall F} (hopen : ¬ LeavesNothingOpen call.input.sql) {i : ℕ}
    (hi : call.input.sql.toList.length ≤ i) : ¬ LiesOutside call.text.toList i := by
  obtain ⟨k, rfl⟩ := Nat.exists_eq_add_of_le hi
  rw [LiesOutside, call.toList_text, run_take_append]
  exact fun h => inside_run hopen
    (fun c hc => notMem_closers (List.mem_of_mem_take hc)) h.1

/-- **When the cap is in force.**  The clause is part of the statement if and
only if the statement leaves no comment, literal or quoted identifier open. -/
theorem rowsCapped_iff (call : FetchCall F) :
    call.RowsCapped ↔ LeavesNothingOpen call.input.sql := by
  constructor
  · intro hcapped
    by_contra hopen
    have hlength : call.input.sql.toList.length < call.text.toList.length := by
      rw [call.toList_text, limitClause, limitWord]
      simp
    exact clause_swallowed hopen le_rfl (hcapped _ le_rfl hlength)
  · intro hclosed i hi _
    obtain ⟨k, rfl⟩ := Nat.exists_eq_add_of_le hi
    rw [LiesOutside, call.toList_text, run_take_append, Nat.add_assoc, run_take_append]
    exact ⟨limitClause_outside hclosed _ k, limitClause_outside hclosed _ (k + 1)⟩

theorem rowsCapped_of_leavesNothingOpen {call : FetchCall F}
    (hclosed : LeavesNothingOpen call.input.sql) : call.RowsCapped := by
  intro i hi _
  obtain ⟨k, rfl⟩ := Nat.exists_eq_add_of_le hi
  rw [LiesOutside, call.toList_text, run_take_append, Nat.add_assoc, run_take_append]
  exact ⟨limitClause_outside hclosed _ k, limitClause_outside hclosed _ (k + 1)⟩

/-- So it is for every accepted statement without quotes, dollars and comment
openers. -/
theorem rowsCapped_of_plain {call : FetchCall F}
    (hplain : SelectGuard.Plain call.input.sql.toList) (hdollar : '$' ∉ call.input.sql.toList) :
    call.RowsCapped := by
  have hnothing : OpensNothing call.input.sql.toList :=
    ⟨⟨hplain.noQuote.1, hplain.noQuote.2, hdollar⟩, hplain.noComment⟩
  have hparted : Last.Parted .other call.input.sql.toList := ⟨nofun, nofun⟩
  obtain ⟨last, hlast⟩ := run_of_opensNothing hnothing hparted
  apply rowsCapped_of_leavesNothingOpen
  rw [LeavesNothingOpen, start, hlast]
  trivial

end Calls

/-- A call whose statement ends in a comment. -/
def commentedOrders : FetchCall WholeFloat where
  tenant := "acme"
  input := { sql := "SELECT * FROM orders --" }
  accepted := ⟨"SELECT * FROM orders --", by
    rw [SelectGuard.mustBeSelect_ok_iff]
    decide +kernel⟩

/-- Its cap is part of the comment. -/
theorem commentedOrders_uncapped :
    SelectGuard.mustBeSelect "SELECT * FROM orders --" = .ok commentedOrders.input.sql ∧
      commentedOrders.text = "SELECT * FROM orders -- LIMIT 100" ∧
      ¬ commentedOrders.RowsCapped := by
  refine ⟨?_, by decide +kernel, fun hcapped => ?_⟩
  · rw [SelectGuard.mustBeSelect_ok_iff]
    decide +kernel
  · have hopen : ¬ LeavesNothingOpen commentedOrders.input.sql := by decide +kernel
    exact clause_swallowed hopen (i := 23) (by decide +kernel)
      (hcapped 23 (by decide +kernel) (by decide +kernel))

end Server
