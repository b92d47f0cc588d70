import AtlasMcp.ComposedTools

/-!
# The customer context

`customer.build_context` asks Postgres for the profile and the orders of a customer,
Elasticsearch for the open tickets, and `semantic_search` for documents, all at once.  A
sub-task that raises does not end the run: its error goes into the result, under
`partial_errors`.

So the result tells whether a sub-task raised (`hasPartialErrors_of_ran`), and without
partial errors no call of a backend has failed (`answered_of_ran`).
-/

namespace Server

open PyJson PyText Errors Dialogues

variable {F : Type}

/-- The arguments of `customer.build_context`: the customer, the question, and
which parts of the context are wanted. -/
structure CustomerContextInput where
  customerId : String
  question : String
  includeOrders : Bool := true
  includeTickets : Bool := true
  includeDocs : Bool := true
  recentOrdersLimit : ℤ := 5
deriving DecidableEq

namespace CustomerContextTool

section SubTasks

variable [UnicodeDb]

/-- The rows of a query. -/
def rowsOf (tenant sql : String) (params : List (Value F)) (maxRows : ℤ) :
    ToolProgram F (PyValue F) := do
  let input ← .ofExcept (PostgresQueryInput.build sql params maxRows)
  let result ← PostgresQueryTool.run tenant input
  .ofExcept ((PyValue.dict result).item "rows")

/-- `_profile`. -/
def profile (tenant customerId : String) : ToolProgram F (PyValue F) := do
  let rows ← rowsOf tenant
    "SELECT id, name, email, tier, created_at FROM customers WHERE id = $1"
    [.str customerId] 1
  .ofExcept do
    match ← rows.iter with
    | [] => return .dict (.ofPairs [] List.nodup_nil)
    | row :: _ => return row

/-- `_recent_orders`. -/
def recentOrders (tenant customerId : String) (limit : ℤ) : ToolProgram F (PyValue F) :=
  rowsOf tenant
    ("SELECT id, status, total_cents, currency, created_at " ++
      "FROM orders WHERE customer_id = $1 ORDER BY created_at DESC")
    [.str customerId] limit

/-- `h["source"] | {"id": h["id"]}`. -/
def ticketOf (h : PyValue F) : Except (Exc F) (PyValue F) := do
  let source ← h.item "source"
  let id ← h.item "id"
  match source.asDict? with
  | some ticket => return .dict (ticket.set "id" id)
  | none => .error (.other "TypeError")

/-- The search for the tickets that are not closed. -/
def ticketsInput (customerId : String) : ElasticsearchSearchInput F where
  index := "tickets"
  query := .ofPairs [("bool", .dict (.ofPairs [("must", .list
    [.dict (.ofPairs [("term", .dict (.ofPairs [("customer_id", .str customerId)]
        (by simp)))] (by simp)),
      .dict (.ofPairs [("terms", .dict (.ofPairs
        [("status", .list [.str "open", .str "pending"])] (by simp)))] (by simp))])]
    (by simp)))] (by simp)
  size := 10
  fields := some ["subject", "status", "priority", "created_at"]

/-- `_open_tickets`. -/
def openTickets (tenant customerId : String) : ToolProgram F (PyValue F) := do
  let result ← ElasticsearchSearchTool.run tenant (ticketsInput customerId)
  .ofExcept do
    let hits ← (PyValue.dict result).item "hits"
    return .list (← (← hits.iter).mapM ticketOf)

/-- `_relevant_docs`. -/
def relevantDocs [PyFloat F] (tenant question : String) : ToolProgram F (PyValue F) := do
  let result ← SemanticSearchTool.run tenant
    { query := question, collection := "support_docs", topK := 3, hydrateFromPostgres := false }
  .ofExcept ((PyValue.dict result).item "results")

variable [PyFloat F]

/-- The sub-tasks, under the names of their results. -/
def tasks (tenant : String) (input : CustomerContextInput) :
    List (String × ToolProgram F (PyValue F)) :=
  [("profile", profile tenant input.customerId)] ++
    (if input.includeOrders then
      [("orders", recentOrders tenant input.customerId input.recentOrdersLimit)] else []) ++
    (if input.includeTickets then [("tickets", openTickets tenant input.customerId)] else []) ++
    (if input.includeDocs then [("docs", relevantDocs tenant input.question)] else [])

end SubTasks

/-- A query of the context returns rows only if its call was answered. -/
theorem heeds_rowsOf [UnicodeDb] (tenant sql : String) (params : List (Value F)) (maxRows : ℤ) :
    Program.Heeds Answered (rowsOf tenant sql params maxRows) := by
  refine (Program.heeds_ofExcept _).bind fun input => ?_
  exact (PostgresQueryTool.heeds_run tenant input).bind fun result => Program.heeds_ofExcept _

/-- No sub-task returns when a call has failed. -/
theorem heeds_of_mem_tasks [PyFloat F] [UnicodeDb] {tenant : String} {input : CustomerContextInput}
    {task : String × ToolProgram F (PyValue F)} (h : task ∈ tasks tenant input) :
    Program.Heeds Answered task.2 := by
  simp only [tasks, List.mem_append] at h
  rcases h with ((h | h) | h) | h
  · obtain rfl := List.mem_singleton.mp h
    exact (heeds_rowsOf tenant _ _ _).bind fun rows => Program.heeds_ofExcept _
  · split at h
    · obtain rfl := List.mem_singleton.mp h
      exact heeds_rowsOf tenant _ _ _
    · cases h
  · split at h
    · obtain rfl := List.mem_singleton.mp h
      exact (ElasticsearchSearchTool.heeds_run tenant _).bind fun result => Program.heeds_ofExcept _
    · cases h
  · split at h
    · obtain rfl := List.mem_singleton.mp h
      exact (SemanticSearchTool.heeds_run tenant _).bind fun result => Program.heeds_ofExcept _
    · cases h

/-- None has its result under the name of the errors. -/
theorem name_ne_of_mem_tasks [PyFloat F] [UnicodeDb] {tenant : String}
    {input : CustomerContextInput} {task : String × ToolProgram F (PyValue F)}
    (h : task ∈ tasks tenant input) : task.1 ≠ "partial_errors" := by
  simp only [tasks, List.mem_append] at h
  rcases h with ((h | h) | h) | h
  · obtain rfl := List.mem_singleton.mp h
    simp
  all_goals
    split at h
    · obtain rfl := List.mem_singleton.mp h
      simp
    · cases h

/-- What the result says of an exception. -/
def partialError : Exc F → String
  | .tool e => e.code
  | .cancelled => "internal_error: CancelledError"
  | .other typeName => "internal_error: " ++ typeName

/-- The results of the sub-tasks that returned. -/
def addResult (context : PyDict F) (ended : String × Except (Exc F) (PyValue F)) : PyDict F :=
  match ended.2 with
  | .ok v => context.set ended.1 v
  | .error _ => context

/-- The errors of those that raised. -/
def addError (errors : PyDict F) (ended : String × Except (Exc F) (PyValue F)) : PyDict F :=
  match ended.2 with
  | .ok _ => errors
  | .error e => errors.set ended.1 (.str (partialError e))

/-- The context, once all sub-tasks have ended. -/
def contextOf (input : CustomerContextInput) (keyed : List (String × Except (Exc F) (PyValue F))) :
    PyDict F :=
  let context := keyed.foldl addResult (.ofPairs
    [("customer_id", .str input.customerId), ("question", .str input.question)] (by simp))
  let errors := keyed.foldl addError (.ofPairs [] List.nodup_nil)
  if errors.val.isEmpty then context else context.set "partial_errors" (.dict errors)

/-- The value is a result with partial errors. -/
def HasPartialErrors : Value F → Prop
  | .dict members => (dictGet members "partial_errors").isSome = true
  | _ => False

instance (v : Value F) : Decidable (HasPartialErrors v) :=
  match v with
  | .dict _ => inferInstanceAs (Decidable (_ = _))
  | .none | .bool _ | .int _ | .float _ | .str _ | .list _ | .other .. => isFalse id

section Contexts

variable {keyed : List (String × Except (Exc F) (PyValue F))}

/-- Adding results leaves what is under the other names. -/
theorem dictGet_foldl_addResult {name : String} (h : ∀ ended ∈ keyed, ended.1 ≠ name)
    (context : PyDict F) :
    dictGet (keyed.foldl addResult context).val name = dictGet context.val name := by
  induction keyed generalizing context with
  | nil => rfl
  | cons ended keyed ih =>
      obtain ⟨hne, hrest⟩ := List.forall_mem_cons.mp h
      rw [List.foldl_cons, ih hrest]
      cases hended : ended.2 with
      | error e => simp only [addResult, hended]
      | ok v =>
          simp only [addResult, hended, PyDict.set]
          exact dictGet_dictSet_of_ne _ (Ne.symm hne) _

/-- There are no errors in the context if and only if there were none before
and no sub-task has raised. -/
theorem isEmpty_foldl_addError (errors : PyDict F) :
    (keyed.foldl addError errors).val.isEmpty = true ↔
      errors.val.isEmpty = true ∧ ∀ ended ∈ keyed, ∀ e, ended.2 ≠ .error e := by
  induction keyed generalizing errors with
  | nil => simp
  | cons ended keyed ih =>
      rw [List.foldl_cons, ih, List.forall_mem_cons]
      cases hended : ended.2 with
      | ok v => simp [addError, hended]
      | error e =>
          -- one error is enough
          have hset : (errors.set ended.1 (.str (partialError e))).val ≠ [] := by
            intro hnil
            have hget := dictGet_dictSet_self errors.val ended.1
              (PyValue.str (F := F) (partialError e)).val
            rw [show dictSet errors.val ended.1 _ = [] from hnil] at hget
            cases hget
          simp [addError, hended, hset]

/-- The result has partial errors exactly if a sub-task raised. -/
theorem hasPartialErrors_contextOf (input : CustomerContextInput)
    (hnames : ∀ ended ∈ keyed, ended.1 ≠ "partial_errors") :
    HasPartialErrors (.dict (contextOf input keyed).val) ↔
      ∃ ended ∈ keyed, ∃ e, ended.2 = .error e := by
  have hempty : (keyed.foldl addError (.ofPairs [] List.nodup_nil)).val.isEmpty = true ↔
      _ ∧ ∀ ended ∈ keyed, ∀ e, ended.2 ≠ .error e := isEmpty_foldl_addError _
  unfold contextOf HasPartialErrors
  simp only
  split
  next herrors =>
    refine iff_of_false ?_ fun ⟨ended, hmem, e, he⟩ => (hempty.mp herrors).2 ended hmem e he
    rw [dictGet_foldl_addResult hnames]
    simp [PyDict.ofPairs, dictGet, List.lookup_cons]
  next herrors =>
    refine iff_of_true ?_ ?_
    · rw [PyDict.set, dictGet_dictSet_self]
      rfl
    · by_contra hnone
      refine herrors (hempty.mpr ⟨rfl, fun ended hmem e he => hnone ⟨ended, hmem, e, he⟩⟩)

end Contexts

section Runs

variable [PyFloat F] [UnicodeDb]

/-- `CustomerContextTool.run`: it can have these exchanges, its sub-tasks can
end like this, and it returns this. -/
def Ran (tenant : String) (input : CustomerContextInput)
    (l : List (Exchange (BackendCall F) (BackendAnswer F)))
    (ends : List (Except (Exc F) (PyValue F))) (r : Except (Exc F) (PyDict F)) : Prop :=
  Program.Gathered ((tasks tenant input).map Prod.snd) l ends ∧
    r = .ok (contextOf input (((tasks (F := F) tenant input).map Prod.fst).zip ends))

variable {tenant : String} {input : CustomerContextInput}
  {l : List (Exchange (BackendCall F) (BackendAnswer F))}
  {ends : List (Except (Exc F) (PyValue F))} {result : PyDict F}

/-- The result of a run has partial errors exactly if a sub-task raised. -/
theorem hasPartialErrors_of_ran (h : Ran tenant input l ends (.ok result)) :
    HasPartialErrors (.dict result.val) ↔ ∃ e, .error e ∈ ends := by
  obtain ⟨hgathered, hresult⟩ := h
  obtain rfl := Except.ok.inj hresult
  have hlength : ends.length = ((tasks (F := F) tenant input).map Prod.fst).length := by
    rw [hgathered.length_eq, List.length_map, List.length_map]
  rw [hasPartialErrors_contextOf]
  · constructor
    · rintro ⟨ended, hmem, e, he⟩
      exact ⟨e, he ▸ (List.of_mem_zip hmem).2⟩
    · rintro ⟨e, he⟩
      obtain ⟨i, hi, hget⟩ := List.mem_iff_getElem.mp he
      have hzip : i < (((tasks (F := F) tenant input).map Prod.fst).zip ends).length := by
        rw [List.length_zip]
        omega
      exact ⟨_, List.getElem_mem hzip, e, by simpa using hget⟩
  · intro ended hmem
    obtain ⟨task, htask, hname⟩ := List.mem_map.mp (List.of_mem_zip hmem).1
    rw [← hname]
    exact name_ne_of_mem_tasks htask

/-- Where no sub-task raised, no call of a backend has failed. -/
theorem answered_of_ran {r : Except (Exc F) (PyDict F)} (h : Ran tenant input l ends r)
    (hends : ∀ e, .error e ∉ ends) : ∀ x ∈ l, Answered x := by
  refine h.1.good_of_returned (fun program hprogram => ?_) hends
  obtain ⟨task, htask, rfl⟩ := List.mem_map.mp hprogram
  exact heeds_of_mem_tasks htask

end Runs

end CustomerContextTool

end Server
