import AtlasMcp.CleanValues
import AtlasMcp.ComponentRuns
import AtlasMcp.HttpCalls
import AtlasMcp.TenantFilters

/-!
# Calls for one tenant

The tools with cached results run each other past the pipeline, several at once, and their
results are shared through the cache; the collections behind them hold the documents of all
tenants.

However a tool ends and whatever it is answered, all its calls are for the tenant of its
dispatch, and an object that it reads lies under the name of that tenant
(`CachedTools.Ran.isFor`): this follows from the code of each tool by the rules for the
questions a program asks.  Two tenants may share an object if a name has a slash; that is
another matter.  With the rules for the cache, what a dispatch returns was found by calls for its
own tenant (`served_for_tenant`).
-/

namespace Server

open PyJson PyText Errors Tools Auth Governance RateLimit Reliability Cache FallibleState
open GuardedRuns Dialogues BooleanQueries

variable {F D : Type}

/-! ## Which documents a call is about -/

/-- The call names the tenant, where the backend keeps the tenants apart; and
a search selects documents of the tenant only. -/
def BackendCall.IsFor (es : Collection F D ElasticsearchSearchTool.tenantTerm)
    (vectors : Collection F D VectorSearchTool.tenantClause) (tenant : String)
    (call : BackendCall F) : Prop :=
  match call with
  | .fetch t _ _ _ => t = tenant
  | .search t _ _ => t = tenant ∧ ∀ d, SelectedBy es vectors call d → es.tenant d = tenant
  | .vectorSearch .. => ∀ d, SelectedBy es vectors call d → vectors.tenant d = tenant
  | .embed _ => True

/-- All calls of an execution are for the tenant, and what it asks the object
store for lies under the name of the tenant. -/
structure Account.IsFor (es : Collection F D ElasticsearchSearchTool.tenantTerm)
    (vectors : Collection F D VectorSearchTool.tenantClause) (tenant : String)
    (account : Account F) : Prop where
  calls : ∀ call ∈ account.calls, call.1.IsFor es vectors tenant
  object : ∀ x ∈ account.object, ∃ key, x.1 = tenantKey tenant key

/-- The filter has clauses only, and the condition comes first of those that
must hold. -/
structure Demands (condition : Value F) (filter : PyDict F) : Prop where
  clauses : ∀ kv ∈ filter.val, kv.1 ∈ clauseNames
  must : ∃ others, dictGet filter.val "must" = some (.list (condition :: others))

section Filters

variable {condition : Value F} {filter : PyDict F} {name : String}

/-- Another clause does not change that. -/
theorem Demands.set (h : Demands condition filter) (hname : name ∈ clauseNames)
    (hother : name ≠ "must") (v : PyValue F) : Demands condition (filter.set name v) where
  clauses kv hkv := by
    rcases mem_dictSet hkv with hold | rfl
    · exact h.clauses kv hold
    · exact hname
  must := by
    rw [PyDict.set, dictGet_dictSet_of_ne _ hother.symm]
    exact h.must

variable [PyFloat F]

/-- A clause that is added from a filter keeps what the filter demands, unless
it is the one in which the demand is. -/
theorem Demands.addClause (h : Demands condition filter) (hname : name ∈ clauseNames)
    (hother : name ≠ "must") (given : PyDict F) :
    Demands condition (VectorSearchTool.addClause filter given name) := by
  unfold VectorSearchTool.addClause
  split
  · exact h.set hname hother _
  · exact h

/-- Whatever the filter of the caller, what is made of it demands the
tenant. -/
theorem demands_of_combined {tenant : String} {given : Option (PyDict F)}
    (h : VectorSearchTool.combined tenant given = .ok filter) :
    Demands (.dict (VectorSearchTool.tenantClause tenant).val) filter := by
  let clause : PyValue F := .dict (VectorSearchTool.tenantClause tenant)
  have hmust (others : List (PyValue F)) (g : PyDict F)
      (hg : ∀ kv ∈ g.val, kv.1 ∈ clauseNames) :
      Demands clause.val (g.set "must" (.list (clause :: others))) := by
    refine ⟨fun kv hkv => ?_, others.map Subtype.val, ?_⟩
    · rcases mem_dictSet hkv with hold | rfl
      · exact hg kv hold
      · simp [clauseNames]
    · exact dictGet_dictSet_self _ _ _
  have hempty := hmust [] (.ofPairs [] List.nodup_nil) (by simp [PyDict.ofPairs])
  cases given with
  | none =>
      obtain rfl := Except.ok.inj h
      exact hempty
  | some f =>
      simp only [VectorSearchTool.combined] at h
      split at h
      · obtain rfl := Except.ok.inj h
        exact hempty
      · obtain ⟨others, -, h⟩ := exists_of_bind_ok h
        obtain rfl := Except.ok.inj h
        have hfirst := hmust others (.ofPairs [("must", .list [clause])] (by simp))
          (by simp [PyDict.ofPairs, clauseNames])
        exact (hfirst.addClause (by decide) (by decide) f).addClause (by decide) (by decide) f

omit [PyFloat F] in
/-- A document that a filter with the clause for a tenant selects is one of
that tenant. -/
theorem tenant_of_demands {vectors : Collection F D VectorSearchTool.tenantClause}
    {tenant : String} {filter : PyDict F}
    (h : Demands (.dict (VectorSearchTool.tenantClause tenant).val) filter) {d : D}
    (hd : vectors.Selects .qdrant (.dict filter.val) d) : vectors.tenant d = tenant := by
  obtain ⟨others, hothers⟩ := h.must
  have hnames : filter.val.all (fun kv => kv.1 ∈ clauseNames) = true := by
    simpa using fun kv v hkv => h.clauses (kv, v) hkv
  have hclause : readQuery .qdrant (.dict (VectorSearchTool.tenantClause (F := F) tenant).val) =
      .leaf (.dict (VectorSearchTool.tenantClause tenant).val) := rfl
  have hmust : readClause .qdrant "must" filter.val =
      readQuery .qdrant (.dict (VectorSearchTool.tenantClause (F := F) tenant).val) ::
        readQueries .qdrant others := by
    rw [readClause_eq, hothers]
    rfl
  rw [Collection.Selects, readQuery, if_pos hnames, hmust, hclause,
    Query.matches_restrict_iff, Query.matches_leaf_iff, vectors.holds_tenantClause] at hd
  exact hd.1

end Filters

/-! ## What the tools ask -/

section Tools

variable (es : Collection F D ElasticsearchSearchTool.tenantTerm)
  (vectors : Collection F D VectorSearchTool.tenantClause) (tenant : String)

/-- The query of a request is that of the tenant around the one of the
input. -/
theorem ElasticsearchSearchTool.query_of_requestBody (input : ElasticsearchSearchInput F) :
    dictGet (requestBody tenant input).val "query" =
      some (.dict (tenantQuery tenant input.query).val) := by
  unfold requestBody
  split
  · have hne : ("query" : String) ≠ "_source" := by decide
    rw [PyDict.set, dictGet_dictSet_of_ne _ hne]
    rfl
  · rfl

/-- `elasticsearch.search` asks the backends for its tenant only. -/
theorem ElasticsearchSearchTool.asksOnly_run (input : ElasticsearchSearchInput F) :
    Program.AsksOnly (BackendCall.IsFor es vectors tenant) (run tenant input) := by
  refine Program.asksOnly_asking (And.intro rfl fun d hd => ?_)
  obtain ⟨query, hquery, hselects⟩ := hd
  obtain rfl := Option.some.inj ((query_of_requestBody tenant input).symm.trans hquery)
  rw [Collection.Selects, readQuery_tenantQuery, Query.matches_must_iff] at hselects
  simp only [Query.MatchAll, Query.matches_leaf_iff, es.holds_tenantClause, and_true] at hselects
  exact hselects.2

/-- The embedder is asked for texts, which belong to no tenant. -/
theorem asksOnly_embedded (query : String) :
    Program.AsksOnly (BackendCall.IsFor es vectors tenant) (embedded query) :=
  Program.asksOnly_asking trivial

/-- `vector.search` asks the backends for its tenant only. -/
theorem VectorSearchTool.asksOnly_run [PyFloat F] (input : VectorSearchInput F) :
    Program.AsksOnly (BackendCall.IsFor es vectors tenant) (run tenant input) := by
  refine Program.asksOnly_ofExcept_bind fun filter hfilter => ?_
  exact Program.asksOnly_asking fun d hd => tenant_of_demands (demands_of_combined hfilter) hd

/-- `postgres.query` asks the backends for its tenant only. -/
theorem PostgresQueryTool.asksOnly_run [UnicodeDb] (input : PostgresQueryInput F) :
    Program.AsksOnly (BackendCall.IsFor es vectors tenant) (run tenant input) :=
  Program.asksOnly_asking rfl

variable [PyFloat F]

/-- `semantic_search` asks the backends for its tenant only, through the tools
that it uses. -/
theorem SemanticSearchTool.asksOnly_run [UnicodeDb] (input : SemanticSearchInput) :
    Program.AsksOnly (BackendCall.IsFor es vectors tenant) (run tenant input) := by
  refine (asksOnly_embedded es vectors tenant input.query).bind fun embeddings => ?_
  refine (Program.asksOnly_ofExcept _).bind fun vector => ?_
  refine (Program.asksOnly_ofExcept _).bind fun search => ?_
  refine (VectorSearchTool.asksOnly_run es vectors tenant search).bind fun searched => ?_
  refine (Program.asksOnly_ofExcept _).bind fun found => ?_
  split
  · exact Program.asksOnly_pure _
  · split
    · refine (Program.asksOnly_ofExcept _).bind fun ids => ?_
      refine (Program.asksOnly_ofExcept _).bind fun query => ?_
      exact (PostgresQueryTool.asksOnly_run es vectors tenant query).bind fun fetched =>
        Program.asksOnly_ofExcept _
    · exact Program.asksOnly_ofExcept _

/-- `hybrid_search` asks the backends for its tenant only, however its two
searches come in between each other. -/
theorem HybridSearchTool.isFor_of_ran
    {fuse : HybridSearchInput → PyDict F → PyDict F → Except (Exc F) (PyDict F)}
    {input : HybridSearchInput} {l : List (Exchange (BackendCall F) (BackendAnswer F))}
    {r : Except (Exc F) (PyDict F)} (h : Ran fuse tenant input l r) :
    ∀ call ∈ l, call.1.IsFor es vectors tenant := by
  have hlexical := ElasticsearchSearchTool.asksOnly_run es vectors tenant
    (lexicalInput (F := F) input)
  have hembedded := asksOnly_embedded es vectors tenant input.query
  rcases h with ⟨e, hgathered, -⟩ | ⟨found, first, rest, rfl, hgathered, hdense⟩
  · exact hlexical.joined hembedded hgathered
  · have hasks : Program.AsksOnly (BackendCall.IsFor es vectors tenant)
        (dense fuse tenant input found) := by
      refine (Program.asksOnly_ofExcept _).bind fun vector => ?_
      refine (Program.asksOnly_ofExcept _).bind fun search => ?_
      exact (VectorSearchTool.asksOnly_run es vectors tenant search).bind fun searched =>
        Program.asksOnly_ofExcept _
    exact List.forall_mem_append.mpr
      ⟨hlexical.joined hembedded hgathered, hasks rest r hdense⟩

namespace CustomerContextTool

variable [UnicodeDb]

omit [PyFloat F] in
/-- The queries of the customer context are those of its tenant. -/
theorem asksOnly_rowsOf (sql : String) (params : List (Value F)) (maxRows : ℤ) :
    Program.AsksOnly (BackendCall.IsFor es vectors tenant) (rowsOf tenant sql params maxRows) := by
  refine (Program.asksOnly_ofExcept _).bind fun input => ?_
  exact (PostgresQueryTool.asksOnly_run es vectors tenant input).bind fun result =>
    Program.asksOnly_ofExcept _

/-- Each sub-task of the customer context asks for its tenant only. -/
theorem asksOnly_of_mem_tasks {input : CustomerContextInput}
    {task : String × ToolProgram F (PyValue F)} (h : task ∈ tasks tenant input) :
    Program.AsksOnly (BackendCall.IsFor es vectors tenant) task.2 := by
  simp only [tasks, List.mem_append] at h
  rcases h with ((h | h) | h) | h
  · obtain rfl := List.mem_singleton.mp h
    exact (asksOnly_rowsOf es vectors tenant _ _ _).bind fun rows => Program.asksOnly_ofExcept _
  · split at h
    · obtain rfl := List.mem_singleton.mp h
      exact asksOnly_rowsOf es vectors tenant _ _ _
    · cases h
  · split at h
    · obtain rfl := List.mem_singleton.mp h
      exact (ElasticsearchSearchTool.asksOnly_run es vectors tenant _).bind fun result =>
        Program.asksOnly_ofExcept _
    · cases h
  · split at h
    · obtain rfl := List.mem_singleton.mp h
      exact (SemanticSearchTool.asksOnly_run es vectors tenant _).bind fun result =>
        Program.asksOnly_ofExcept _
    · cases h

end CustomerContextTool

variable [UnicodeDb] {tools : CachedTools F}

omit [PyFloat F] [UnicodeDb] in
/-- An execution that does not ask the object store is for the tenant if its
calls are. -/
theorem Account.isFor_of_calls {account : Account F} (hobject : account.object = none)
    (hcalls : ∀ call ∈ account.calls, call.1.IsFor es vectors tenant) :
    account.IsFor es vectors tenant :=
  ⟨hcalls, by simp [hobject]⟩

/-- However it ends, a tool with cached results has only made calls for the
tenant of its dispatch. -/
theorem CachedTools.Ran.isFor {f : Flight F} {account : Account F}
    {outcome : Except (Exc F) (ToolResult F)} (h : tools.Ran f account outcome)
    (htool : f.tool ∈ tools.all) : account.IsFor es vectors f.envelope.tenant := by
  simp only [CachedTools.all, List.mem_cons, List.not_mem_nil, or_false] at htool
  rcases htool with htool | htool | htool | htool | htool | htool | htool
  · obtain ⟨hobject, htalk⟩ := h.postgres (by rw [htool]; rfl)
    exact Account.isFor_of_calls es vectors _ hobject
      (PostgresQueryTool.asksOnly_run es vectors _ _ _ _ htalk)
  · obtain ⟨hcalls, answer, hobject, -⟩ := h.s3 (by rw [htool]; rfl)
    refine ⟨by simp [hcalls], fun x hx => ⟨textField f.args "key", ?_⟩⟩
    obtain rfl : (f.objectKey, answer) = x := Option.some.inj (hobject.symm.trans hx)
    rfl
  · obtain ⟨hobject, htalk⟩ := h.elasticsearch (by rw [htool]; rfl)
    exact Account.isFor_of_calls es vectors _ hobject
      (ElasticsearchSearchTool.asksOnly_run es vectors _ _ _ _ htalk)
  · obtain ⟨hobject, htalk⟩ := h.vector (by rw [htool]; rfl)
    exact Account.isFor_of_calls es vectors _ hobject
      (VectorSearchTool.asksOnly_run es vectors _ _ _ _ htalk)
  · obtain ⟨hobject, htalk⟩ := h.semantic (by rw [htool]; rfl)
    exact Account.isFor_of_calls es vectors _ hobject
      (SemanticSearchTool.asksOnly_run es vectors _ _ _ _ htalk)
  · obtain ⟨hobject, hran⟩ := h.hybrid (by rw [htool]; rfl)
    exact Account.isFor_of_calls es vectors _ hobject
      (HybridSearchTool.isFor_of_ran es vectors _ hran)
  · obtain ⟨hobject, hgathered, -⟩ := h.customer (by rw [htool]; rfl)
    refine Account.isFor_of_calls es vectors _ hobject (hgathered.asksOnly fun x hx => ?_)
    obtain ⟨task, htask, rfl⟩ := List.mem_map.mp hx
    exact CustomerContextTool.asksOnly_of_mem_tasks es vectors _ htask

end Tools

/-! ## Along runs -/

namespace Service

variable [PyFloat F] [UnicodeDb] {tools : CachedTools F} {srv : AtlasServer F}
  {s t : Service F} {l : Event F × Account F}

/-- A tool with cached results that ends has only made calls for the tenant of
its dispatch. -/
def AsksForTenant (tools : CachedTools F)
    (es : Collection F D ElasticsearchSearchTool.tenantTerm)
    (vectors : Collection F D VectorSearchTool.tenantClause) (s : Service F)
    (l : Event F × Account F) (_ : Service F) : Prop :=
  ∀ i outcome now, l.1 = .ran i outcome now → ∀ w ∈ s.system.inFlight[i]?, w.1.tool ∈ tools.all →
    l.2.IsFor es vectors w.1.envelope.tenant

/-- The executions of the server are on record, and ran as their code says.
Each step of the service keeps this. -/
structure Traceable (tools : CachedTools F) (s : Service F) : Prop where
  recorded : s.system.executions = s.executions.map fun x => (x.flight, x.result)
  ran : ∀ x ∈ s.executions, tools.Ran x.flight x.account (.ok x.result)

/-- An execution that goes on record ran as its code says. -/
theorem ran_of_executed (haccounted : s.Accounted tools l t) {x : Execution F}
    (hx : s.executed l = some x) : tools.Ran x.flight x.account (.ok x.result) := by
  unfold executed at hx
  split at hx
  next i result now hl =>
      obtain ⟨⟨f, phase⟩, hi, rfl⟩ := Option.map_eq_some_iff.mp hx
      exact haccounted i _ now hl _ hi
  next => cases hx

/-- A step of the service keeps every execution traceable to a call of its
tenant. -/
theorem Traceable.step (hs : s.Traceable tools) (h : s.Step tools srv l t) :
    t.Traceable tools := by
  obtain ⟨hstep, hexecutions, -, haccounted⟩ := step_cases h
  constructor
  · rw [executions_step hstep, hexecutions, List.map_append, hs.recorded]
  · rw [hexecutions]
    refine List.forall_mem_append.mpr ⟨hs.ran, fun x hx => ?_⟩
    exact ran_of_executed haccounted (Option.mem_toList.mp hx)

/-- **What a tenant is given was asked for in its name.**  In every run of a
new server whose tools with cached results run as their code says, whatever
the backends answer and however the dispatches interleave: all calls of such a
tool that ends, with a result or an exception, are for the tenant of its
dispatch, an object it asks for being under the name of that tenant; and what
a dispatch of such a tool returns, through the cache or not, is the result of
an execution of the tool all of whose calls were for its tenant. -/
theorem served_for_tenant (es : Collection F D ElasticsearchSearchTool.tenantTerm)
    (vectors : Collection F D VectorSearchTool.tenantClause)
    (hnames : ∀ name tool, srv.registry.tools.lookup name = some tool → ':' ∉ name.toList)
    {labels : List (Event F × Account F)}
    (hrun : Run (Step tools srv) (start srv) labels t) :
    Run (Guarded (Step tools srv) (AsksForTenant tools es vectors)) (start srv) labels t ∧
      ∀ f v, (f, v) ∈ t.system.returned → f.tool ∈ tools.all →
        ∃ x ∈ t.executions, x.flight.tool = f.tool ∧ IsResult x.result v ∧
          x.account.IsFor es vectors f.envelope.tenant := by
  constructor
  · refine hrun.guarded fun l s t _ hstep i outcome now hl w hw htool => ?_
    exact (hstep.2 i outcome now hl w hw).isFor es vectors htool
  · intro f v hfv htool
    have htraceable : t.Traceable tools :=
      hrun.invariant ⟨rfl, by simp [start]⟩ fun _ _ _ hs hstep => hs.step hstep
    have hsystem : Run (System.Step srv) (System.start srv) (labels.map Prod.fst) t.system :=
      hrun.map Service.system Prod.fst fun _ _ _ hstep => (step_cases hstep).1
    obtain ⟨y, hy, hytool, htenant, hresult⟩ := System.execution_of_returned hnames hsystem hfv
    rw [htraceable.recorded] at hy
    obtain ⟨x, hx, rfl⟩ := List.mem_map.mp hy
    refine ⟨x, hx, hytool, hresult, ?_⟩
    rw [← htenant]
    exact (htraceable.ran x hx).isFor es vectors (hytool ▸ htool)

end Service

/-- A context that is built, and served again, over backends that hold
documents of many tenants. -/
theorem context_served_for_tenant : ∃ t,
    Run (Guarded (Service.Step supportTools supportServer)
      (Service.AsksForTenant supportTools taggedIndex taggedVectors))
      (Service.start supportServer) (contextAsked ++ [contextEnded true] ++ askedAgain) t ∧
    t.hits.length = 1 ∧
    ∀ f v, (f, v) ∈ t.system.returned → f.tool ∈ supportTools.all →
      ∃ x ∈ t.executions, x.flight.tool = f.tool ∧ IsResult x.result v ∧
        x.account.IsFor taggedIndex taggedVectors f.envelope.tenant := by
  obtain ⟨t, hrun, hhits⟩ := built_and_asked_again true
  have hnames : ∀ name tool, supportServer.registry.tools.lookup name = some tool →
      ':' ∉ name.toList := by
    intro name tool h
    obtain rfl := ToolRegistry.eq_of_lookup_single "customer.build_context" rfl h
    decide
  obtain ⟨hguarded, hreturned⟩ :=
    Service.served_for_tenant taggedIndex taggedVectors hnames hrun
  exact ⟨t, hguarded, by simpa using congrArg List.length hhits, hreturned⟩

end Server
