import AtlasMcp.CachedResults
import AtlasMcp.CachedValues
import AtlasMcp.CustomerContext
import AtlasMcp.HybridFusion
import AtlasMcp.ObjectStore

/-!
# Failed calls and the cache

What a dispatch that uses the cache returns is stored for others, so it matters what a tool
returns while a backend is down.  Of the tools whose results are cached, all but one raise
then, and nothing is stored.  `customer.build_context` returns what it has, with the errors
of its sub-tasks, and this is stored like any other result, and served after the backend has
recovered.

A `Service` is a server whose tools run as their code says, on any answers of the backends.
`trustworthy_of_unbroken` says that there is nothing else: while no sub-task of a context
that is to be stored raises, all values in the cache come from executions without a failed
call.
-/

namespace Server

open PyJson PyText Errors Tools Auth Governance RateLimit Reliability Cache FallibleState
open GuardedRuns Dialogues

variable {F : Type}

/-- What went on in an execution of a tool: its calls in the order of their
answers, the key it asked the object store for with what that answered, and
how its sub-tasks ended. -/
structure Account (F : Type) where
  calls : List (Exchange (BackendCall F) (BackendAnswer F)) := []
  object : Option (String × Except (StoreFailure F) (List ℕ)) := none
  ends : List (Except (Exc F) (PyValue F)) := []

/-- No call of a backend failed, and the object that was asked of the store, if
there was one, was answered. -/
structure Account.Clean (x : Account F) : Prop where
  calls : ∀ call ∈ x.calls, Answered call
  object : ∀ key failure, x.object ≠ some (key, .error failure)

/-- An input schema, and the fields of its models as the tool reads them.  The
model of a tool has the types of its fields; the server only sees its dump. -/
structure InputSchema (F I : Type) where
  validate : List (String × Value F) → Except (Rejection F) (BaseModel F)
  fields : BaseModel F → I

/-- The tools whose results are cached.  How `hybrid_search` fuses what it has
found is left open, since it depends on the arithmetic of floats; its code is
`HybridSearchTool.fused`. -/
structure CachedTools (F : Type) [UnicodeDb] where
  postgres : PostgresQueryTool F
  postgresFields : BaseModel F → PostgresQueryInput F
  s3 : S3Tools F
  elasticsearch : InputSchema F (ElasticsearchSearchInput F)
  vector : InputSchema F (VectorSearchInput F)
  semantic : InputSchema F SemanticSearchInput
  hybrid : InputSchema F HybridSearchInput
  fuse : HybridSearchInput → PyDict F → PyDict F → Except (Exc F) (PyDict F)
  customer : InputSchema F CustomerContextInput

namespace CachedTools

section Registered

variable [UnicodeDb] (tools : CachedTools F)

/-- `elasticsearch.search` as it is registered: cached for half a minute, and
not destructive. -/
def elasticsearchTool : Tool F where
  metadata :=
    { name := "elasticsearch.search"
      scopesRequired := ["tool:elasticsearch:read"]
      cacheable := true
      cacheTtlSeconds := 30 }
  inputSchema := tools.elasticsearch.validate

/-- `vector.search` as it is registered, cached for five minutes. -/
def vectorTool : Tool F where
  metadata :=
    { name := "vector.search"
      scopesRequired := ["tool:vector:read"]
      cacheable := true
      cacheTtlSeconds := 300 }
  inputSchema := tools.vector.validate

/-- `semantic_search` as it is registered, cached for two minutes. -/
def semanticTool : Tool F where
  metadata :=
    { name := "semantic_search"
      scopesRequired := ["tool:vector:read", "tool:postgres:read"]
      cacheable := true
      cacheTtlSeconds := 120 }
  inputSchema := tools.semantic.validate

/-- `hybrid_search` as it is registered, cached for two minutes. -/
def hybridTool : Tool F where
  metadata :=
    { name := "hybrid_search"
      scopesRequired := ["tool:vector:read", "tool:elasticsearch:read"]
      cacheable := true
      cacheTtlSeconds := 120 }
  inputSchema := tools.hybrid.validate

/-- `customer.build_context` as it is registered, cached for half a minute. -/
def customerTool : Tool F where
  metadata :=
    { name := "customer.build_context"
      scopesRequired := ["tool:postgres:read", "tool:elasticsearch:read", "tool:vector:read"]
      cacheable := true
      cacheTtlSeconds := 30 }
  inputSchema := tools.customer.validate

/-- The tools whose results are cached, as they are registered. -/
def all : List (Tool F) :=
  [tools.postgres.tool, tools.s3.getTool, tools.elasticsearchTool, tools.vectorTool,
    tools.semanticTool, tools.hybridTool, tools.customerTool]

/-- The server has no other tools with cached results.  It may have any others
whose results are not cached. -/
def Serve (srv : AtlasServer F) : Prop :=
  ∀ name tool, srv.registry.tools.lookup name = some tool → tool.metadata.cacheable = true →
    tool ∈ tools.all

end Registered

variable [PyFloat F] [UnicodeDb]

/-- The tool of the dispatch can run like this and end like this.  For each of
the tools it is its own program that says so. -/
structure Ran (tools : CachedTools F) (f : Flight F) (x : Account F)
    (outcome : Except (Exc F) (ToolResult F)) : Prop where
  postgres : f.tool.metadata.name = "postgres.query" → x.object = none ∧
    Program.Talk (PostgresQueryTool.run f.envelope.tenant (tools.postgresFields f.args))
      x.calls outcome
  s3 : f.tool.metadata.name = "s3.get_object" → x.calls = [] ∧
    ∃ answer, x.object = some (f.objectKey, answer) ∧ outcome = S3GetTool.run f.args answer
  elasticsearch : f.tool.metadata.name = "elasticsearch.search" → x.object = none ∧
    Program.Talk
      (ElasticsearchSearchTool.run f.envelope.tenant (tools.elasticsearch.fields f.args))
      x.calls outcome
  vector : f.tool.metadata.name = "vector.search" → x.object = none ∧
    Program.Talk (VectorSearchTool.run f.envelope.tenant (tools.vector.fields f.args))
      x.calls outcome
  semantic : f.tool.metadata.name = "semantic_search" → x.object = none ∧
    Program.Talk (SemanticSearchTool.run f.envelope.tenant (tools.semantic.fields f.args))
      x.calls outcome
  hybrid : f.tool.metadata.name = "hybrid_search" → x.object = none ∧
    HybridSearchTool.Ran tools.fuse f.envelope.tenant (tools.hybrid.fields f.args)
      x.calls outcome
  customer : f.tool.metadata.name = "customer.build_context" → x.object = none ∧
    CustomerContextTool.Ran f.envelope.tenant (tools.customer.fields f.args)
      x.calls x.ends outcome

end CachedTools

/-- The dispatch builds a context. -/
def Flight.BuildsContext (f : Flight F) : Prop :=
  f.tool.metadata.name = "customer.build_context"

/-- An execution that ended with a result, with what its backends were asked and
have answered. -/
structure Execution (F : Type) where
  flight : Flight F
  account : Account F
  result : ToolResult F

/-- As the result of a tool is to be when it is stored: no call has failed,
and a context is complete. -/
structure Execution.Sound (x : Execution F) : Prop where
  clean : x.account.Clean
  complete : x.flight.BuildsContext →
    ¬ CustomerContextTool.HasPartialErrors (.dict x.result.val)

/-- No sub-task of a context raised.  For any other tool there is nothing to be
broken. -/
def Execution.Unbroken (x : Execution F) : Prop :=
  x.flight.BuildsContext → ∀ e, .error e ∉ x.account.ends

section Executions

variable [PyFloat F] [UnicodeDb] {tools : CachedTools F} {f : Flight F} {account : Account F}
  {result : ToolResult F}

omit [PyFloat F] [UnicodeDb] in
/-- For a tool that asks its backends in turn, a run without a failed call is
sound if and only if its result is unbroken. -/
theorem sound_iff_of_clean (hname : ¬ f.BuildsContext) (hclean : account.Clean) :
    (⟨f, account, result⟩ : Execution F).Sound ↔
      (⟨f, account, result⟩ : Execution F).Unbroken :=
  iff_of_true ⟨hclean, fun h => absurd h hname⟩ fun h => absurd h hname

omit [PyFloat F] [UnicodeDb] in
theorem clean_of_calls (hobject : account.object = none)
    (hcalls : ∀ call ∈ account.calls, Answered call) : account.Clean := by
  refine ⟨hcalls, fun key failure hfailure => ?_⟩
  rw [hobject] at hfailure
  cases hfailure

/-- A context is as it should be exactly if no sub-task raised. -/
theorem sound_context_iff (hname : f.BuildsContext) (h : tools.Ran f account (.ok result)) :
    (⟨f, account, result⟩ : Execution F).Sound ↔
      (⟨f, account, result⟩ : Execution F).Unbroken := by
  obtain ⟨hobject, hran⟩ := h.customer hname
  have herrors := CustomerContextTool.hasPartialErrors_of_ran hran
  constructor
  · intro hsound _ e he
    exact hsound.complete hname (herrors.mpr ⟨e, he⟩)
  · intro hunbroken
    have hends := hunbroken hname
    refine ⟨clean_of_calls hobject (CustomerContextTool.answered_of_ran hran hends), fun _ => ?_⟩
    rw [herrors]
    rintro ⟨e, he⟩
    exact hends e he

/-- What a tool with cached results returns is as it should be, but for a
context with a sub-task that raised. -/
theorem sound_iff_of_ran (htool : f.tool ∈ tools.all)
    (h : tools.Ran f account (.ok result)) :
    (⟨f, account, result⟩ : Execution F).Sound ↔
      (⟨f, account, result⟩ : Execution F).Unbroken := by
  by_cases hname : f.BuildsContext
  · exact sound_context_iff hname h
  apply sound_iff_of_clean hname
  simp only [CachedTools.all, List.mem_cons, List.not_mem_nil, or_false] at htool
  rcases htool with htool | htool | htool | htool | htool | htool | htool
  · obtain ⟨hobject, htalk⟩ := h.postgres (by rw [htool]; rfl)
    exact clean_of_calls hobject (PostgresQueryTool.heeds_run _ _ _ _ htalk)
  · obtain ⟨hcalls, answer, hobject, hrun⟩ := h.s3 (by rw [htool]; rfl)
    refine ⟨by simp [hcalls], fun key failure hfailure => ?_⟩
    obtain ⟨-, rfl⟩ : f.objectKey = key ∧ answer = .error failure :=
      Prod.mk.inj (Option.some.inj (hobject.symm.trans hfailure))
    cases hrun
  · obtain ⟨hobject, htalk⟩ := h.elasticsearch (by rw [htool]; rfl)
    exact clean_of_calls hobject (ElasticsearchSearchTool.heeds_run _ _ _ _ htalk)
  · obtain ⟨hobject, htalk⟩ := h.vector (by rw [htool]; rfl)
    exact clean_of_calls hobject (VectorSearchTool.heeds_run _ _ _ _ htalk)
  · obtain ⟨hobject, htalk⟩ := h.semantic (by rw [htool]; rfl)
    exact clean_of_calls hobject (SemanticSearchTool.heeds_run _ _ _ _ htalk)
  · obtain ⟨hobject, hran⟩ := h.hybrid (by rw [htool]; rfl)
    exact clean_of_calls hobject (HybridSearchTool.answered_of_ran hran)
  · exact absurd (show f.tool.metadata.name = "customer.build_context" by rw [htool]; rfl) hname

end Executions

/-- A server with a record of the executions of its tools, and of what it has
served from the cache. -/
structure Service (F : Type) where
  system : System F
  executions : List (Execution F) := []
  hits : List (Flight F × Value F) := []

namespace Service

variable [PyFloat F] [UnicodeDb]

/-- The service at its start: nothing has run, and nothing was answered from
the cache. -/
def start (srv : AtlasServer F) : Service F where
  system := System.start srv

/-- The execution that ends with the event. -/
def executed (s : Service F) (l : Event F × Account F) : Option (Execution F) :=
  match l.1 with
  | .ran i (.ok result) _ => (s.system.inFlight[i]?).map fun w => ⟨w.1, l.2, result⟩
  | _ => none

/-- The value of the cache that a dispatch returns with the event. -/
def hit (srv : AtlasServer F) (s : Service F) (e : Event F) : Option (Flight F × Value F) := do
  let m ← s.system.moved srv e
  match m.next.1, m.place.bind (s.system.inFlight[·]?) with
  | .ended (.ok v), none => some (m.flight, v)
  | .ended (.ok v), some (_, .polling _) => some (m.flight, v)
  | _, _ => none

/-- The service takes the step of the server, and keeps the executions and the
hits in the order in which they come. -/
def step (srv : AtlasServer F) (s : Service F) (l : Event F × Account F) : Option (Service F) :=
  (s.system.step srv l.1).map fun system =>
    { system
      executions := s.executions ++ (s.executed l).toList
      hits := s.hits ++ (s.hit srv l.1).toList }

/-- A tool that ends has run as its code says: the account has the calls that it
made, with their answers, and the outcome is what comes of them. -/
def Accounted (tools : CachedTools F) (s : Service F) (l : Event F × Account F)
    (_ : Service F) : Prop :=
  ∀ i outcome now, l.1 = .ran i outcome now → ∀ w ∈ s.system.inFlight[i]?,
    tools.Ran w.1 l.2 outcome

/-- One event, with what went on in the execution that ends with it. -/
def Step (tools : CachedTools F) (srv : AtlasServer F) :
    Service F → Event F × Account F → Service F → Prop :=
  Guarded (fun s l t => s.step srv l = some t) (Accounted tools)

/-- No sub-task raised of a context that is to be stored.  A context that is not
stored may have lost any of its parts. -/
def Unbroken (s : Service F) (l : Event F × Account F) (_ : Service F) : Prop :=
  ∀ x ∈ s.executed l, x.flight.key ≠ none → x.Unbroken

/-- Every value in the cache comes from an execution under its key in which no
call failed, and no context with partial errors was served from it. -/
structure Trustworthy (s : Service F) : Prop where
  stored : s.system.server.cache.Values fun key v => ∃ x ∈ s.executions,
    x.flight.key = some key ∧ IsResult x.result v ∧ x.account.Clean
  served : ∀ a ∈ s.hits, a.1.BuildsContext → ¬ CustomerContextTool.HasPartialErrors a.2

/-- A dispatch that uses the cache does so under its key, and its tool is one
of them. -/
def Keyed (tools : CachedTools F) (f : Flight F) : Prop :=
  ∀ key, f.key = some key → key = f.tool.cacheKey f.envelope.tenant f.args ∧ f.tool ∈ tools.all

/-- What each step keeps: what has run is on record, what is in flight has the
key of its own call, and what has run under a key is sound. -/
structure Tracked (tools : CachedTools F) (s : Service F) : Prop where
  consistent : s.system.Consistent
  recorded : s.system.executions = s.executions.map fun x => (x.flight, x.result)
  keyed : ∀ f ∈ s.system.flights, Keyed tools f
  sound : ∀ x ∈ s.executions, x.flight.key ≠ none → x.Sound
  served : ∀ a ∈ s.hits, a.1.BuildsContext → ¬ CustomerContextTool.HasPartialErrors a.2

variable {tools : CachedTools F} {srv : AtlasServer F} {s t : Service F}
  {l : Event F × Account F}

/-- What a step of the service does: the server takes its own step, what has
run is added with its account, and so is what was answered from the cache. -/
theorem step_cases (h : s.Step tools srv l t) : s.system.Step srv l.1 t.system ∧
    t.executions = s.executions ++ (s.executed l).toList ∧
    t.hits = s.hits ++ (s.hit srv l.1).toList ∧ s.Accounted tools l t := by
  obtain ⟨hstep, haccounted⟩ := h
  obtain ⟨system, hsystem, rfl⟩ := Option.map_eq_some_iff.mp hstep
  exact ⟨hsystem, rfl, rfl, haccounted⟩

/-- The record of the executions keeps up with that of the server. -/
theorem executions_step {u : System F} (h : s.system.Step srv l.1 u) :
    u.executions =
      s.system.executions ++ (s.executed l).toList.map fun x => (x.flight, x.result) := by
  have hadvance : ∀ (v : System F) (f : Flight F) (next : Progress F × ServerState F),
      (v.advance f next).executions = v.executions := by
    rintro v f ⟨phase | (exc | w), server⟩ <;> rfl
  obtain ⟨e, account⟩ := l
  cases e with
  | dispatch ctx env clock =>
      obtain rfl : s.system.arrive srv ctx env clock = u := Option.some.inj h
      unfold System.arrive
      split
      · simp [executed]
      · simp [executed, hadvance]
  | ran i outcome now =>
      obtain ⟨f, a, hi, rfl⟩ := System.step_ran h
      cases outcome with
      | error exc => simp [executed, System.toolEnded, hadvance, System.without]
      | ok r => simp [executed, System.toolEnded, hadvance, System.without, hi]
  | woke i now =>
      obtain ⟨f, phase, next, -, -, rfl⟩ := System.step_woke h
      simp [executed, hadvance, System.without]
  | interrupt i timedOut now =>
      obtain ⟨f, phase, next, -, -, rfl⟩ := System.step_interrupt h
      simp [executed, hadvance, System.without]
  | _ =>
      obtain rfl := Option.some.inj h
      simp [executed]

omit [PyFloat F] [UnicodeDb] in
theorem returned_advance (u : System F) (f : Flight F) {next : Progress F × ServerState F}
    {v : Value F} (h : next.1 = .ended (.ok v)) : (f, v) ∈ (u.advance f next).returned := by
  obtain ⟨progress, server⟩ := next
  obtain rfl : progress = .ended (.ok v) := h
  exact List.mem_append_right _ (List.mem_singleton_self _)

/-- A dispatch that ends with a value has returned it. -/
theorem returned_of_moved {u v : System F} {e : Event F} (h : u.Step srv e v) {m : Move F}
    (hm : u.moved srv e = some m) {w : Value F} (hw : m.next.1 = .ended (.ok w)) :
    (m.flight, w) ∈ v.returned := by
  cases e with
  | dispatch ctx env clock =>
      obtain rfl : u.arrive srv ctx env clock = v := Option.some.inj h
      rcases hgates : (gates srv ctx env clock).run u.server with ⟨exc | ⟨tool, args⟩, server⟩
      · simp [System.moved, hgates] at hm
      · simp only [System.moved, hgates, Option.some.injEq] at hm
        subst hm
        simp only [System.arrive, hgates]
        exact returned_advance _ _ hw
  | ran i outcome now =>
      obtain ⟨f, a, hi, rfl⟩ := System.step_ran h
      rw [System.moved_of_ran hi] at hm
      obtain rfl := Option.some.inj hm
      exact returned_advance _ _ hw
  | woke i now =>
      obtain ⟨f, phase, next, hi, hnext, rfl⟩ := System.step_woke h
      rw [System.moved_of_woke hi hnext] at hm
      obtain rfl := Option.some.inj hm
      exact returned_advance _ _ hw
  | interrupt i timedOut now =>
      obtain ⟨f, phase, next, hi, hnext, rfl⟩ := System.step_interrupt h
      rw [System.moved_of_interrupt hi hnext] at hm
      obtain rfl := Option.some.inj hm
      exact returned_advance _ _ hw
  | _ => cases hm

/-- A dispatch that is served from the cache uses it, and has returned. -/
theorem returned_of_hit {a : Flight F × Value F} (hhit : s.hit srv l.1 = some a) {u : System F}
    (h : s.system.Step srv l.1 u) : a.1.key ≠ none ∧ a ∈ u.returned := by
  have hall : s.system.server.cache.Values fun _ _ => True :=
    ⟨fun _ _ _ => trivial, fun _ _ _ _ _ => trivial⟩
  obtain ⟨m, hm, hcases⟩ := Option.bind_eq_some_iff.mp hhit
  -- it has moved and returned the value, from a read of the cache
  obtain ⟨hvalue, hread⟩ : m.next.1 = .ended (.ok a.2) ∧ a.1 = m.flight ∧
      ∀ i g phase, m.place = some i → s.system.inFlight[i]? = some (g, phase) →
        ∃ waits, phase = .polling waits := by
    split at hcases
    next v hnext hplace =>
        obtain rfl := Option.some.inj hcases
        refine ⟨hnext, rfl, fun i g phase hi hget => ?_⟩
        simp [hi, hget] at hplace
    next v g waits hnext hplace =>
        obtain rfl := Option.some.inj hcases
        refine ⟨hnext, rfl, fun i g phase hi hget => ?_⟩
        simp only [hi, Option.bind_some, hget, Option.some.injEq, Prod.mk.injEq] at hplace
        exact ⟨waits, hplace.2⟩
    next => cases hcases
  obtain ⟨hflight, hpolling⟩ := hread
  refine ⟨?_, ?_⟩
  · rw [hflight]
    rcases System.moved_cases hm with ⟨-, server, harrives, hnext⟩ | ⟨i, phase, hplace, hgoes⟩
    · have hall' : server.cache.Values fun _ _ => True :=
        ⟨fun _ _ _ => trivial, fun _ _ _ _ _ => trivial⟩
      obtain ⟨key, hkey, -⟩ := (values_runObserved hall').2 a.2 (hnext ▸ hvalue)
      simp [hkey]
    · obtain ⟨waits, rfl⟩ := hpolling i m.flight phase hplace hgoes.1
      rcases (values_goesOn (Q := fun _ _ => True) hall hgoes (fun _ _ _ _ => trivial)
          (fun _ _ _ _ _ => ⟨trivial, fun _ _ => trivial⟩)).2 a.2 hvalue with
        ⟨c, r, habsurd, -⟩ | ⟨_, key, _, -, -, hkey, -⟩
      · cases habsurd
      · simp [hkey]
  · have hreturned := returned_of_moved h hm hvalue
    rwa [← hflight] at hreturned

omit [PyFloat F] [UnicodeDb] in
/-- Turning the members of a dictionary into JSON leaves its keys as they
are. -/
theorem isSome_dictGet_jsonifyMembers (members : List (String × Value F)) (key : String) :
    (dictGet (Value.jsonifyMembers members) key).isSome = (dictGet members key).isSome := by
  unfold dictGet
  induction members with
  | nil => rfl
  | cons kv members ih =>
      obtain ⟨first, v⟩ := kv
      rw [Value.jsonifyMembers, List.lookup_cons, List.lookup_cons]
      cases key == first with
      | true => rfl
      | false => exact ih

omit [UnicodeDb] in
/-- Partial errors stay in a result that is cached. -/
theorem hasPartialErrors_of_isResult {r : ToolResult F} {v : Value F} (h : IsResult r v)
    (hv : CustomerContextTool.HasPartialErrors v) :
    CustomerContextTool.HasPartialErrors (.dict r.val) := by
  rcases h with rfl | hloads
  · exact hv
  · rw [loads_dumps r.property] at hloads
    obtain rfl := Option.some.inj hloads
    exact (isSome_dictGet_jsonifyMembers r.val _).symm.trans hv

/-- At the start nothing has run, and nothing is in the cache. -/
theorem tracked_start (tools : CachedTools F) (srv : AtlasServer F) :
    (start srv).Tracked tools where
  consistent := ⟨CacheManager.holds_start srv.settings, by simp [start, System.start],
    by simp [start, System.start]⟩
  recorded := rfl
  keyed f h := by simp [start, System.start, System.flights] at h
  sound x h := by cases h
  served a h := by cases h

/-- A step keeps the flights under the keys of their own tools: those that
begin are given one, and the others keep theirs. -/
theorem keyed_step (hserve : tools.Serve srv) (hs : ∀ f ∈ s.system.flights, Keyed tools f)
    {u : System F} (h : s.system.Step srv l.1 u) : ∀ f ∈ u.flights, Keyed tools f := by
  intro f hf
  rcases System.flights_step h hf with
    hold | ⟨ctx, env, clock, tool, args, server, -, rfl, hgates⟩
  · exact hs f hold
  · intro key hkey
    simp only [flightOf] at hkey ⊢
    split at hkey
    next huses =>
        have hregistered := (admitted_of_gates hgates).registered
        exact ⟨(Option.some.inj hkey).symm,
          hserve _ _ (ToolRegistry.lookup_of_get hregistered).1 huses.2⟩
    next => cases hkey

/-- An execution whose result is to be stored is as it should be. -/
theorem sound_of_executed (hs : ∀ f ∈ s.system.flights, Keyed tools f)
    (haccounted : s.Accounted tools l t) (hunbroken : s.Unbroken l t) {x : Execution F}
    (hx : s.executed l = some x) (hkey : x.flight.key ≠ none) : x.Sound := by
  have hwhole := hunbroken x hx hkey
  unfold executed at hx
  split at hx
  next i result now hl =>
      obtain ⟨⟨f, phase⟩, hi, rfl⟩ := Option.map_eq_some_iff.mp hx
      obtain ⟨key, hkey⟩ := Option.ne_none_iff_exists'.mp hkey
      have htool := (hs f (System.flights_of_waiting hi) key hkey).2
      exact (sound_iff_of_ran htool (haccounted i _ now hl _ hi)).mpr hwhole
  next => cases hx

omit [PyFloat F] in
/-- The names of these tools have no colon in them, so a key says which tool
it is of. -/
theorem colon_notMem_of_mem_all {tool : Tool F} (h : tool ∈ tools.all) :
    ':' ∉ tool.metadata.name.toList := by
  have hnames : tools.all.map (·.metadata.name) = ["postgres.query", "s3.get_object",
      "elasticsearch.search", "vector.search", "semantic_search", "hybrid_search",
      "customer.build_context"] := rfl
  have hplain : ∀ name ∈ tools.all.map (·.metadata.name), ':' ∉ name.toList := by
    rw [hnames]
    decide
  exact hplain _ (List.mem_map_of_mem h)

/-- Dispatches that answer one another and use the cache are of one tool. -/
theorem name_eq_of_answers {f g : Flight F} (hf : Keyed tools f) (hg : Keyed tools g)
    (h : Answers g f) (hkey : f.key ≠ none) :
    g.key ≠ none ∧ g.tool.metadata.name = f.tool.metadata.name := by
  rcases h with rfl | ⟨key, hgkey, hfkey⟩
  · exact ⟨hkey, rfl⟩
  · obtain ⟨hgcache, hgtool⟩ := hg key hgkey
    obtain ⟨hfcache, hftool⟩ := hf key hfkey
    refine ⟨by simp [hgkey], ?_⟩
    exact (cacheKey_injective (colon_notMem_of_mem_all hgtool) (colon_notMem_of_mem_all hftool)
      (hgcache.symm.trans hfcache)).2.1

/-- A step in which no context is broken keeps track: what has run under a key
is sound, and what was answered from the cache has no partial errors. -/
theorem tracked_step (hserve : tools.Serve srv) (hs : s.Tracked tools) (h : s.Step tools srv l t)
    (hunbroken : s.Unbroken l t) : t.Tracked tools := by
  obtain ⟨hstep, hexecutions, hhits, haccounted⟩ := step_cases h
  have hconsistent := System.consistent_step hs.consistent hstep
  have hkeyed := keyed_step hserve hs.keyed hstep
  have hrecorded : t.system.executions = t.executions.map fun x => (x.flight, x.result) := by
    rw [executions_step hstep, hexecutions, List.map_append, hs.recorded]
  have hsound : ∀ x ∈ t.executions, x.flight.key ≠ none → x.Sound := by
    rw [hexecutions]
    refine List.forall_mem_append.mpr ⟨hs.sound, fun x hx => ?_⟩
    exact sound_of_executed hs.keyed haccounted hunbroken (Option.mem_toList.mp hx)
  refine ⟨hconsistent, hrecorded, hkeyed, hsound, ?_⟩
  rw [hhits]
  refine List.forall_mem_append.mpr ⟨hs.served, fun a ha hbuilds herrors => ?_⟩
  obtain ⟨hkey, hreturned⟩ := returned_of_hit (Option.mem_toList.mp ha) hstep
  -- what is returned comes from an execution on record
  obtain ⟨_, hx, hanswers, hresult⟩ := hconsistent.served a.1 a.2 hreturned
  have hflight := System.mem_flights.mpr (Or.inr (Or.inr (Or.inl ⟨_, hx⟩)))
  rw [hrecorded] at hx
  obtain ⟨x, hmem, rfl⟩ := List.mem_map.mp hx
  obtain ⟨hxkey, hname⟩ := name_eq_of_answers
    (hkeyed a.1 (System.mem_flights.mpr (Or.inr (Or.inr (Or.inr ⟨a.2, hreturned⟩)))))
    (hkeyed _ hflight) hanswers hkey
  exact (hsound x hmem hxkey).complete (hname.trans hbuilds)
    (hasPartialErrors_of_isResult hresult herrors)

/-- A service that has kept track can be trusted: what is in the cache is the
result of a run in which no call failed. -/
theorem trustworthy_of_tracked (hs : s.Tracked tools) : s.Trustworthy where
  stored := by
    have hproduced : ∀ x ∈ s.system.executions, ∀ key, x.1.key = some key → ∀ v,
        IsResult x.2 v → ∃ y ∈ s.executions, y.flight.key = some key ∧ IsResult y.result v ∧
          y.account.Clean := by
      intro x hx key hkey v hv
      rw [hs.recorded] at hx
      obtain ⟨y, hy, rfl⟩ := List.mem_map.mp hx
      exact ⟨y, hy, hkey, hv, (hs.sound y hy (hkey ▸ Option.some_ne_none key)).clean⟩
    refine CacheManager.Holds.imp hs.consistent.computed ?_ ?_
    · rintro key entry ⟨x, hx, hkey, hresult⟩
      exact hproduced x hx key hkey _ hresult
    · rintro key entry ⟨x, hx, hkey, htext⟩ v hloads
      exact hproduced x hx key hkey v (Or.inr (htext ▸ hloads))
  served := hs.served

/-- **Nothing that failed is in the cache.**  In every run of a new server,
whatever the backends answer, in which no sub-task raises of a context that is
to be stored: all values in the cache come from executions in which no call of
a backend failed, and no context with partial errors has been served from
it. -/
theorem trustworthy_of_unbroken (hserve : tools.Serve srv) {labels : List (Event F × Account F)}
    (hrun : Run (Guarded (Step tools srv) Unbroken) (start srv) labels t) : t.Trustworthy := by
  have htracked : t.Tracked tools :=
    hrun.invariant (tracked_start tools srv) fun s l t hs hstep =>
      tracked_step hserve hs hstep.1 hstep.2
  exact trustworthy_of_tracked htracked

end Service

/-- A run of the executable service is a run of the relation, where no tool
ends: the account of an end is what the relation asks more about. -/
theorem Service.run_of_exec [PyFloat F] [UnicodeDb] (tools : CachedTools F) {srv : AtlasServer F}
    {s t : Service F} {labels : List (Event F × Account F)}
    (hquiet : ∀ l ∈ labels, ∀ i outcome now, l.1 ≠ .ran i outcome now)
    (h : exec (Service.step srv) s labels = some t) :
    Run (Service.Step tools srv) s labels t :=
  (Run.of_exec h).guarded fun l _ _ hdid _ i outcome now hl =>
    absurd hl (hquiet l hdid.mem i outcome now)

/-- How a context was built, for the tool that builds contexts; the names of
the other tools are not its name. -/
theorem CachedTools.ran_of_context [PyFloat F] [UnicodeDb] {tools : CachedTools F} {f : Flight F}
    (hname : f.BuildsContext) {account : Account F} {outcome : Except (Exc F) (ToolResult F)}
    (h : account.object = none ∧ CustomerContextTool.Ran f.envelope.tenant
      (tools.customer.fields f.args) account.calls account.ends outcome) :
    tools.Ran f account outcome := by
  have hother : ∀ name, f.tool.metadata.name = name → name = "customer.build_context" :=
    fun name h => h.symm.trans hname
  constructor <;> intro hf <;> first | exact h | exact absurd (hother _ hf) (by decide)

/-! ## A ticket search that fails -/

/-- The model of the arguments of a context. -/
def contextArgs (customerId question : String) : BaseModel WholeFloat :=
  let fields : List (String × Value WholeFloat) :=
    [("customer_id", .str customerId), ("question", .str question), ("include_orders", .bool true),
      ("include_tickets", .bool true), ("include_docs", .bool true),
      ("recent_orders_limit", .int 5)]
  { dump := fields
    dumpJson := fields
    wf := by simp [fields, Value.Wf, Value.WfMembers]
    native := by simp [fields, Value.Native, Value.NativeMembers] }

/-- Only contexts are asked for, and with the other fields at their
defaults. -/
def supportTools : CachedTools WholeFloat where
  postgres :=
    { inputSchema := fun _ => .error (.schema ⟨none, "Field required"⟩)
      accepts := fun _ _ h => by cases h }
  postgresFields _ := { sql := "" }
  s3 :=
    { getInput := fun _ => .error (.schema ⟨none, "Field required"⟩)
      putInput := fun _ => .error (.schema ⟨none, "Field required"⟩)
      put_content := fun _ _ h => by cases h }
  elasticsearch :=
    { validate := fun _ => .error (.schema ⟨none, "Field required"⟩)
      fields := fun _ => { index := "", query := .ofPairs [] (by simp) } }
  vector :=
    { validate := fun _ => .error (.schema ⟨none, "Field required"⟩)
      fields := fun _ => { collection := "", vector := [] } }
  semantic :=
    { validate := fun _ => .error (.schema ⟨none, "Field required"⟩)
      fields := fun _ => { query := "", collection := "" } }
  hybrid :=
    { validate := fun _ => .error (.schema ⟨none, "Field required"⟩)
      fields := fun _ => { query := "", esIndex := "", vectorCollection := "" } }
  fuse := HybridSearchTool.fused .exact fun _ found _ => .ok found
  customer :=
    { validate := fun arguments =>
        match dictGet arguments "customer_id", dictGet arguments "question" with
        | some (.str customerId), some (.str question) => .ok (contextArgs customerId question)
        | _, _ => .error (.schema ⟨none, "Field required"⟩)
      fields := fun args =>
        { customerId := textField args "customer_id", question := textField args "question" } }

/-- A server on which only the context of a customer can be asked for, by
everybody. -/
def supportServer : AtlasServer WholeFloat where
  settings := {}
  registry := match ToolRegistry.empty.register supportTools.customerTool with
    | .ok registry => registry
    | .error _ => .empty
  policy := { rules := [⟨"support", ["*"], ["customer.build_context"], ["*"], .allow, none⟩] }
  httpAllowlist := ⟨[]⟩

/-- Someone of the tenant, with the scopes that the tool asks for. -/
def supportContext : RequestContext where
  subject := "agent"
  tenant := "acme"
  scopes := ["tool:postgres:read", "tool:elasticsearch:read", "tool:vector:read"]

/-- A call for the context of a customer. -/
def contextCall : ToolCallEnvelope WholeFloat :=
  supportContext.buildEnvelope "customer.build_context"
    [("customer_id", .str "c1"), ("question", .str "Where is my order?")]

/-- What the tool reads out of the arguments of the call. -/
def contextInput : CustomerContextInput where
  customerId := "c1"
  question := "Where is my order?"

/-- The backends know nothing of the customer; Elasticsearch is up or down. -/
def backends (up : Bool) : (call : BackendCall WholeFloat) → BackendAnswer WholeFloat call
  | .fetch .. => .ok []
  | .search .. =>
      if up then .ok (.ofPairs [] (by simp))
      else .error (.raised "ConnectionError" "Connection refused" .none)
  | .vectorSearch .. => .ok (.list [])
  | .embed .. => .ok [[⟨1⟩]]

/-- The sub-tasks of the context, run against them. -/
def contextRun (up : Bool) :
    List (Exchange (BackendCall WholeFloat) (BackendAnswer WholeFloat)) ×
      List (Except (Exc WholeFloat) (PyValue WholeFloat)) :=
  Program.playAll (backends up)
    ((CustomerContextTool.tasks "acme" contextInput).map Prod.snd)

/-- The context as the tool puts it together out of what its sub-tasks have
found. -/
def contextBuilt (up : Bool) : PyDict WholeFloat :=
  CustomerContextTool.contextOf contextInput
    (((CustomerContextTool.tasks (F := WholeFloat) "acme" contextInput).map Prod.fst).zip
      (contextRun up).2)

/-- A call arrives, and the context is to be built. -/
def contextAsked : List (Event WholeFloat × Account WholeFloat) :=
  [(.dispatch supportContext contextCall ⟨0, 0, ""⟩, {}), (.woke 0 0, {})]

/-- It has been built. -/
def contextEnded (up : Bool) : Event WholeFloat × Account WholeFloat :=
  (.ran 0 (.ok (contextBuilt up)) 1, ⟨(contextRun up).1, none, (contextRun up).2⟩)

/-- The call returns, and comes again after Elasticsearch has come up. -/
def askedAgain : List (Event WholeFloat × Account WholeFloat) :=
  [(.woke 0 1, {}), (.dispatch supportContext contextCall ⟨2, 2000, ""⟩, {})]

/-- Both calls return, the second one what the first has stored. -/
theorem built_and_asked_again (up : Bool) : ∃ t,
    Run (Service.Step supportTools supportServer) (Service.start supportServer)
      (contextAsked ++ [contextEnded up] ++ askedAgain) t ∧
    t.hits.map (fun a => (a.1.tool.metadata.name,
      decide (CustomerContextTool.HasPartialErrors a.2))) = [("customer.build_context", !up)] := by
  obtain ⟨s, hs, hflight, u, hu, t, ht, hhits⟩ : ∃ s ∈ exec (Service.step supportServer)
      (Service.start supportServer) contextAsked,
      s.system.inFlight.map (fun w => (w.1.tool.metadata.name, w.1.envelope.tenant,
        supportTools.customer.fields w.1.args)) =
          [("customer.build_context", "acme", contextInput)] ∧
      ∃ u ∈ s.step supportServer (contextEnded up),
      ∃ t ∈ exec (Service.step supportServer) u askedAgain,
      t.hits.map (fun a => (a.1.tool.metadata.name,
        decide (CustomerContextTool.HasPartialErrors a.2))) =
          [("customer.build_context", !up)] := by
    cases up <;> decide +kernel
  have hbefore := Service.run_of_exec supportTools (by simp [contextAsked]) hs
  have hafter := Service.run_of_exec supportTools (by simp [askedAgain]) ht
  have haccounted : s.Accounted supportTools (contextEnded up) u := by
    intro i outcome now hl w hw
    have hmem := List.mem_map_of_mem (f := fun w : Flight WholeFloat × Phase WholeFloat =>
      (w.1.tool.metadata.name, w.1.envelope.tenant, supportTools.customer.fields w.1.args))
      (List.mem_of_getElem? hw)
    rw [hflight] at hmem
    obtain ⟨hname, htenant, hfields⟩ : w.1.tool.metadata.name = "customer.build_context" ∧
        w.1.envelope.tenant = "acme" ∧ supportTools.customer.fields w.1.args = contextInput := by
      simpa using hmem
    obtain ⟨-, rfl, -⟩ : 0 = i ∧ Except.ok (contextBuilt up) = outcome ∧ 1 = now := by
      simpa [contextEnded] using hl
    refine CachedTools.ran_of_context hname ⟨rfl, ?_⟩
    have hgathered : Program.Gathered
        ((CustomerContextTool.tasks "acme" contextInput).map Prod.snd)
        (contextRun up).1 (contextRun up).2 := Program.gathered_playAll (backends up) _
    rw [htenant, hfields, contextEnded, contextBuilt]
    generalize contextRun up = ran at hgathered ⊢
    exact ⟨hgathered, rfl⟩
  exact ⟨t, (hbefore.snoc ⟨hu, haccounted⟩).append hafter, hhits⟩

/-- The tools of this server are those that the service knows. -/
theorem supportTools_serve : supportTools.Serve supportServer := by
  intro name tool hlookup _
  have hkeys : supportServer.registry.tools.keys = ["customer.build_context"] := rfl
  have hmem : name ∈ supportServer.registry.tools.keys :=
    AList.mem_keys.mp (AList.lookup_isSome.mp (by simp [hlookup]))
  rw [hkeys, List.mem_singleton] at hmem
  subst hmem
  obtain rfl : supportTools.customerTool = tool := Option.some.inj hlookup
  simp [CachedTools.all]

/-- With Elasticsearch up, the context that is served again is whole. -/
theorem whole_context_served : ∃ t,
    Run (Guarded (Service.Step supportTools supportServer) Service.Unbroken)
      (Service.start supportServer) (contextAsked ++ [contextEnded true] ++ askedAgain) t ∧
    t.hits.length = 1 ∧ t.Trustworthy := by
  obtain ⟨t, hrun, hhits⟩ := built_and_asked_again true
  have hends : ∀ r ∈ (contextEnded true).2.ends, r.isOk = true := by decide +kernel
  have hguarded := hrun.guarded (P := Service.Unbroken) fun l s _ hdid _ x hx _ _ e he => by
    have hmem := hdid.mem
    simp only [contextAsked, askedAgain, List.cons_append, List.nil_append, List.mem_cons,
      List.not_mem_nil, or_false] at hmem
    rcases hmem with rfl | rfl | rfl | rfl | rfl
    · cases hx
    · cases hx
    · obtain ⟨w, -, rfl⟩ := Option.map_eq_some_iff.mp hx
      have hok := hends (.error e) he
      cases hok
    · cases hx
    · cases hx
  refine ⟨t, hguarded, ?_, Service.trustworthy_of_unbroken supportTools_serve hguarded⟩
  simpa using congrArg List.length hhits

/-- With Elasticsearch down, the context without its tickets is stored, and
served when Elasticsearch is up again. -/
theorem broken_context_served : supportTools.Serve supportServer ∧ ∃ t,
    Run (Service.Step supportTools supportServer) (Service.start supportServer)
      (contextAsked ++ [contextEnded false] ++ askedAgain) t ∧ ¬ t.Trustworthy := by
  obtain ⟨t, hrun, hhits⟩ := built_and_asked_again false
  refine ⟨supportTools_serve, t, hrun, fun htrustworthy => ?_⟩
  obtain ⟨a, hmem, ha⟩ : ∃ a ∈ t.hits, (a.1.tool.metadata.name,
      decide (CustomerContextTool.HasPartialErrors a.2)) = ("customer.build_context", !false) :=
    List.mem_map.mp (hhits ▸ List.mem_singleton_self _)
  obtain ⟨hname, herrors⟩ := Prod.mk.inj ha
  exact htrustworthy.served a hmem hname (of_decide_eq_true herrors)

end Server
