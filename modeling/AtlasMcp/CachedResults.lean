import AtlasMcp.DispatchGates

/-!
# Where a returned result comes from

A dispatch of a cacheable tool may return a value that another dispatch computed.
`returned_from_execution` says which: one of the same tool for the same tenant with
the same arguments, and the value is its result or the JSON round trip of that.

The invariant is on both tiers of the cache: an entry under a key holds the result of
an execution with that key.  It is kept by whatever a dispatch does next, since the
cache is written only with the result of the dispatch's own execution; evictions,
expiries and invalidations only drop entries.  That the key tells tenants, tools and
arguments apart needs names without a colon, and digests that do not collide on the
arguments of the run.
-/

namespace Server

open PyJson PyText Errors Tools Auth Governance RateLimit Reliability Cache FallibleState
open GuardedRuns

variable {F : Type} [PyFloat F]

/-- `v` is the result `r`, or what its JSON text reads as.  L1 serves the one,
and L2 the other. -/
def IsResult (r : ToolResult F) (v : Value F) : Prop :=
  v = .dict r.val ∨ loads (dumps (.dict r.val)) = some v

/-- The executions on record. -/
abbrev Executions (F : Type) : Type := List (Flight F × ToolResult F)

/-- An L1 entry holds the result of an execution with its key, as it was
returned or as it was read from L2. -/
def ComputedL1 (xs : Executions F) (key : String) (entry : L1Entry F) : Prop :=
  ∃ x ∈ xs, x.1.key = some key ∧ IsResult x.2 entry.value

/-- An L2 entry holds the text of the result of an execution with its key. -/
def ComputedL2 (xs : Executions F) (key : String) (entry : String × ℚ) : Prop :=
  ∃ x ∈ xs, x.1.key = some key ∧ entry.1 = dumps (.dict x.2.val)

/-- Every entry of the cache was computed. -/
abbrev Computed (xs : Executions F) (cache : CacheManager F) : Prop :=
  cache.Holds (ComputedL1 xs) (ComputedL2 xs)

/-- `g` is the dispatch `f` or shares its key, so that what one of them has
computed answers the other. -/
def Answers (g f : Flight F) : Prop :=
  g = f ∨ ∃ key, g.key = some key ∧ f.key = some key

/-- The value is the result of an execution that answers the dispatch: its own
one, or one with its key. -/
def Served (xs : Executions F) (f : Flight F) (v : Value F) : Prop :=
  ∃ x ∈ xs, Answers x.1 f ∧ IsResult x.2 v

/-- A dispatch to be resumed with a result has its execution on record. -/
def OnRecord (xs : Executions F) (f : Flight F) : Phase F → Prop
  | .ending _ (.ok r) => (f, r) ∈ xs
  | _ => True

/-- Whatever a dispatch does next keeps the cache computed; what it waits for
is on record, and a value it returns is served. -/
structure Sound (xs : Executions F) (f : Flight F) (next : Progress F × ServerState F) :
    Prop where
  computed : Computed xs next.2.cache
  recorded : ∀ phase, next.1 = .suspended phase → OnRecord xs f phase
  served : ∀ v, next.1 = .ended (.ok v) → Served xs f v

section Pieces

variable {xs ys : Executions F} {srv : AtlasServer F} {s : ServerState F} {f : Flight F}
  {now : ℚ}

theorem Computed.mono {cache : CacheManager F} (h : Computed xs cache) (hsub : xs ⊆ ys) :
    Computed ys cache :=
  h.imp (fun _ _ ⟨x, hx, hrest⟩ => ⟨x, hsub hx, hrest⟩)
    fun _ _ ⟨x, hx, hrest⟩ => ⟨x, hsub hx, hrest⟩

/-- What is on record stays on record. -/
theorem Served.mono {v : Value F} (h : Served xs f v) (hsub : xs ⊆ ys) :
    Served ys f v := by
  obtain ⟨x, hx, hrest⟩ := h
  exact ⟨x, hsub hx, hrest⟩

omit [PyFloat F] in
/-- So does what a dispatch is to be resumed with. -/
theorem OnRecord.mono {phase : Phase F} (h : OnRecord xs f phase) (hsub : xs ⊆ ys) :
    OnRecord ys f phase := by
  cases phase with
  | ending c result =>
      cases result with
      | ok r => exact hsub h
      | error exc => trivial
  | _ => trivial

/-- A read keeps the cache computed: what it promotes is a result under its
key. -/
theorem computed_get {cache : CacheManager F} (h : Computed xs cache) (key : String)
    (now : ℚ) :
    Computed xs (cache.get key now).2 :=
  CacheManager.Holds.get h fun raw expiresAt v hlookup _ hloads _ _ => by
    obtain ⟨x, hx, hkey, hraw⟩ := h.inL2 _ _ hlookup
    exact ⟨x, hx, hkey, Or.inr (hraw ▸ hloads)⟩

/-- A value read is the result of an execution with its key. -/
theorem served_of_get {cache : CacheManager F} (h : Computed xs cache) {key : String}
    (hkey : f.key = some key) {v : Value F} (hv : (cache.get key now).1 = .ok v)
    (hne : v ≠ .none) : Served xs f v := by
  rcases CacheManager.Holds.get_value h hv hne with
    ⟨entry, ⟨x, hx, hxkey, hresult⟩, -, rfl⟩ |
    ⟨raw, expiresAt, ⟨x, hx, hxkey, hraw⟩, -, hloads⟩
  · exact ⟨x, hx, Or.inr ⟨key, hxkey, hkey⟩, hresult⟩
  · exact ⟨x, hx, Or.inr ⟨key, hxkey, hkey⟩, Or.inr (hraw ▸ hloads)⟩

/-- The locks are not entries. -/
theorem computed_withLocks {cache : CacheManager F} (h : Computed xs cache)
    {l2 : InMemoryL2} (hstore : l2.store = cache.l2.store) :
    Computed xs { cache with l2 } :=
  ⟨h.inL1, hstore ▸ h.inL2⟩

/-- What is concluded is sound, if what it serves was computed. -/
theorem sound_conclude {result : Except (Exc F) (Value F)} (h : Computed xs s.cache)
    (hserved : ∀ v, result = .ok v → Served xs f v) :
    Sound xs f (conclude srv s f result) :=
  ⟨h, fun _ hphase => by simp [conclude] at hphase,
    fun v hv => hserved v (by simpa [conclude] using hv)⟩

/-- A dispatch that waits returns nothing. -/
theorem sound_suspended {phase : Phase F} (h : Computed xs s.cache)
    (hrecord : OnRecord xs f phase) : Sound xs f (.suspended phase, s) := by
  refine ⟨h, fun phase' hphase => ?_, fun v hv => by simp at hv⟩
  obtain rfl : phase = phase' := by simpa using hphase
  exact hrecord

/-- The cache is written with the result of an execution of the dispatch. -/
theorem sound_settle {locked : Bool} {result : Except (Exc F) (ToolResult F)}
    (h : Computed xs s.cache) (hran : ∀ r, result = .ok r → (f, r) ∈ xs) :
    Sound xs f (settle srv s f locked result now) := by
  have hserved : ∀ v, (result.map fun r => Value.dict r.val) = .ok v → Served xs f v := by
    intro v hv
    cases result with
    | ok r =>
        obtain rfl : Value.dict r.val = v := by simpa [Except.map] using hv
        exact ⟨(f, r), hran r rfl, Or.inl rfl, Or.inl rfl⟩
    | error exc => simp [Except.map] at hv
  unfold settle
  cases hkey : f.key with
  | none => exact sound_conclude h hserved
  | some key =>
      have hunlock : ∀ cache : CacheManager F, Computed xs cache →
          Computed xs { cache with
            l2 := if locked then cache.l2.releaseLock (key ++ ":lock") else cache.l2 } := by
        intro cache hcache
        apply computed_withLocks hcache
        split <;> rfl
      refine sound_conclude (hunlock _ ?_) hserved
      cases result with
      | ok r =>
          have hmem := hran r rfl
          exact CacheManager.Holds.set (h.imp (fun _ _ he _ => he) fun _ _ he _ => he)
            ⟨(f, r), hmem, hkey, Or.inl rfl⟩ ⟨(f, r), hmem, hkey, rfl⟩
      | error exc => exact h

/-- The end of a call hands its result on. -/
theorem sound_finishAttempt {a : Attempt} {outcome result : Except (Exc F) (ToolResult F)}
    (h : Computed xs s.cache) (hran : ∀ r, result = .ok r → (f, r) ∈ xs) :
    Sound xs f (finishAttempt srv s f a outcome result now) := by
  have hrecord : OnRecord xs f (.ending a.toBudgeted result) := by
    cases result with
    | ok r => exact hran r rfl
    | error exc => trivial
  exact sound_suspended h hrecord

/-- The start of a call returns nothing. -/
theorem sound_startCall [UnicodeDb] {c : Budgeted} (h : Computed xs s.cache) :
    Sound xs f (startCall srv s f c now) := by
  obtain ⟨admission, b, -, ⟨-, hstart⟩ | ⟨admitted, -, ⟨-, -, hstart⟩ | hstart⟩⟩ :=
    startCall_cases srv s f c now <;> rw [hstart]
  · exact sound_suspended h trivial
  · exact sound_finishAttempt h (by simp)
  · exact sound_suspended h trivial

/-- What is executed is sound, as nothing is served yet. -/
theorem sound_execute {locked : Bool} (h : Computed xs s.cache) :
    Sound xs f (execute srv s f locked now) :=
  sound_suspended h trivial

/-- What a dispatch is resumed with is its own result. -/
theorem sound_resume {c : Budgeted} {result : Except (Exc F) (ToolResult F)}
    (h : Computed xs s.cache) (hrecord : OnRecord xs f (.ending c result)) :
    Sound xs f (resume srv s f c result now) := by
  refine sound_settle h fun r hr => ?_
  subst hr
  exact hrecord

/-- A read returns what it finds, or goes on as on a miss. -/
theorem sound_readCache {key : String} (h : Computed xs s.cache) (hkey : f.key = some key)
    {miss : ServerState F → Progress F × ServerState F}
    (hmiss : ∀ s, Computed xs s.cache → Sound xs f (miss s)) :
    Sound xs f (readCache srv s f key now miss) := by
  have hget := computed_get h key now
  rcases hread : s.cache.get key now with ⟨hit, cache⟩
  rw [hread] at hget
  rcases hit with exc | v
  · simp only [readCache, hread]
    exact sound_conclude hget (by simp)
  · by_cases hnone : v = .none
    · subst hnone
      simp only [readCache, hread]
      exact hmiss _ hget
    · have hvalue : (s.cache.get key now).1 = .ok v := congrArg Prod.fst hread
      have hserved : Served xs f v := served_of_get h hkey hvalue hnone
      simp only [readCache, hread]
      apply sound_conclude hget
      intro w hw
      obtain rfl := Except.ok.inj hw
      exact hserved

/-- What comes after the gates is sound: it serves what was cached, and that
was computed. -/
theorem sound_runObserved (h : Computed xs s.cache) :
    Sound xs f (runObserved srv s f now) := by
  unfold runObserved
  cases hkey : f.key with
  | none => exact sound_execute h
  | some key =>
      apply sound_readCache h hkey
      intro s hs
      have hlocked := computed_withLocks hs (InMemoryL2.store_acquireLock s.cache.l2
        (key ++ ":lock") CacheManager.stampedeLockTtlMs now)
      simp only
      split
      · exact sound_execute hlocked
      · exact sound_suspended hlocked trivial

/-- The tool ended; if with a result, the execution is on record. -/
theorem sound_afterRun {a : Attempt} {outcome : Except (Exc F) (ToolResult F)}
    (h : Computed xs s.cache) (hran : ∀ r, outcome = .ok r → (f, r) ∈ xs) :
    Sound xs f (afterRun srv s f a outcome now) := by
  unfold afterRun
  simp only
  split
  · exact sound_suspended h trivial
  · apply sound_finishAttempt h
    intro r hr
    apply hran r
    rcases outcome with (e | _ | typeName) | r'
    · exact hr
    · exact hr
    · simp [normalised] at hr
    · exact hr

theorem sound_afterSleep [UnicodeDb] {phase : Phase F}
    {next : Progress F × ServerState F} (h : Computed xs s.cache)
    (hrecord : OnRecord xs f phase) (hnext : afterSleep srv s f now phase = some next) :
    Sound xs f next := by
  cases phase with
  | running a => simp [afterSleep] at hnext
  | starting c =>
      obtain rfl := Option.some.inj hnext
      exact sound_startCall h
  | ending c result =>
      obtain rfl := Option.some.inj hnext
      exact sound_resume h hrecord
  | backoff a =>
      obtain rfl := Option.some.inj hnext
      exact sound_suspended h trivial
  | polling waits =>
      cases hkey : f.key with
      | none => simp [afterSleep, hkey] at hnext
      | some key =>
          simp only [afterSleep, hkey, Option.map_some, Option.some.injEq] at hnext
          subst hnext
          apply sound_readCache h hkey
          intro s hs
          split
          · exact sound_suspended hs trivial
          · exact sound_execute hs

/-- What is interrupted is sound, as nothing is served. -/
theorem sound_afterInterrupt [UnicodeDb] {timedOut : Bool} {phase : Phase F}
    {next : Progress F × ServerState F} (h : Computed xs s.cache)
    (hnext : afterInterrupt srv s f timedOut now phase = some next) : Sound xs f next := by
  cases phase with
  | polling waits =>
      obtain rfl := eq_of_afterInterrupt_polling hnext
      exact sound_conclude h (by simp)
  | ending c result => simp [afterInterrupt] at hnext
  | starting c =>
      obtain rfl := Option.some.inj hnext
      exact sound_suspended h trivial
  | running a =>
      obtain rfl := Option.some.inj hnext
      exact sound_finishAttempt h (by simp)
  | backoff a =>
      obtain rfl := Option.some.inj hnext
      exact sound_finishAttempt h (by simp)

end Pieces

namespace System

/-- The cache is computed, what dispatches wait for is on record, and whatever
was returned was served. -/
structure Consistent (t : System F) : Prop where
  computed : Computed t.executions t.server.cache
  recorded : ∀ f phase, (f, phase) ∈ t.inFlight → OnRecord t.executions f phase
  served : ∀ f v, (f, v) ∈ t.returned → Served t.executions f v

/-- A sound next step of a dispatch keeps the system consistent. -/
theorem consistent_advance {t : System F} (ht : t.Consistent) {f : Flight F}
    {next : Progress F × ServerState F} (hnext : Sound t.executions f next) :
    (t.advance f next).Consistent := by
  rcases next with ⟨phase | (exc | v), server⟩
  · refine ⟨hnext.computed, fun g phase' hg => ?_, ht.served⟩
    rcases List.mem_append.mp hg with hg | hg
    · exact ht.recorded g phase' hg
    · obtain ⟨rfl, rfl⟩ : g = f ∧ phase' = phase := by simpa using hg
      exact hnext.recorded phase' rfl
  · exact ⟨hnext.computed, ht.recorded, ht.served⟩
  · refine ⟨hnext.computed, ht.recorded, fun g w hg => ?_⟩
    rcases List.mem_append.mp hg with hg | hg
    · exact ht.served g w hg
    · obtain ⟨rfl, rfl⟩ : g = f ∧ w = v := by simpa using hg
      exact hnext.served w rfl

/-- A dispatch taken out of the waiting ones leaves the others as they
were. -/
theorem consistent_without {t : System F} (ht : t.Consistent) (i : ℕ) :
    (t.without i).Consistent :=
  ⟨ht.computed, fun g phase hg => ht.recorded g phase (List.mem_of_mem_eraseIdx hg),
    ht.served⟩

/-- The end of a tool, with what it adds to the record. -/
theorem consistent_toolEnded {t : System F} (ht : t.Consistent) {srv : AtlasServer F}
    {f : Flight F} {a : Attempt} {outcome : Except (Exc F) (ToolResult F)} {now : ℚ} :
    (t.toolEnded srv f a outcome now).Consistent := by
  cases outcome with
  | ok r =>
      have hsub : t.executions ⊆ t.executions ++ [(f, r)] := List.subset_append_left _ _
      have hran : Consistent { t with executions := t.executions ++ [(f, r)] } :=
        ⟨ht.computed.mono hsub, fun g phase hg => (ht.recorded g phase hg).mono hsub,
          fun g v hg => (ht.served g v hg).mono hsub⟩
      simp only [toolEnded]
      apply consistent_advance hran
      apply sound_afterRun hran.computed
      intro r' hr'
      obtain rfl := Except.ok.inj hr'
      exact List.mem_append_right _ (List.mem_singleton_self _)
  | error exc => exact consistent_advance ht (sound_afterRun ht.computed (by simp))

variable [UnicodeDb] {srv : AtlasServer F} {t u : System F}

/-- Every event keeps the system consistent. -/
theorem consistent_step {e : Event F} (ht : t.Consistent) (h : t.Step srv e u) :
    u.Consistent := by
  cases e with
  | dispatch ctx env clock =>
      obtain rfl : t.arrive srv ctx env clock = u := Option.some.inj h
      unfold arrive
      split
      next exc s hgates =>
          have hcache : Computed t.executions s.cache :=
            (cache_of_gates hgates).symm ▸ ht.computed
          exact ⟨hcache, ht.recorded, ht.served⟩
      next tool args s hgates =>
          have hcache : Computed t.executions s.cache :=
            (cache_of_gates hgates).symm ▸ ht.computed
          exact consistent_advance ht (sound_runObserved hcache)
  | ran i outcome now =>
      obtain ⟨f, a, -, rfl⟩ := step_ran h
      exact consistent_toolEnded (consistent_without ht i)
  | woke i now =>
      obtain ⟨f, phase, next, hi, hnext, rfl⟩ := step_woke h
      have hrecord := ht.recorded f phase (List.mem_of_getElem? hi)
      exact consistent_advance (consistent_without ht i)
        (sound_afterSleep ht.computed hrecord hnext)
  | interrupt i timedOut now =>
      obtain ⟨f, phase, next, -, hnext, rfl⟩ := step_interrupt h
      exact consistent_advance (consistent_without ht i)
        (sound_afterInterrupt ht.computed hnext)
  | invalidateKey key =>
      obtain rfl := Option.some.inj h
      exact ⟨CacheManager.Holds.delete ht.computed key, ht.recorded, ht.served⟩
  | invalidateTool tenant tool =>
      obtain rfl := Option.some.inj h
      exact ⟨CacheManager.Holds.invalidatePrefix ht.computed _, ht.recorded, ht.served⟩
  | invalidateTenant tenant =>
      obtain rfl := Option.some.inj h
      exact ⟨CacheManager.Holds.invalidatePrefix ht.computed _, ht.recorded, ht.served⟩
  | judge approvalId verdict approver now =>
      obtain rfl := Option.some.inj h
      exact ⟨ht.computed, ht.recorded, ht.served⟩

/-- A dispatch past its gates is for a registered tool. -/
theorem registered_of_arrived {start : System F} {events : List (Event F)}
    {f : Flight F} (h : Arrived srv start events f) :
    srv.registry.tools.lookup f.tool.metadata.name = some f.tool := by
  obtain ⟨_, _, u, _, _, _, hadmitted⟩ := h
  obtain ⟨hlookup, hname⟩ := ToolRegistry.lookup_of_get hadmitted.registered
  rwa [hname]

/-- The keys of the dispatches on record are their cache keys. -/
theorem key_of_run {start t : System F} {events : List (Event F)}
    (hstart : start.flights = []) (hrun : Run (Step srv) start events t) :
    ∀ f ∈ t.flights, ∀ key, f.key = some key →
      key = f.tool.cacheKey f.envelope.tenant f.args := by
  refine hrun.invariant (I := fun t => ∀ f ∈ t.flights, ∀ key, f.key = some key →
    key = f.tool.cacheKey f.envelope.tenant f.args) (by simp [hstart]) ?_
  intro t e u ht hstep f hf key hkey
  rcases flights_step hstep hf with hold | ⟨ctx, env, clock, tool, args, s, -, rfl, -⟩
  · exact ht f hold key hkey
  · simp only [flightOf] at hkey ⊢
    split at hkey
    · exact (Option.some.inj hkey).symm
    · simp at hkey

/-- **Where a returned result comes from.**  In every run of a new server
whose tools have names without a colon, and in which the digest tells the
arguments apart, whatever is returned for a call is the result of an execution
of the same tool for the same tenant with the same arguments, or the JSON
round trip of that result. -/
theorem returned_from_execution (srv : AtlasServer F)
    (hnames : ∀ name tool, srv.registry.tools.lookup name = some tool →
      ':' ∉ name.toList)
    (events : List (Event F)) (t : System F) (hrun : Run (Step srv) (start srv) events t)
    (hdigest : Set.InjOn digest { blob | ∃ f ∈ t.flights, blob = argsBlob f.args }) :
    ∀ f v, (f, v) ∈ t.returned →
      ∃ x ∈ t.executions, x.1.tool = f.tool ∧
        x.1.envelope.tenant = f.envelope.tenant ∧
        (Value.dict x.1.args.dumpJson).sortKeys = (Value.dict f.args.dumpJson).sortKeys ∧
        (v = .dict x.2.val ∨ v = (Value.dict x.2.val).jsonify) := by
  intro f v hfv
  have hconsistent : t.Consistent :=
    hrun.invariant ⟨CacheManager.holds_start srv.settings, by simp [start], by simp [start]⟩
      fun _ _ _ => consistent_step
  obtain ⟨x, hx, hanswers, hresult⟩ := hconsistent.served f v hfv
  have hff : f ∈ t.flights := mem_flights.mpr (Or.inr (Or.inr (Or.inr ⟨v, hfv⟩)))
  have hxf : x.1 ∈ t.flights := mem_flights.mpr (Or.inr (Or.inr (Or.inl ⟨x.2, hx⟩)))
  have hvalue : v = .dict x.2.val ∨ v = (Value.dict x.2.val).jsonify := by
    apply hresult.imp_right
    intro hloads
    rw [loads_dumps x.2.property] at hloads
    exact (Option.some.inj hloads).symm
  rcases hanswers with rfl | ⟨key, hxkey, hfkey⟩
  · exact ⟨x, hx, rfl, rfl, rfl, hvalue⟩
  · have hkeys := (key_of_run rfl hrun x.1 hxf key hxkey).symm.trans
      (key_of_run rfl hrun f hff key hfkey)
    have hxtool := registered_of_arrived (arrived_of_run rfl hrun x.1 hxf)
    have hftool := registered_of_arrived (arrived_of_run rfl hrun f hff)
    obtain ⟨htenant, hname, hdigests⟩ :=
      cacheKey_injective (hnames _ _ hxtool) (hnames _ _ hftool) hkeys
    have htool : x.1.tool = f.tool := by
      rw [hname, hftool] at hxtool
      exact (Option.some.inj hxtool).symm
    exact ⟨x, hx, htool, htenant,
      sortKeys_eq_of_argsBlob_eq (hdigest ⟨x.1, hxf, rfl⟩ ⟨f, hff, rfl⟩ hdigests), hvalue⟩

end System

/-- A tool whose results may be cached. -/
def lookupTool : Tool WholeFloat where
  metadata := { name := "docs.lookup" }
  inputSchema _ := .ok .empty

theorem wf_doc : (Value.dict (F := WholeFloat) [("doc", .int 7)]).Wf := by
  simp [Value.Wf, Value.WfMembers]

/-- A server on which a document can be looked up. -/
def lookupServer : AtlasServer WholeFloat where
  settings := {}
  registry := match ToolRegistry.empty.register lookupTool with
    | .ok registry => registry
    | .error _ => .empty
  policy := { rules := [⟨"lookup", ["*"], ["docs.lookup"], ["*"], .allow, none⟩] }
  httpAllowlist := ⟨[]⟩

/-- A lookup that runs, and the same one again, which the cache answers. -/
def lookedUpTwice : List (Event WholeFloat) :=
  [.dispatch pingContext (pingContext.buildEnvelope "docs.lookup" []) ⟨0, 0, ""⟩,
    .woke 0 0, .ran 0 (.ok ⟨[("doc", .int 7)], by simp [Value.Wf, Value.WfMembers]⟩) 1,
    .woke 0 1,
    .dispatch pingContext (pingContext.buildEnvelope "docs.lookup" []) ⟨2, 2000, ""⟩]

/-- A run in which the second look-up is answered from the cache. -/
theorem second_lookup_from_execution :
    ∃ t, Run (System.Step lookupServer) (System.start lookupServer) lookedUpTwice t ∧
      t.executions.length = 1 ∧ t.returned.length = 2 ∧
      ∀ f v, (f, v) ∈ t.returned → ∃ x ∈ t.executions, x.1.tool = f.tool ∧
        x.1.envelope.tenant = f.envelope.tenant ∧
        (Value.dict x.1.args.dumpJson).sortKeys = (Value.dict f.args.dumpJson).sortKeys ∧
        (v = .dict x.2.val ∨ v = (Value.dict x.2.val).jsonify) := by
  have hsome : (exec (System.step lookupServer) (System.start lookupServer)
      lookedUpTwice).isSome := by decide +kernel
  have hrecord : ((exec (System.step lookupServer) (System.start lookupServer)
      lookedUpTwice).map fun t => (t.executions.length, t.returned.length,
        t.flights.map fun f => argsBlob f.args)) =
      some (1, 2, List.replicate 4 "\x7b\"args\": \x7b\x7d\x7d") := by
    decide +kernel
  obtain ⟨t, ht⟩ := Option.isSome_iff_exists.mp hsome
  simp only [ht, Option.map_some, Option.some.injEq, Prod.mk.injEq] at hrecord
  obtain ⟨hexecutions, hreturned, hblobs⟩ := hrecord
  have hone : ∀ f ∈ t.flights, argsBlob f.args = "\x7b\"args\": \x7b\x7d\x7d" := by
    intro f hf
    exact List.eq_of_mem_replicate (hblobs ▸ List.mem_map_of_mem hf)
  have hrun := Run.of_exec ht
  refine ⟨t, hrun, hexecutions, hreturned,
    System.returned_from_execution lookupServer ?_ lookedUpTwice t hrun ?_⟩
  · intro name tool h
    have hkeys : lookupServer.registry.tools.keys = ["docs.lookup"] := rfl
    have hmem : name ∈ lookupServer.registry.tools.keys :=
      AList.mem_keys.mp (AList.lookup_isSome.mp (by simp [h]))
    rw [hkeys, List.mem_singleton] at hmem
    subst hmem
    decide
  · intro blob hblob blob' hblob' _
    obtain ⟨f, hf, rfl⟩ := hblob
    obtain ⟨g, hg, rfl⟩ := hblob'
    rw [hone f hf, hone g hg]

end Server
