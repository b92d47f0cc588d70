import AtlasMcp.CachedResults
import AtlasMcp.L2Backends
import AtlasMcp.ServedBreakers

/-!
# A warm cache outlasts an outage

The cache stands before the breakers, so that it keeps serving reads while a backend is out.
`CacheRule` is what it takes to keep a property of the cache: reads, writes of results and
locks keep it; then so do all moves of all dispatches (`cache_step`).

The entry that a dispatch wrote is such a property, until its time to live has passed or it is
invalidated: it may leave L1, and others may write it anew.  So a dispatch with its key is
answered in the event it arrives with, whatever the breakers are, and no tool is run for it
(`served_while_warm`).
-/

namespace Server

open PyJson PyText Errors Tools Auth Governance RateLimit Reliability Cache FallibleState
open GuardedRuns

variable {F : Type}

/-- What the cache may be, as far as the moves of one dispatch at one time
go. -/
structure CacheRule [PyFloat F] (C : CacheManager F → Prop) (f : Flight F) (now : ℚ) : Prop where
  read : ∀ m key, C m → C (m.get key now).2
  write : ∀ m key (r : ToolResult F), f.key = some key → C m →
    C (m.set key (.dict r.val) (some f.tool.metadata.cacheTtlSeconds) now)
  locks : ∀ m l2, l2.store = m.l2.store → C m → C { m with l2 }

namespace CacheRule

variable [PyFloat F] {C : CacheManager F → Prop} {srv : AtlasServer F} {s : ServerState F}
  {f : Flight F} {now : ℚ}

/-- Reading the cache keeps the rule, if what follows a miss does. -/
theorem readCache (h : CacheRule C f now) (hs : C s.cache) {key : String}
    {miss : ServerState F → Progress F × ServerState F}
    (hmiss : ∀ t, C t.cache → C (miss t).2.cache) :
    C (Server.readCache srv s f key now miss).2.cache := by
  have hget := h.read s.cache key hs
  rcases hread : s.cache.get key now with ⟨exc | v, cache⟩
  · rw [hread] at hget
    simp only [Server.readCache, hread]
    exact hget
  · rw [hread] at hget
    cases v <;> simp only [Server.readCache, hread]
    case none => exact hmiss _ hget
    all_goals exact hget

theorem runObserved (h : CacheRule C f now) (hs : C s.cache) :
    C (Server.runObserved srv s f now).2.cache := by
  unfold Server.runObserved
  split
  · exact hs
  · rename_i key _
    apply h.readCache hs
    intro t ht
    have hlocked := h.locks t.cache _ (InMemoryL2.store_acquireLock t.cache.l2 (key ++ ":lock")
      CacheManager.stampedeLockTtlMs now) ht
    simp only
    split <;> exact hlocked

/-- What follows the end of a tool keeps the rule: the result is stored, and
the lock is released. -/
theorem settle (h : CacheRule C f now) (hs : C s.cache) (locked : Bool)
    (result : Except (Exc F) (ToolResult F)) :
    C (Server.settle srv s f locked result now).2.cache := by
  unfold Server.settle
  cases hkey : f.key with
  | none => exact hs
  | some key =>
      have hunlock : ∀ m : CacheManager F, C m →
          C { m with l2 := if locked then m.l2.releaseLock (key ++ ":lock") else m.l2 } := by
        intro m hm
        refine h.locks m _ ?_ hm
        split <;> rfl
      apply hunlock
      cases result with
      | ok r => exact h.write s.cache key r hkey hs
      | error exc => exact hs

omit [PyFloat F] in
/-- An attempt that ends keeps the rule, whether it is tried again or not. -/
theorem afterRun (hs : C s.cache) (a : Attempt) (outcome : Except (Exc F) (ToolResult F)) :
    C (Server.afterRun srv s f a outcome now).2.cache := by
  simp only [Server.afterRun]
  split <;> exact hs

variable [UnicodeDb] {phase : Phase F} {next : Progress F × ServerState F}

theorem afterSleep (h : CacheRule C f now) (hs : C s.cache)
    (hnext : Server.afterSleep srv s f now phase = some next) : C next.2.cache := by
  cases phase with
  | running a => simp [Server.afterSleep] at hnext
  | backoff a =>
      obtain rfl := Option.some.inj hnext
      exact hs
  | starting c =>
      obtain rfl := Option.some.inj hnext
      obtain ⟨admission, b, -, ⟨-, hstart⟩ | ⟨admitted, -, ⟨-, -, hstart⟩ | hstart⟩⟩ :=
        startCall_cases srv s f c now <;> rw [hstart] <;> exact hs
  | ending c result =>
      obtain rfl := Option.some.inj hnext
      refine CacheRule.settle h ?_ c.locked result
      exact hs
  | polling waits =>
      obtain ⟨key, -, rfl⟩ := Option.map_eq_some_iff.mp hnext
      apply h.readCache hs
      intro t ht
      split <;> exact ht

omit [PyFloat F] in
/-- A dispatch that is interrupted keeps the rule; it stores nothing. -/
theorem afterInterrupt (hs : C s.cache) {timedOut : Bool}
    (hnext : Server.afterInterrupt srv s f timedOut now phase = some next) : C next.2.cache := by
  cases phase with
  | ending c result => simp [Server.afterInterrupt] at hnext
  | polling waits =>
      obtain rfl := eq_of_afterInterrupt_polling hnext
      exact hs
  | starting c | running a | backoff a =>
      obtain rfl := Option.some.inj hnext
      exact hs

end CacheRule

/-- What an event that is not a move of a dispatch does to the cache. -/
def Event.drop (m : CacheManager F) : Event F → CacheManager F
  | .invalidateKey key => m.invalidateKey key
  | .invalidateTool tenant tool => (m.invalidateTool tenant tool).2
  | .invalidateTenant tenant => (m.invalidateTenant tenant).2
  | _ => m

/-- The event invalidates the entry of the key. -/
def Event.removes (key : String) : Event F → Bool
  | .invalidateKey k => k = key
  | .invalidateTool tenant tool => startsWith key ("atlas:" ++ tenant ++ ":" ++ tool ++ ":")
  | .invalidateTenant tenant => startsWith key ("atlas:" ++ tenant ++ ":")
  | _ => false

namespace System

variable [PyFloat F] [UnicodeDb] {srv : AtlasServer F} {t u : System F} {e : Event F}

/-- **What keeps the cache.**  An event keeps what the moves of the dispatch
it moves keep, and what its invalidation keeps. -/
theorem cache_step {C : CacheManager F → Prop} (h : t.Step srv e u) (ht : C t.server.cache)
    (hmoves : ∀ m now, t.moved srv e = some m → e.reading = some now → CacheRule C m.flight now)
    (hdrops : C (e.drop t.server.cache)) : C u.server.cache := by
  cases e with
  | dispatch ctx env clock =>
      obtain rfl : t.arrive srv ctx env clock = u := Option.some.inj h
      rcases hgates : (gates srv ctx env clock).run t.server with ⟨exc | ⟨tool, args⟩, s⟩
      · simp only [arrive, hgates]
        exact (cache_of_gates hgates).symm ▸ ht
      · have hrule := hmoves _ clock.now (by simp only [moved, hgates]; rfl) rfl
        simp only [arrive, hgates, server_advance]
        exact hrule.runObserved ((cache_of_gates hgates).symm ▸ ht)
  | ran i outcome now =>
      obtain ⟨f, a, hi, rfl⟩ := step_ran h
      unfold toolEnded
      rw [server_advance]
      exact CacheRule.afterRun ht a outcome
  | woke i now =>
      obtain ⟨f, phase, next, hi, hnext, rfl⟩ := step_woke h
      rw [server_advance]
      exact (hmoves _ now (moved_of_woke hi hnext) rfl).afterSleep ht hnext
  | interrupt i timedOut now =>
      obtain ⟨f, phase, next, hi, hnext, rfl⟩ := step_interrupt h
      rw [server_advance]
      exact CacheRule.afterInterrupt ht hnext
  | invalidateKey key | invalidateTool tenant tool | invalidateTenant tenant
  | judge approvalId verdict approver now =>
      obtain rfl := Option.some.inj h
      exact hdrops

end System

/-! ## The entry of a key -/

/-- How long what the tool returns is kept. -/
def lifetime (srv : AtlasServer F) (tool : Tool F) : ℤ :=
  (CacheManager.start srv.settings : CacheManager F).ttlL2 (some tool.metadata.cacheTtlSeconds)

/-- The cache holds an entry of the key that does not expire before the
deadline. -/
structure Warm (srv : AtlasServer F) (key : String) (deadline : ℚ) (m : CacheManager F) :
    Prop where
  settings : m.settings = srv.settings
  entry : ∃ raw expiresAt, m.l2.store.lookup key = some (raw, expiresAt) ∧ deadline ≤ expiresAt

section Warmth

variable {srv : AtlasServer F} {key : String} {deadline now : ℚ} {m : CacheManager F}

/-- How long a result lives depends on the tool and on the settings. -/
theorem lifetime_eq (h : m.settings = srv.settings) (tool : Tool F) :
    m.ttlL2 (some tool.metadata.cacheTtlSeconds) = lifetime srv tool := by
  simp only [lifetime, CacheManager.ttlL2, CacheManager.start, h]

/-- A read of L2 drops no entry that has not expired. -/
theorem lookup_get_of_live {c : InMemoryL2} {raw : String} {expiresAt : ℚ} (other : String)
    (hentry : c.store.lookup key = some (raw, expiresAt)) (hlive : now ≤ expiresAt) :
    (c.get other now).2.store.lookup key = some (raw, expiresAt) := by
  unfold InMemoryL2.get
  cases hlookup : c.store.lookup other with
  | none => exact hentry
  | some x =>
      obtain ⟨raw', expiresAt'⟩ := x
      by_cases hexpired : expiresAt' < now
      · have hne : key ≠ other := by
          intro heq
          rw [heq, hlookup] at hentry
          obtain ⟨-, rfl⟩ := Prod.mk.inj (Option.some.inj hentry)
          exact absurd hexpired (not_lt.mpr hlive)
        simpa [hexpired, AList.lookup_erase_ne hne] using hentry
      · simpa [hexpired] using hentry

variable [PyFloat F]

theorem settings_get (m : CacheManager F) (key : String) (now : ℚ) :
    (m.get key now).2.settings = m.settings := by
  rcases m.get_cases key now with ⟨v, -, -, heq⟩ | ⟨raw, v, -, -, -, heq⟩ | ⟨r, misses, -, heq⟩ <;>
    rw [heq]

/-- A read leaves L2 as it is, or reads it. -/
theorem l2_get (m : CacheManager F) (key : String) (now : ℚ) :
    (m.get key now).2.l2 = m.l2 ∨ (m.get key now).2.l2 = (m.l2.get key now).2 := by
  rcases m.get_cases key now with ⟨v, -, -, heq⟩ | ⟨raw, v, -, -, -, heq⟩ | ⟨r, misses, -, heq⟩
  · exact Or.inl (by rw [heq])
  · exact Or.inr (by rw [heq])
  · exact Or.inr (by rw [heq])

/-- Nothing that a dispatch does changes the settings of the cache. -/
theorem settings_rule (srv : AtlasServer F) (f : Flight F) (now : ℚ) :
    CacheRule (fun m => m.settings = srv.settings) f now where
  read m key h := (settings_get m key now).trans h
  write _ _ _ _ h := h
  locks _ _ _ h := h

/-- The moves of a dispatch keep the entry, if those with its key write it for
as long. -/
theorem warm_rule {f : Flight F} (hnow : now ≤ deadline)
    (hwrites : f.key = some key → deadline ≤ now + lifetime srv f.tool) :
    CacheRule (Warm srv key deadline) f now where
  read m other h := by
    obtain ⟨raw, expiresAt, hentry, hlater⟩ := h.entry
    refine ⟨(settings_get m other now).trans h.settings, raw, expiresAt, ?_, hlater⟩
    rcases l2_get m other now with hl2 | hl2 <;> rw [hl2]
    · exact hentry
    · exact lookup_get_of_live other hentry (hnow.trans hlater)
  write m other r hkey h := by
    refine ⟨h.settings, ?_⟩
    by_cases hother : other = key
    · subst hother
      refine ⟨_, _, AList.lookup_insert _, ?_⟩
      rw [lifetime_eq h.settings]
      exact hwrites hkey
    · obtain ⟨raw, expiresAt, hentry, hlater⟩ := h.entry
      refine ⟨raw, expiresAt, ?_, hlater⟩
      simpa [CacheManager.set, InMemoryL2.set, AList.lookup_insert_ne (Ne.symm hother)] using hentry
  locks m l2 hstore h := by
    refine ⟨h.settings, ?_⟩
    simpa only [hstore] using h.entry

omit [PyFloat F] in
/-- So do invalidations of other keys. -/
theorem warm_drop {e : Event F} (h : Warm srv key deadline m) (hkept : e.removes key = false) :
    Warm srv key deadline (e.drop m) := by
  obtain ⟨raw, expiresAt, hentry, hlater⟩ := h.entry
  have hpre : ∀ pre, startsWith key pre = false →
      Warm srv key deadline (m.invalidatePrefix pre).2 := by
    intro pre hpre
    refine ⟨h.settings, raw, expiresAt, ?_, hlater⟩
    simpa [CacheManager.invalidatePrefix, InMemoryL2.lookup_deletePrefix, hpre] using hentry
  cases e with
  | invalidateKey other =>
      have hne : key ≠ other := by simpa [Event.removes, eq_comm] using hkept
      refine ⟨h.settings, raw, expiresAt, ?_, hlater⟩
      simpa [Event.drop, CacheManager.invalidateKey, CacheManager.delete, InMemoryL2.delete,
        AList.lookup_erase_ne hne] using hentry
  | invalidateTool tenant tool => exact hpre _ hkept
  | invalidateTenant tenant => exact hpre _ hkept
  | _ => exact h

end Warmth

namespace System

variable [PyFloat F] [UnicodeDb] {srv : AtlasServer F}

/-- The key of a dispatch is that of its tenant, tool and arguments, and its
tool is the registered one. -/
def Keyed (srv : AtlasServer F) (f : Flight F) : Prop :=
  srv.registry.tools.lookup f.tool.metadata.name = some f.tool ∧
    ∀ key, f.key = some key → key = f.tool.cacheKey f.envelope.tenant f.args

omit [UnicodeDb] in
/-- Dispatches with one key are of one tool. -/
theorem tool_of_key {f g : Flight F} {key : String}
    (hnames : ∀ name tool, srv.registry.tools.lookup name = some tool → ':' ∉ name.toList)
    (hf : Keyed srv f) (hg : Keyed srv g) (hfkey : f.key = some key) (hgkey : g.key = some key) :
    f.tool = g.tool := by
  have hkeys := (hf.2 key hfkey).symm.trans (hg.2 key hgkey)
  obtain ⟨-, hname, -⟩ := cacheKey_injective (hnames _ _ hf.1) (hnames _ _ hg.1) hkeys
  have hlookup := hf.1
  rw [hname, hg.1] at hlookup
  exact (Option.some.inj hlookup).symm

/-- A dispatch that passes the gates is given the key of its own call, if its
tool is cached. -/
theorem keyed_of_gates {ctx : RequestContext} {env : ToolCallEnvelope F} {clock : Clock}
    {s s' : ServerState F} {tool : Tool F} {args : BaseModel F}
    (h : (gates srv ctx env clock).run s = (.ok (tool, args), s')) :
    Keyed srv (flightOf srv ctx env clock s tool args) := by
  obtain ⟨hlookup, hname⟩ := ToolRegistry.lookup_of_get (admitted_of_gates h).registered
  refine ⟨hname ▸ hlookup, fun key hkey => ?_⟩
  simp only [flightOf] at hkey ⊢
  split at hkey
  · exact (Option.some.inj hkey).symm
  · simp at hkey

/-- In every run, each dispatch has the key of its own call. -/
theorem keyed_of_run {events : List (Event F)} {t : System F}
    (hrun : Run (Step srv) (start srv) events t) {f : Flight F} (hf : f ∈ t.flights) :
    Keyed srv f :=
  ⟨registered_of_arrived (arrived_of_run rfl hrun f hf), key_of_run rfl hrun f hf⟩

/-- So it is for every dispatch that moves in a run. -/
theorem keyed_of_moved {events : List (Event F)} {t : System F} {e : Event F} {m : Move F}
    (hrun : Run (Step srv) (start srv) events t) (hm : t.moved srv e = some m) :
    Keyed srv m.flight := by
  rcases moved_cases hm with ⟨-, s, ⟨ctx, env, clock, tool, args, -, hgates, hf⟩, -⟩ |
    ⟨i, phase, -, hi, -⟩
  · rw [hf]
    exact keyed_of_gates hgates
  · exact keyed_of_run hrun (flights_of_waiting hi)

theorem consistent_of_run {events : List (Event F)} {t : System F}
    (hrun : Run (Step srv) (start srv) events t) : t.Consistent :=
  hrun.invariant ⟨CacheManager.holds_start srv.settings, by simp [start], by simp [start]⟩
    fun _ _ _ => consistent_step

/-- In every run, the cache has the settings of the server. -/
theorem settings_of_run {events : List (Event F)} {t : System F}
    (hrun : Run (Step srv) (start srv) events t) :
    t.server.cache.settings = srv.settings := by
  refine hrun.invariant (I := fun t => t.server.cache.settings = srv.settings) rfl ?_
  intro t e u ht hstep
  refine cache_step hstep ht (fun m now _ _ => settings_rule srv m.flight now) ?_
  cases e <;> exact ht

/-- **The entry stays.**  While its time to live has not passed and it is not
invalidated, the entry that a dispatch wrote stays, or gives way to one that
lasts as long. -/
theorem warm_of_run (hnames : ∀ name tool, srv.registry.tools.lookup name = some tool →
      ':' ∉ name.toList)
    {before events : List (Event F)} {t u : System F × ℚ} {g : Flight F} {key : String}
    (hreached : Run (Step srv) (start srv) before t.1) (hg : Keyed srv g)
    (hkey : g.key = some key) (hrun : Run (Clocked (Step srv) Event.reading) t events u)
    (hkept : ∀ e ∈ events, e.removes key = false)
    (hlive : u.2 ≤ t.2 + lifetime srv g.tool)
    (hwarm : Warm srv key (t.2 + lifetime srv g.tool) t.1.server.cache) :
    Warm srv key (t.2 + lifetime srv g.tool) u.1.server.cache := by
  induction hrun with
  | nil => exact hwarm
  | @snoc events e u v hevents hlast ih =>
      have hwarm := ih (fun e he => hkept e (List.mem_append_left _ he))
        (hlast.2.1.trans hlive)
      have hbefore : Run (Step srv) (start srv) (before ++ events) u.1 :=
        hreached.append hevents.unclocked
      have hcurrent := hkept e (List.mem_append_right _ (List.mem_singleton_self e))
      refine cache_step hlast.1 hwarm (fun m now hm hreading => ?_) (warm_drop hwarm hcurrent)
      have hnow : v.2 = now := by
        rw [hlast.2.2, hreading]
        rfl
      apply warm_rule (hnow ▸ hlive)
      intro hmkey
      -- whoever writes the key writes it later, and for as long
      rw [tool_of_key hnames (keyed_of_moved hbefore hm) hg hmkey hkey, ← hnow]
      have hlater := hevents.clock_le.trans hlast.2.1
      linarith

/-- A dispatch that finds its entry is answered at once. -/
theorem answered_of_warm {t : System F} {before : List (Event F)} {key : String} {deadline : ℚ}
    (hreached : Run (Step srv) (start srv) before t)
    (hwarm : Warm srv key deadline t.server.cache) {ctx : RequestContext}
    {env : ToolCallEnvelope F} {clock : Clock} {tool : Tool F} {args : BaseModel F}
    {s : ServerState F} (hgates : (gates srv ctx env clock).run t.server = (.ok (tool, args), s))
    (hkey : (flightOf srv ctx env clock t.server tool args).key = some key)
    (hlive : clock.now ≤ deadline) :
    ∃ v u, Served t.executions (flightOf srv ctx env clock t.server tool args) v ∧
      t.Step srv (.dispatch ctx env clock) u ∧
      u.returned = t.returned ++ [(flightOf srv ctx env clock t.server tool args, v)] ∧
      u.inFlight = t.inFlight ∧ u.started = t.started := by
  have hcomputed : Computed t.executions s.cache :=
    (cache_of_gates hgates).symm ▸ (consistent_of_run hreached).computed
  obtain ⟨raw, expiresAt, hentry, hlater⟩ := (cache_of_gates hgates).symm ▸ hwarm.entry
  -- the text of the entry is that of a result, and reads as one
  obtain ⟨x, -, -, hraw⟩ := hcomputed.inL2 _ _ hentry
  have hloads : loads raw = some (Value.dict x.2.val).jsonify := by
    rw [show raw = dumps (.dict x.2.val) from hraw]
    exact loads_dumps x.2.property
  have hstored : s.cache.Stored key clock.now :=
    Or.inr ⟨raw, expiresAt, _, hentry, hlive.trans hlater, hloads, by simp [Value.jsonify]⟩
  obtain ⟨v, hv, hget⟩ := CacheManager.stored_iff.mp hstored
  refine ⟨v, _, served_of_get hcomputed hkey hget hv, rfl, ?_⟩
  rcases hread : s.cache.get key clock.now with ⟨hit, cache⟩
  obtain rfl : hit = .ok v := by
    rw [hread] at hget
    exact hget
  have hanswered : (runObserved srv s (flightOf srv ctx env clock t.server tool args)
      clock.now).1 = .ended (.ok v) := by
    simp only [runObserved, hkey, readCache, hread]
    rfl
  simp only [arrive, hgates]
  rcases hobserved : runObserved srv s (flightOf srv ctx env clock t.server tool args)
    clock.now with ⟨progress, server⟩
  rw [hobserved] at hanswered
  obtain rfl : progress = .ended (.ok v) := hanswered
  exact ⟨rfl, rfl, rfl⟩

/-- A dispatch that is resumed with a result writes it for its time to
live. -/
theorem warm_of_stored {t u : System F} {i : ℕ} {g : Flight F} {c : Budgeted} {r : ToolResult F}
    {now : ℚ} {key : String} (hsettings : t.server.cache.settings = srv.settings)
    (hi : t.inFlight[i]? = some (g, .ending c (.ok r))) (hkey : g.key = some key)
    (h : t.Step srv (.woke i now) u) :
    Warm srv key (now + lifetime srv g.tool) u.server.cache := by
  obtain ⟨f, phase, next, hf, hnext, rfl⟩ := step_woke h
  obtain ⟨rfl, rfl⟩ : g = f ∧ Phase.ending c (.ok r) = phase := by
    simpa using hi.symm.trans hf
  obtain rfl := Option.some.inj hnext
  rw [server_advance]
  simp only [resume, settle, hkey]
  refine ⟨hsettings, dumps (.dict r.val), _, ?_, le_refl _⟩
  rw [← lifetime_eq hsettings]
  cases c.locked <;> exact AList.lookup_insert _

/-- **A warm cache outlasts an outage.**  In a run of a new server a dispatch
is resumed with a result, which it writes under its key.  After any run from
there in which nothing invalidates the key, until the time to live has passed:
a dispatch with this key that passes its gates is answered in the event it
arrives with, with the result of an execution with the key, and no tool is
started; the breakers have no say. -/
theorem served_while_warm (hnames : ∀ name tool, srv.registry.tools.lookup name = some tool →
      ':' ∉ name.toList)
    {before events : List (Event F)} {start : ℚ} {s t u : System F × ℚ} {i : ℕ} {g : Flight F}
    {c : Budgeted} {r : ToolResult F} {now : ℚ} {key : String}
    (hreached : Run (Clocked (Step srv) Event.reading) (System.start srv, start) before s)
    (hi : s.1.inFlight[i]? = some (g, .ending c (.ok r))) (hkey : g.key = some key)
    (hstored : Clocked (Step srv) Event.reading s (.woke i now) t)
    (hrun : Run (Clocked (Step srv) Event.reading) t events u)
    (hkept : ∀ e ∈ events, e.removes key = false)
    {ctx : RequestContext} {env : ToolCallEnvelope F} {clock : Clock} {tool : Tool F}
    {args : BaseModel F} {passed : ServerState F}
    (hgates : (gates srv ctx env clock).run u.1.server = (.ok (tool, args), passed))
    (hsame : (flightOf srv ctx env clock u.1.server tool args).key = some key)
    (hlater : u.2 ≤ clock.now) (hlive : clock.now ≤ now + lifetime srv g.tool) :
    ∃ v w, Served u.1.executions (flightOf srv ctx env clock u.1.server tool args) v ∧
      u.1.Step srv (.dispatch ctx env clock) w ∧
      w.returned = u.1.returned ++ [(flightOf srv ctx env clock u.1.server tool args, v)] ∧
      w.inFlight = u.1.inFlight ∧ w.started = u.1.started := by
  have hg : Keyed srv g := keyed_of_run hreached.unclocked (flights_of_waiting hi)
  have hthere : Run (Step srv) (System.start srv) (before ++ [.woke i now]) t.1 :=
    hreached.unclocked.snoc hstored.1
  obtain rfl : t.2 = now := hstored.2.2
  have hwarm := warm_of_stored (settings_of_run hreached.unclocked) hi hkey hstored.1
  have hstays := warm_of_run hnames hthere hg hkey hrun hkept (hlater.trans hlive) hwarm
  exact answered_of_warm (hthere.append hrun.unclocked) hstays hgates hsame hlive

end System

/-- A server that caches, and opens a breaker at the first failure. -/
def cachingServer : AtlasServer WholeFloat :=
  { lookupServer with settings := { circuitBreakerFailureThreshold := 1, retryMaxAttempts := 1 } }

/-- What a dispatch is about to return. -/
def Phase.result? : Phase F → Option (ToolResult F)
  | .ending _ (.ok r) => some r
  | _ => none

/-- A look-up that a tenant asks for. -/
def lookupAt (tenant : String) (now : ℚ) : Event WholeFloat :=
  let ctx := { pingContext with tenant }
  .dispatch ctx (ctx.buildEnvelope "docs.lookup" []) ⟨now, 0, ""⟩

/-- A lookup that succeeds, -/
def lookupSucceeds : List (Event WholeFloat) :=
  [lookupAt "acme" 0, .woke 0 0,
    .ran 0 (.ok ⟨[("doc", .int 7)], wf_doc⟩) 1]

/-- and one for another tenant that fails. -/
def otherLookupFails : List (Event WholeFloat) :=
  [lookupAt "globex" 2, .woke 0 2,
    .ran 0 (.error (.tool { cls := .upstreamError, code := "down", retryable := true })) 3,
    .woke 0 3]

/-- The first lookup is answered again, though the breaker is open. -/
theorem lookup_served_while_open : ∃ u f v w,
    (∃ t, Run (Clocked (System.Step cachingServer) Event.reading) t otherLookupFails u) ∧
    (breakerFor cachingServer u.1.server "docs.lookup").state = .opened ∧
    u.1.Step cachingServer (lookupAt "acme" 4) w ∧ Served u.1.executions f v ∧
    w.returned = u.1.returned ++ [(f, v)] ∧ w.started = u.1.started := by
  obtain ⟨s, hs, x, hx, hphase, hkey, t, ht, u, hu, hopened, y, hy, hsame, hlater, hlive⟩ :
      ∃ s ∈ exec (clockedStep (System.step cachingServer) Event.reading)
          (System.start cachingServer, 0) lookupSucceeds,
        ∃ x ∈ s.1.inFlight[0]?,
          x.2.result?.isSome = true ∧ x.1.key.isSome = true ∧
          ∃ t ∈ exec (clockedStep (System.step cachingServer) Event.reading) s [.woke 0 1],
            ∃ u ∈ exec (clockedStep (System.step cachingServer) Event.reading) t
                otherLookupFails,
              (breakerFor cachingServer u.1.server "docs.lookup").state = .opened ∧
              ∃ y ∈ ((gates cachingServer pingContext
                  (pingContext.buildEnvelope "docs.lookup" []) ⟨4, 0, ""⟩).run
                    u.1.server).1.toOption,
                (flightOf cachingServer pingContext (pingContext.buildEnvelope "docs.lookup" [])
                  ⟨4, 0, ""⟩ u.1.server y.1 y.2).key = x.1.key ∧
                u.2 ≤ 4 ∧ 4 ≤ 1 + (lifetime cachingServer x.1.tool : ℚ) := by
    decide +kernel
  obtain ⟨g, phase⟩ := x
  obtain ⟨key, hkey⟩ := Option.isSome_iff_exists.mp hkey
  have hstored : Clocked (System.Step cachingServer) Event.reading s (.woke 0 1) t :=
    run_singleton.mp (Run.of_exec_clocked ht)
  have hnames : ∀ name tool, cachingServer.registry.tools.lookup name = some tool →
      ':' ∉ name.toList := by
    intro name tool h
    obtain rfl := ToolRegistry.eq_of_lookup_single "docs.lookup" rfl h
    decide
  rcases hgates : (gates cachingServer pingContext
      (pingContext.buildEnvelope "docs.lookup" []) ⟨4, 0, ""⟩).run u.1.server with
    ⟨exc | ⟨tool, args⟩, passed⟩
  · simp [hgates, Except.toOption] at hy
  · obtain rfl : (tool, args) = y := by simpa [hgates, Except.toOption] using hy
    cases phase with
    | ending c result =>
        cases result with
        | error exc => cases hphase
        | ok r =>
            obtain ⟨v, w, hserved, hstep, hreturned, -, hstarted⟩ :=
              System.served_while_warm hnames (Run.of_exec_clocked hs) hx hkey hstored
                (Run.of_exec_clocked hu)
                (by simp [otherLookupFails, lookupAt, Event.removes]) hgates
                (hsame.trans hkey) hlater hlive
            exact ⟨u, _, v, w, ⟨t, Run.of_exec_clocked hu⟩, hopened, hstep, hserved, hreturned,
              hstarted⟩
    | _ => cases hphase

end Server
