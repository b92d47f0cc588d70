import AtlasMcp.CacheTiers
import AtlasMcp.GuardedRuns

/-!
# How long the cache serves a value

A value written with a time to live is to be served no longer than that.  Two
steps of the manager break this: a write with a time to live of `0` is read as
one without, and a value promoted from L2 starts a full L1 life however little is
left of its own.

`in_time_of_timely` says that there is nothing else: in a run without a step of
these kinds, whatever a read returns is the value written last under its key, and
its deadline has not passed.
-/

namespace Cache

open PyJson Errors StoreRecords GuardedRuns

variable {F : Type}

/-- The calls of a cache manager, each made at one time.  Those of different
callers come one after the other here, in any order. -/
inductive Call (F : Type)
  | get (key : String)
  | set (key : String) (value : Value F) (ttl : Option ℤ)
  | delete (key : String)
  | invalidateKey (key : String)
  | invalidateTool (tenant tool : String)
  | invalidateTenant (tenant : String)

/-- A value written and the time after which it must not be served, which the
time to live of the write sets. -/
structure Write (F : Type) where
  value : Value F
  deadline : ℚ

/-- A cache manager and the time of the last call; `written` is the last write
under each key, which the code does not keep. -/
structure Cached (F : Type) where
  cache : CacheManager F
  clock : ℚ
  written : String → Option (Write F)

section Steps

variable [PyFloat F]

/-- The cache after a call. -/
def CacheManager.after (m : CacheManager F) (now : ℚ) : Call F → CacheManager F
  | .get key => (m.get key now).2
  | .set key value ttl => m.set key value ttl now
  | .delete key => m.delete key
  | .invalidateKey key => m.invalidateKey key
  | .invalidateTool tenant tool => (m.invalidateTool tenant tool).2
  | .invalidateTenant tenant => (m.invalidateTenant tenant).2

namespace Cached

/-- A new manager. -/
def start (settings : ServerSettings) (clock : ℚ) : Cached F :=
  ⟨.start settings, clock, fun _ => none⟩

/-- The writes after a call.  Without a time to live of its own a value has
the default one. -/
def writtenAfter (s : Cached F) (now : ℚ) : Call F → String → Option (Write F)
  | .set key value ttl => Function.update s.written key
      (some ⟨value, now + ttl.getD s.cache.settings.cacheL2TtlSeconds⟩)
  | _ => s.written

/-- The cache takes the next call, at a time that is not before the last
one. -/
def step (s : Cached F) (e : Call F × ℚ) : Option (Cached F) :=
  if s.clock ≤ e.2 then
    some ⟨s.cache.after e.2 e.1, e.2, s.writtenAfter e.2 e.1⟩
  else none

/-- One call. -/
def Step (s : Cached F) (e : Call F × ℚ) (t : Cached F) : Prop := s.step e = some t

/-- What a read returns is the value written last under its key, or its JSON
round trip, and its deadline has not passed. -/
def InTime (s : Cached F) (e : Call F × ℚ) (_ : Cached F) : Prop :=
  ∀ key v, e.1 = .get key → (s.cache.get key e.2).1 = .ok v → v ≠ .none →
    ∃ w, s.written key = some w ∧ (v = w.value ∨ loads (dumps w.value) = some v) ∧
      e.2 ≤ w.deadline

/-- No write has a time to live of `0` while the default is positive; and a
read that L2 serves finds as much life left in its entry as L1 will give it,
unless L1 has no room for any. -/
def Timely (s : Cached F) (e : Call F × ℚ) (_ : Cached F) : Prop :=
  match e.1 with
  | .set _ _ ttl => ttl = some 0 → s.cache.settings.cacheL2TtlSeconds ≤ 0
  | .get key => (s.cache.l1.get key e.2).1 = .none → 0 < s.cache.l1.maxItems →
      ∀ raw expiresAt, s.cache.l2.store.lookup key = some (raw, expiresAt) →
        e.2 ≤ expiresAt → e.2 + s.cache.settings.cacheL1TtlSeconds ≤ expiresAt
  | _ => True

/-- An L1 entry holds the last write under its key, and expires by its
deadline. -/
def GoodL1 (written : String → Option (Write F)) (key : String) (entry : L1Entry F) :
    Prop :=
  ∃ w, written key = some w ∧
    (entry.value = w.value ∨ loads (dumps w.value) = some entry.value) ∧
    entry.expiresAt ≤ w.deadline

/-- So does an L2 entry, as a text. -/
def GoodL2 (written : String → Option (Write F)) (key : String) (entry : String × ℚ) :
    Prop :=
  ∃ w, written key = some w ∧ entry.1 = dumps w.value ∧ entry.2 ≤ w.deadline

/-- Every entry of both tiers is good: it holds the value written last under its
key, and expires before the deadline of that. -/
def Fresh (s : Cached F) : Prop :=
  s.cache.Holds (GoodL1 s.written) (GoodL2 s.written)

/-- A timely write keeps every entry good. -/
theorem fresh_set {s : Cached F} (hs : s.Fresh) {key : String} {value : Value F}
    {ttl : Option ℤ} {now : ℚ}
    (h : ttl = some 0 → s.cache.settings.cacheL2TtlSeconds ≤ 0) (clock : ℚ) :
    Fresh ⟨s.cache.set key value ttl now, clock,
      s.writtenAfter now (.set key value ttl)⟩ := by
  have hle : (s.cache.ttlL2 ttl : ℚ) ≤ ttl.getD s.cache.settings.cacheL2TtlSeconds := by
    exact_mod_cast CacheManager.ttlL2_le h
  have hmin : ((min (s.cache.ttlL2 ttl) s.cache.settings.cacheL1TtlSeconds : ℤ) : ℚ) ≤
      s.cache.ttlL2 ttl := by
    exact_mod_cast min_le_left _ _
  have hwritten : s.writtenAfter now (.set key value ttl) key =
      some ⟨value, now + ttl.getD s.cache.settings.cacheL2TtlSeconds⟩ := by
    simp [writtenAfter]
  have hother : ∀ k ≠ key, s.writtenAfter now (.set key value ttl) k = s.written k :=
    fun k hk => Function.update_of_ne hk _ _
  refine CacheManager.Holds.set (hs.imp (fun k e he hk => ?_) fun k e he hk => ?_)
    ⟨_, hwritten, Or.inl rfl, ?_⟩ ⟨_, hwritten, rfl, ?_⟩
  · simpa only [GoodL1, hother k hk] using he
  · simpa only [GoodL2, hother k hk] using he
  · simp only
    linarith
  · simp only
    linarith

/-- A timely read keeps every entry good. -/
theorem fresh_get {s : Cached F} (hs : s.Fresh) {key : String} {now : ℚ}
    (h : (s.cache.l1.get key now).1 = .none → 0 < s.cache.l1.maxItems →
      ∀ raw expiresAt, s.cache.l2.store.lookup key = some (raw, expiresAt) →
        now ≤ expiresAt → now + s.cache.settings.cacheL1TtlSeconds ≤ expiresAt)
    (clock : ℚ) : Fresh ⟨(s.cache.get key now).2, clock, s.written⟩ := by
  apply CacheManager.Holds.get hs
  intro raw expiresAt v hlookup hlive hloads hmiss hpos
  obtain ⟨w, hw, hraw, hdeadline⟩ := hs.inL2 _ _ hlookup
  -- the life L1 gives the entry is left in L2, so it ends before the deadline
  have hpromoted := (h hmiss hpos raw expiresAt hlookup hlive).trans hdeadline
  exact ⟨w, hw, Or.inr (hraw ▸ hloads), hpromoted⟩

/-- Every timely call keeps every entry good. -/
theorem fresh_step {s t : Cached F} {e : Call F × ℚ} (hs : s.Fresh)
    (hstep : s.Step e t) (htimely : s.Timely e t) : t.Fresh := by
  obtain ⟨call, now⟩ := e
  obtain ⟨-, rfl⟩ : s.clock ≤ now ∧
      (⟨s.cache.after now call, now, s.writtenAfter now call⟩ : Cached F) = t := by
    simpa [Step, step] using hstep
  cases call with
  | get key => exact fresh_get hs htimely now
  | set key value ttl => exact fresh_set hs htimely now
  | delete key => exact CacheManager.Holds.delete hs key
  | invalidateKey key => exact CacheManager.Holds.delete hs key
  | invalidateTool tenant tool => exact CacheManager.Holds.invalidatePrefix hs _
  | invalidateTenant tenant => exact CacheManager.Holds.invalidatePrefix hs _

/-- While every entry is good, whatever a read returns is in time. -/
theorem inTime_of_fresh {s : Cached F} (hs : s.Fresh) (e : Call F × ℚ) (t : Cached F) :
    s.InTime e t := by
  intro key v _ hv hne
  rcases CacheManager.Holds.get_value hs hv hne with
    ⟨entry, ⟨w, hw, hvalue, hdeadline⟩, hlive, rfl⟩ |
    ⟨raw, expiresAt, ⟨w, hw, hraw, hdeadline⟩, hlive, hloads⟩
  · exact ⟨w, hw, hvalue, hlive.trans hdeadline⟩
  · exact ⟨w, hw, Or.inr (hraw ▸ hloads), hlive.trans hdeadline⟩

/-- **No value is served late.**  In every run of timely calls of a new
manager, whatever a read returns is the last write under its key, before its
deadline. -/
theorem in_time_of_timely (settings : ServerSettings) (clock : ℚ)
    (calls : List (Call F × ℚ)) (t : Cached F)
    (hrun : Run (Guarded Step Timely) (start settings clock) calls t) :
    Run (Guarded Step InTime) (start settings clock) calls t ∧
      ∀ key now v, (t.cache.get key now).1 = .ok v → v ≠ .none →
        ∃ w, t.written key = some w ∧
          (v = w.value ∨ loads (dumps w.value) = some v) ∧ now ≤ w.deadline := by
  have hstart : Fresh (start settings clock : Cached F) := CacheManager.holds_start settings
  have hend : t.Fresh :=
    hrun.invariant hstart fun _ _ _ hs h => fresh_step hs h.1 h.2
  exact ⟨hrun.transfer hstart fun s e t hs h =>
      ⟨fresh_step hs h.1 h.2, h.1, inTime_of_fresh hs e t⟩,
    fun key now v hv hne => inTime_of_fresh hend (.get key, now) t key v rfl hv hne⟩

end Cached

end Steps

/-- Written for two hundred seconds, read after ninety, and again after a
hundred and forty. -/
def readEarly : List (Call WholeFloat × ℚ) :=
  [(.set "k" (.int 1) (some 200), 0), (.get "k", 90), (.get "k", 140)]

/-- The first read promotes the value, which has more than a minute to live,
and the second finds it in L1. -/
theorem early_read_in_time :
    ∃ t, Run (Guarded Cached.Step Cached.InTime) (Cached.start {} 0) readEarly t ∧
      (t.cache.l1.get "k" 140).1 = .int 1 ∧
      ∃ entry, t.cache.l1.store.lookup "k" = some entry ∧ entry.expiresAt = 150 := by
  obtain ⟨s, hset⟩ : ∃ s : Cached WholeFloat,
      s = ⟨(CacheManager.start {}).set "k" (.int 1) (some 200) 0, 0,
        (Cached.start {} 0).writtenAfter 0 (.set "k" (.int 1) (some 200))⟩ := ⟨_, rfl⟩
  have hfirst : Guarded Cached.Step Cached.Timely (Cached.start {} 0)
      (Call.set "k" (.int 1) (some 200), 0) s := by
    subst hset
    exact ⟨rfl, by simp [Cached.Timely]⟩
  -- L1 has let the value go, and L2 keeps it until two hundred
  obtain ⟨u, hget⟩ : ∃ u : Cached WholeFloat, u = ⟨(s.cache.get "k" 90).2, 90, s.written⟩ :=
    ⟨_, rfl⟩
  have hl2 : s.cache.l2.store.lookup "k" = some ("1", 200) := by
    subst hset
    with_unfolding_all rfl
  have hsecond : Guarded Cached.Step Cached.Timely s (Call.get "k", 90) u := by
    subst hget
    refine ⟨if_pos (by subst hset; decide +kernel), fun _ _ raw expiresAt hlookup _ => ?_⟩
    obtain ⟨-, rfl⟩ := Prod.mk.inj (Option.some.inj (hl2.symm.trans hlookup))
    subst hset
    decide +kernel
  have hhit : (u.cache.l1.get "k" 140).1 = .int 1 := by
    subst hget hset
    with_unfolding_all rfl
  have hthird : Guarded Cached.Step Cached.Timely u (Call.get "k", 140)
      ⟨(u.cache.get "k" 140).2, 140, u.written⟩ :=
    ⟨if_pos (by subst hget; norm_num), fun hmiss => by simp [hhit] at hmiss⟩
  refine ⟨_, (Cached.in_time_of_timely {} 0 readEarly _
    (((Run.nil.snoc hfirst).snoc hsecond).snoc hthird)).1, ?_, ⟨.int 1, 150⟩, ?_, rfl⟩
  · subst hget hset
    with_unfolding_all rfl
  · subst hget hset
    with_unfolding_all rfl

/-- Written for a hundred seconds and read after ninety. -/
def readBeforeExpiry : List (Call WholeFloat × ℚ) :=
  [(.set "k" (.int 1) (some 100), 0), (.get "k", 90)]

/-- Written for no time at all. -/
def writtenForNoTime : List (Call WholeFloat × ℚ) := [(.set "k" (.int 1) (some 0), 0)]

/-- A value read before its expiry at a hundred seconds is served again at a
hundred and forty; one written for no time is served after five hundred. -/
theorem values_served_late :
    ∃ s t, Run Cached.Step (Cached.start {} 0) readBeforeExpiry s ∧
      s.written "k" = some ⟨.int 1, 100⟩ ∧ (s.cache.get "k" 140).1 = .ok (.int 1) ∧
      Run Cached.Step (Cached.start {} 0) writtenForNoTime t ∧
      t.written "k" = some ⟨.int 1, 0⟩ ∧ (t.cache.get "k" 500).1 = .ok (.int 1) := by
  refine ⟨_, _, Run.of_exec rfl, ?_, ?_, Run.of_exec rfl, ?_, ?_⟩ <;>
  with_unfolding_all rfl

end Cache
