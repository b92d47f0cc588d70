import AtlasMcp.DispatchCounts

/-!
# What holds of cached values

A property of the values under the keys of the cache is kept by all that dispatches do,
if it holds of what they write: the results they return from their own runs.  A dispatch
returns its result, or a value of the cache (`values_runObserved`, `values_goesOn`).
-/

namespace Cache.CacheManager

open PyJson StoreRecords

variable {F : Type} [PyFloat F] {P Q : String → Value F → Prop} {m : CacheManager F}

/-- `P` holds of all values that reads of the cache may return, now or later: of
those in L1, and of those that the texts in L2 read as. -/
def Values (P : String → Value F → Prop) (m : CacheManager F) : Prop :=
  m.Holds (fun key entry => P key entry.value) fun key entry =>
    ∀ v, loads entry.1 = some v → P key v

/-- What holds of the values of a cache holds of them if it follows from what
is known. -/
theorem Values.imp (h : m.Values P) (himp : ∀ key v, P key v → Q key v) : m.Values Q :=
  Holds.imp h (fun key entry => himp key entry.value) fun key _ hloads v hv =>
    himp key v (hloads v hv)

/-- A look-up brings no value into the cache that was not in one of its tiers
before. -/
theorem Values.get (h : m.Values P) (key : String) (now : ℚ) : (m.get key now).2.Values P :=
  Holds.get h fun _ _ v hlookup _ hloads _ _ => h.inL2 _ _ hlookup v hloads

theorem Values.of_get (h : m.Values P) {key : String} {now : ℚ} {v : Value F}
    (hget : (m.get key now).1 = .ok v) (hv : v ≠ .none) : P key v := by
  rcases Holds.get_value h hget hv with
    ⟨entry, hentry, -, rfl⟩ | ⟨raw, expiresAt, hraw, -, hloads⟩
  · exact hentry
  · exact hraw v hloads

/-- What was set is a value of the cache, and so is what is read back of its
text. -/
theorem Values.set {key : String} {v : Value F} (h : m.Values fun k w => k ≠ key → P k w)
    (hv : P key v) (hloads : ∀ w, loads (dumps v) = some w → P key w) (ttl : Option ℤ)
    (now : ℚ) : (m.set key v ttl now).Values P :=
  Holds.set (Holds.imp h (fun _ _ he => he) fun _ _ he hne w hw => he w hw hne) hv hloads

/-- The locks are not values. -/
theorem Values.of_store (h : m.Values P) {l2 : InMemoryL2} (hstore : l2.store = m.l2.store) :
    Values P { m with l2 } :=
  ⟨h.inL1, hstore ▸ h.inL2⟩

/-- What a read returns is a value. -/
def isValue : Except (Errors.Exc F) (Value F) → Bool
  | .ok .none | .error _ => false
  | .ok _ => true

omit [PyFloat F] in
theorem isValue_iff {r : Except (Errors.Exc F) (Value F)} :
    isValue r = true ↔ ∃ v, v ≠ .none ∧ r = .ok v := by
  rcases r with exc | v
  · simp [isValue]
  · cases v <;> simp [isValue]

instance (m : CacheManager F) (key : String) (now : ℚ) : Decidable (m.Stored key now) :=
  decidable_of_iff (isValue (m.get key now).1 = true) (isValue_iff.trans stored_iff.symm)

end Cache.CacheManager

namespace Server

open PyJson PyText Errors Tools Auth Governance RateLimit Reliability Cache FallibleState
open GuardedRuns

variable {F : Type} [PyFloat F]

section Pieces

variable {P Q : String → Value F → Prop} {srv : AtlasServer F} {s : ServerState F}
  {f : Flight F} {now : ℚ}

/-- A read returns a value of the cache, raises, or goes on as on a miss. -/
theorem values_readCache (hs : s.cache.Values P) (srv : AtlasServer F) (f : Flight F)
    (key : String) (now : ℚ) (miss : ServerState F → Progress F × ServerState F) :
    ((readCache srv s f key now miss).2.cache.Values P ∧
      ∀ v, (readCache srv s f key now miss).1 = .ended (.ok v) →
        s.cache.Stored key now ∧ P key v) ∨
    ∃ s', s'.cache.Values P ∧ readCache srv s f key now miss = miss s' := by
  have hget := hs.get key now
  rcases hread : s.cache.get key now with ⟨exc | v, cache⟩
  · left
    rw [hread] at hget
    simp only [readCache, hread]
    exact ⟨hget, fun v hv => by simp [conclude] at hv⟩
  · rw [hread] at hget
    by_cases hnone : v = .none
    · subst hnone
      exact Or.inr ⟨{ s with cache }, hget, by simp only [readCache, hread]⟩
    · left
      have hvalue : (s.cache.get key now).1 = .ok v := congrArg Prod.fst hread
      simp only [readCache, hread]
      refine ⟨hget, fun w hw => ?_⟩
      obtain rfl : v = w := by simpa [conclude] using hw
      exact ⟨CacheManager.stored_iff.mpr ⟨v, hnone, hvalue⟩, hs.of_get hvalue hnone⟩

/-- A dispatch that arrives returns nothing but a value of the cache. -/
theorem values_runObserved (hs : s.cache.Values P) :
    (runObserved srv s f now).2.cache.Values P ∧
      ∀ v, (runObserved srv s f now).1 = .ended (.ok v) →
        ∃ key, f.key = some key ∧ s.cache.Stored key now ∧ P key v := by
  unfold runObserved
  cases hkey : f.key with
  | none => exact ⟨hs, fun v hv => by simp [execute] at hv⟩
  | some key =>
      simp only
      rcases values_readCache hs srv f key now _ with ⟨hcache, hvalue⟩ | ⟨s', hs', hmiss⟩
      · exact ⟨hcache, fun v hv => ⟨key, rfl, hvalue v hv⟩⟩
      · rw [hmiss]
        have hlocked := hs'.of_store (InMemoryL2.store_acquireLock s'.cache.l2
          (key ++ ":lock") CacheManager.stampedeLockTtlMs now)
        split
        · exact ⟨hlocked, fun v hv => by simp [execute] at hv⟩
        · exact ⟨hlocked, fun v hv => by simp at hv⟩

omit [PyFloat F] in
/-- A tool that has ended has not touched the cache yet. -/
theorem cache_afterRun (srv : AtlasServer F) (s : ServerState F) (f : Flight F) (a : Attempt)
    (outcome : Except (Exc F) (ToolResult F)) (now : ℚ) :
    (afterRun srv s f a outcome now).2.cache = s.cache := by
  unfold afterRun
  simp only
  split <;> rfl

omit [PyFloat F] in
theorem cache_startCall [UnicodeDb] (srv : AtlasServer F) (s : ServerState F) (f : Flight F)
    (c : Budgeted) (now : ℚ) : (startCall srv s f c now).2.cache = s.cache := by
  obtain ⟨admission, b, -, ⟨-, h⟩ | ⟨admitted, -, ⟨-, -, h⟩ | h⟩⟩ :=
    startCall_cases srv s f c now <;>
  · rw [h]
    rfl

/-- The cache is written with the result of the dispatch. -/
theorem values_resume (hs : s.cache.Values P) {c : Budgeted}
    {result : Except (Exc F) (ToolResult F)}
    (hkeep : ∀ key v, (∀ r, result = .ok r → f.key ≠ some key) → P key v → Q key v)
    (hwrite : ∀ r key, result = .ok r → f.key = some key → Q key (.dict r.val) ∧
      ∀ w, loads (dumps (.dict r.val)) = some w → Q key w) :
    (resume srv s f c result now).2.cache.Values Q := by
  unfold resume settle
  cases hkey : f.key with
  | none => exact hs.imp fun key v => hkeep key v fun _ _ => by simp [hkey]
  | some key =>
      have hunlock : ∀ cache : CacheManager F, cache.Values Q → CacheManager.Values Q
          { cache with
            l2 := if c.locked then cache.l2.releaseLock (key ++ ":lock") else cache.l2 } := by
        intro cache hcache
        apply hcache.of_store
        split <;> rfl
      apply hunlock
      cases result with
      | error exc => exact hs.imp fun key v => hkeep key v fun r hr => by cases hr
      | ok r =>
          obtain ⟨hvalue, hloads⟩ := hwrite r key rfl hkey
          refine CacheManager.Values.set (hs.imp fun k v hv hne => ?_) hvalue hloads _ _
          apply hkeep k v _ hv
          intro _ _ hk
          exact hne (Option.some.inj (hk.symm.trans hkey))

/-- A dispatch that goes on returns its result, or a value of the cache. -/
theorem values_goesOn [UnicodeDb] {t : System F} {i : ℕ} {phase : Phase F} {e : Event F}
    {next : Progress F × ServerState F} (ht : t.server.cache.Values P)
    (h : GoesOn srv t i f phase e next)
    (hkeep : ∀ key v, (∀ c r, phase = .ending c (.ok r) → f.key ≠ some key) → P key v →
      Q key v)
    (hwrite : ∀ c r key, phase = .ending c (.ok r) → f.key = some key →
      Q key (.dict r.val) ∧ ∀ w, loads (dumps (.dict r.val)) = some w → Q key w) :
    next.2.cache.Values Q ∧ ∀ v, next.1 = .ended (.ok v) →
      (∃ c r, phase = .ending c (.ok r) ∧ v = .dict r.val) ∨
      ∃ waits key now, e = .woke i now ∧ phase = .polling waits ∧ f.key = some key ∧
        t.server.cache.Stored key now ∧ P key v := by
  have hsame : (∀ c r, phase ≠ .ending c (.ok r)) → ∀ cache : CacheManager F,
      cache.Values P → cache.Values Q := by
    intro hnot cache hcache
    exact hcache.imp fun key v => hkeep key v fun c r hphase => absurd hphase (hnot c r)
  have hflow := flows_of_goesOn h
  obtain ⟨hi, ⟨a, outcome, now, rfl, rfl, rfl⟩ | ⟨now, rfl, hnext⟩ |
    ⟨timedOut, now, rfl, hnext⟩⟩ := h
  · refine ⟨?_, fun v hv => ?_⟩
    · rw [cache_afterRun]
      exact hsame (by simp) _ ht
    · rcases hflow with ⟨_, _, _, _, hsuspended⟩ | ⟨c, result, hsuspended⟩ <;>
      · rw [hsuspended] at hv
        cases hv
  · cases phase with
    | running a => simp [afterSleep] at hnext
    | starting c =>
        obtain rfl := Option.some.inj hnext
        refine ⟨?_, fun v hv => ?_⟩
        · rw [cache_startCall]
          exact hsame (by simp) _ ht
        · rcases hflow with ⟨a, hsuspended⟩ | ⟨c, result, hsuspended⟩ <;>
          · rw [hsuspended] at hv
            cases hv
    | backoff a =>
        obtain rfl := Option.some.inj hnext
        exact ⟨hsame (by simp) _ ht, fun v hv => by cases hv⟩
    | ending c result =>
        obtain rfl := Option.some.inj hnext
        refine ⟨values_resume ht ?_ ?_, fun v hv => ?_⟩
        · intro key v hnot
          apply hkeep key v
          intro _ r hphase
          injection hphase with _ hresult
          exact hnot r hresult
        · intro r key hr
          exact hwrite c r key (by rw [hr])
        · left
          rw [resume_progress] at hv
          cases result with
          | error exc => cases hv
          | ok r =>
              refine ⟨c, r, rfl, ?_⟩
              simpa [Except.map] using hv.symm
    | polling waits =>
        obtain ⟨key, hkey, rfl⟩ := Option.map_eq_some_iff.mp hnext
        rcases values_readCache ht srv f key now _ with ⟨hcache, hvalue⟩ | ⟨s', hs', hmiss⟩
        · refine ⟨hsame (by simp) _ hcache, fun v hv => Or.inr ?_⟩
          obtain ⟨hstored, hv⟩ := hvalue v hv
          exact ⟨waits, key, now, rfl, rfl, hkey, hstored, hv⟩
        · rw [hmiss]
          split
          · exact ⟨hsame (by simp) _ hs', fun v hv => by cases hv⟩
          · exact ⟨hsame (by simp) _ hs', fun v hv => by cases hv⟩
  · cases phase with
    | ending c result => simp [afterInterrupt] at hnext
    | starting c | running a | backoff a =>
        obtain rfl := Option.some.inj hnext
        exact ⟨hsame (by simp) _ ht, fun v hv => by cases hv⟩
    | polling waits =>
        obtain rfl := eq_of_afterInterrupt_polling hnext
        exact ⟨hsame (by simp) _ ht, fun v hv => by cases hv⟩

end Pieces

namespace System

variable [UnicodeDb] {srv : AtlasServer F} {t u : System F} {e : Event F}
  {P : String → Value F → Prop}

/-- Events that move no dispatch only take values out of the cache. -/
theorem values_of_not_moved (ht : t.server.cache.Values P) (h : t.Step srv e u)
    (hm : t.moved srv e = none) : u.server.cache.Values P := by
  cases e with
  | dispatch ctx env clock =>
      obtain rfl : t.arrive srv ctx env clock = u := Option.some.inj h
      rcases hgates : (gates srv ctx env clock).run t.server with ⟨exc | ⟨tool, args⟩, s⟩
      · simp only [arrive, hgates]
        rw [cache_of_gates hgates]
        exact ht
      · simp [moved, hgates] at hm
  | ran i outcome now =>
      obtain ⟨f, a, hi, rfl⟩ := step_ran h
      simp [moved, hi] at hm
  | woke i now =>
      obtain ⟨f, phase, next, hi, hnext, rfl⟩ := step_woke h
      simp [moved, hi, hnext] at hm
  | interrupt i timedOut now =>
      obtain ⟨f, phase, next, hi, hnext, rfl⟩ := step_interrupt h
      simp [moved, hi, hnext] at hm
  | invalidateKey key =>
      obtain rfl := Option.some.inj h
      exact CacheManager.Holds.delete ht key
  | invalidateTool tenant tool =>
      obtain rfl := Option.some.inj h
      exact CacheManager.Holds.invalidatePrefix ht _
  | invalidateTenant tenant =>
      obtain rfl := Option.some.inj h
      exact CacheManager.Holds.invalidatePrefix ht _
  | judge approvalId verdict approver now =>
      obtain rfl := Option.some.inj h
      exact ht

end System

/-- A dispatch waits with a result if its tool has just ended with it. -/
theorem ran_of_ending [UnicodeDb] {srv : AtlasServer F} {t : System F} {i : ℕ} {f : Flight F}
    {phase : Phase F} {e : Event F} {next : Progress F × ServerState F}
    (h : GoesOn srv t i f phase e next) {c : Budgeted} {r : ToolResult F}
    (hnext : next.1 = .suspended (.ending c (.ok r))) :
    ∃ a now, phase = .running a ∧ e = .ran i (.ok r) now := by
  have hflow := flows_of_goesOn h
  obtain ⟨hi, ⟨a, outcome, now, rfl, rfl, rfl⟩ | ⟨now, rfl, hsleep⟩ |
    ⟨timedOut, now, rfl, hinterrupt⟩⟩ := h
  · refine ⟨a, now, rfl, ?_⟩
    by_cases hretry : retries srv f a (normalised f.envelope outcome)
    · simp [afterRun, hretry] at hnext
    · simp only [afterRun, hretry, if_false, finishAttempt, Progress.suspended.injEq,
        Phase.ending.injEq] at hnext
      rcases outcome with (e | _ | typeName) | r'
      · cases hnext.2
      · cases hnext.2
      · cases hnext.2
      · have hresult : (Except.ok r' : Except (Exc F) (ToolResult F)) = .ok r := hnext.2
        rw [hresult]
  · cases phase with
    | running a => simp [afterSleep] at hsleep
    | backoff a =>
        obtain rfl := Option.some.inj hsleep
        cases hnext
    | ending c result =>
        obtain ⟨result', hend⟩ := hflow
        rw [hend] at hnext
        cases hnext
    | polling waits =>
        rcases hflow with ⟨_, hother⟩ | ⟨_, hother⟩ | ⟨_, hother⟩ <;>
        · rw [hother] at hnext
          cases hnext
    | starting c =>
        obtain rfl := Option.some.inj hsleep
        obtain ⟨admission, b, -, ⟨-, h⟩ | ⟨admitted, -, ⟨-, -, h⟩ | h⟩⟩ :=
          startCall_cases srv t.server f c now <;>
        · rw [h] at hnext
          cases hnext
  · cases phase with
    | ending c result => simp [afterInterrupt] at hinterrupt
    | starting c | running a | backoff a =>
        obtain rfl := Option.some.inj hinterrupt
        cases hnext
    | polling waits =>
        rcases hflow with ⟨_, hother⟩ | ⟨_, hother⟩ | ⟨_, hother⟩ <;>
        · rw [hother] at hnext
          cases hnext

end Server
