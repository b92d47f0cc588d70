import AtlasMcp.StampedeLock
import AtlasMcp.StampedeStores

/-!
# One computation at a time

`InMemoryL2` awaits nothing, so its callers suspend only while a value is computed and
while they sleep.  If computations take no longer than a caller waits for them, which is
less than the lifetime of the lock, two computations of a key by holders of its lock do
not overlap (`oneHolder_step`).

A caller that has waited to the end in vain computes without the lock.  When the holder
of the lock fails, all who waited with it come to this end, and nothing keeps their
computations apart.  `one_computing_iff` says that there is nothing else.
-/

namespace SharedCache

open PyJson PyText Errors Cache GuardedRuns TaskTurns

variable {F : Type} {L : L2Backend}

/-- For how long a caller waits for the value of another one, in seconds. -/
def waitBudget : ℚ := CacheManager.stampedeMaxWaits * CacheManager.stampedeWaitMs / 1000

/-- The lifetime of the lock, in seconds. -/
def lockTtl : ℚ := CacheManager.stampedeLockTtlMs / 1000

/-- All the waits together are shorter than the life of the lock: a waiter
gives up before the lock of the holder lapses. -/
theorem waitBudget_lt_lockTtl : waitBudget < lockTtl := by
  norm_num [waitBudget, lockTtl, CacheManager.stampedeMaxWaits, CacheManager.stampedeWaitMs,
    CacheManager.stampedeLockTtlMs]

/-- The caller is neither computing nor asleep, nor has it ended. -/
def Phase.busy : Phase F → Bool
  | .computing _ | .sleeping _ _ | .ended _ => false
  | _ => true

/-- The caller is computing the value. -/
def Phase.isComputing : Phase F → Bool
  | .computing _ => true
  | _ => false

/-- The invalidation has not returned yet. -/
def DropPhase.busy : DropPhase → Bool
  | .returned _ _ => false
  | _ => true

/-- The event takes caller `i` on from a call of the backend. -/
def Event.takesOn (i : ℕ) : Event F → Bool
  | .act j .answered | .act j .resumed => j = i
  | _ => false

/-- The event takes invalidation `j` on. -/
def Event.takesOnDrop (j : ℕ) : Event F → Bool
  | .dropAnswered k | .dropReturned k => k = j
  | _ => false

namespace System

/-- The backend suspends nobody: a caller goes on at once, and before all
others, until it computes, sleeps or ends. -/
def AtOnce (s : System F L) (e : Event F × ℚ) (_ : System F L) : Prop :=
  (∀ c ∈ s.tasks.zipIdx, c.1.phase.busy = true → e.1.takesOn c.2 = true ∧ e.2 = s.clock) ∧
  ∀ d ∈ s.drops.zipIdx, d.1.phase.busy = true → e.1.takesOnDrop d.2 = true ∧ e.2 = s.clock

/-- No computation takes longer than a caller waits for it, so that nobody gives
up waiting. -/
def InBudget (s : System F L) (e : Event F × ℚ) (_ : System F L) : Prop :=
  ∀ c ∈ s.tasks, c.phase.isComputing = true → ∀ m ∈ c.started, e.2 ≤ m.now + waitBudget

/-- Callers over a backend in the process, with computations that end in
time. -/
def InProcess (s : System F L) (e : Event F × ℚ) (t : System F L) : Prop :=
  AtOnce s e t ∧ InBudget s e t

instance (s t : System F L) (e : Event F × ℚ) : Decidable (AtOnce s e t) :=
  inferInstanceAs (Decidable ((∀ c ∈ _, _ → _ ∧ _) ∧ ∀ d ∈ _, _ → _ ∧ _))

instance (s t : System F L) (e : Event F × ℚ) : Decidable (InBudget s e t) :=
  inferInstanceAs (Decidable (∀ c ∈ _, _ → ∀ m ∈ _, _ ≤ _))

instance (s t : System F L) (e : Event F × ℚ) : Decidable (InProcess s e t) :=
  inferInstanceAs (Decidable (_ ∧ _))

end System

/-- A caller in the locked section holds the lock, which has not lapsed;
others hold none. -/
def LockInTime (clock : ℚ) (c : Task F) : Prop :=
  match c.phase with
  | .wasLocked true => c.lock = some (clock + lockTtl)
  | .computing true => ∃ m ∈ c.started, c.lock = some (m.now + lockTtl)
  | .writing true _ | .wasWritten true _ | .releasing _ => ∃ lapses ∈ c.lock, clock < lapses
  | _ => c.lock = none

/-- A caller with a lock is in the section, so the lock has not lapsed. -/
theorem LockInTime.holds {clock now : ℚ} {c : Task F} (h : LockInTime clock c)
    (hlock : c.lock.isSome = true)
    (hcomputing : c.phase.isComputing = true → ∀ m ∈ c.started, now ≤ m.now + waitBudget)
    (hbusy : c.phase.busy = true → now = clock) : c.Holds c.key now := by
  have hbudget := waitBudget_lt_lockTtl
  have hpositive : 0 < lockTtl := by norm_num [lockTtl, CacheManager.stampedeLockTtlMs]
  have hlate : c.phase.busy = true → (∃ lapses ∈ c.lock, clock < lapses) →
      c.Holds c.key now := by
    intro hb hlapses
    obtain rfl := hbusy hb
    exact ⟨rfl, hlapses⟩
  unfold LockInTime at h
  split at h
  next hphase => exact hlate (by rw [hphase]; rfl) ⟨_, h, by linarith⟩
  next hphase =>
      obtain ⟨m, hm, hc⟩ := h
      have hle := hcomputing (by rw [hphase]; rfl) m hm
      exact ⟨rfl, _, hc, by linarith⟩
  next hphase => exact hlate (by rw [hphase]; rfl) h
  next hphase => exact hlate (by rw [hphase]; rfl) h
  next hphase => exact hlate (by rw [hphase]; rfl) h
  next => simp [h] at hlock

/-- A caller that is not busy has its lock in time whatever the time. -/
theorem LockInTime.later {clock clock' : ℚ} {c : Task F} (h : LockInTime clock c)
    (hbusy : c.phase.busy = false) : LockInTime clock' c := by
  unfold LockInTime at h ⊢
  split <;> rename_i hphase <;> simp only [hphase] at h hbusy <;>
  first | exact h | cases hbusy

section Turns

variable {s : Tiers F L} {m : Moment} {i : ℕ} {e : Event F} {old : Option (Task F)}
  {next : Tiers F L × Task F}

/-- A caller that has no lock holds none that could have lapsed, up to its
call of the backend. -/
theorem lockInTime_startGet (s : Tiers F L) {c : Task F} (r : Reader) (m : Moment)
    (hlock : c.lock = none) (clock : ℚ) : LockInTime clock (startGet s c r m).2 := by
  rcases startGet_cases s c r m with ⟨value, -, -, h⟩ | ⟨-, h⟩ <;>
  · rw [h]
    exact hlock

/-- The same for a caller that goes on with what it has read. -/
theorem lockInTime_afterGet {c : Task F} {r : Reader} {value : Value F} {m : Moment}
    (hlock : c.lock = none) (clock : ℚ) : LockInTime clock (afterGet c r value m) := by
  rcases afterGet_cases c r value m with
    ⟨-, h⟩ | ⟨-, -, h⟩ | ⟨-, waits, -, -, h⟩ | ⟨-, waits, -, -, h⟩ <;>
  · rw [h]
    exact hlock

variable [PyFloat F]

/-- The caller that moves has its lock in time. -/
theorem lockInTime_turn {clock : ℚ} (h : Turn s m i e old next)
    (hold : ∀ c ∈ old, LockInTime clock c)
    (hcomputing : ∀ c ∈ old, c.phase.isComputing = true → ∀ m' ∈ c.started,
      m.now ≤ m'.now + waitBudget)
    (hbusy : ∀ c ∈ old, c.phase.busy = true → m.now = clock) :
    LockInTime m.now next.2 := by
  cases h with
  | call r => cases r <;> exact lockInTime_startGet _ _ _ rfl _
  | wake hphase =>
      have hin := hold _ rfl
      simp only [LockInTime, hphase] at hin
      exact lockInTime_startGet _ _ _ hin _
  | answerRead hphase =>
      have hin := hold _ rfl
      simp only [LockInTime, hphase] at hin
      exact hin
  | afterRead hphase =>
      rename_i c r raw
      have hin := hold c rfl
      simp only [LockInTime, hphase] at hin
      rcases afterRead_cases s c r raw m with
        ⟨-, hget⟩ | ⟨text, -, -, hget⟩ | ⟨text, value, -, -, hget⟩ <;> rw [hget]
      · exact lockInTime_afterGet hin _
      · exact hin
      · exact lockInTime_afterGet hin _
  | answerLock hphase =>
      rename_i c
      have hin := hold c rfl
      simp only [LockInTime, hphase] at hin
      cases hgranted : (L.acquireLock s.l2 (lockKey c.key)
          CacheManager.stampedeLockTtlMs m.now).1 with
      | true => simp [answerLock, hgranted, LockInTime, lockTtl]
      | false => simpa [answerLock, hgranted, LockInTime] using hin
  | afterLock hphase =>
      rename_i c granted
      have hin := hold c rfl
      have hnow := hbusy c rfl (by rw [hphase]; rfl)
      cases granted with
      | true =>
          simp only [LockInTime, hphase] at hin
          exact ⟨m, rfl, hnow ▸ hin⟩
      | false =>
          simp only [LockInTime, hphase] at hin
          exact hin
  | afterCompute outcome hphase =>
      rename_i c locked
      have hin := hold c rfl
      cases locked with
      | true =>
          simp only [LockInTime, hphase] at hin
          obtain ⟨m', hm', hlock⟩ := hin
          have hle := hcomputing c rfl (by rw [hphase]; rfl) m' hm'
          have hlapses : ∃ lapses ∈ c.lock, m.now < lapses :=
            ⟨_, hlock, by linarith [waitBudget_lt_lockTtl]⟩
          cases outcome <;> exact hlapses
      | false =>
          simp only [LockInTime, hphase] at hin
          cases outcome <;> exact hin
  | answerWrite hphase =>
      rename_i c locked value
      have hin := hold c rfl
      have hnow := hbusy c rfl (by rw [hphase]; rfl)
      cases locked with
      | true =>
          simp only [LockInTime, hphase] at hin
          exact hnow ▸ hin
      | false =>
          simp only [LockInTime, hphase] at hin
          exact hin
  | afterWrite hphase =>
      rename_i c locked value
      have hin := hold c rfl
      have hnow := hbusy c rfl (by rw [hphase]; rfl)
      cases locked with
      | true =>
          simp only [LockInTime, hphase] at hin
          exact hnow ▸ hin
      | false =>
          simp only [LockInTime, hphase] at hin
          exact hin
  | answerRelease hphase => rfl
  | afterRelease hphase =>
      have hin := hold _ rfl
      simp only [LockInTime, hphase] at hin
      exact hin

end Turns

namespace System

variable [PyFloat F] {s t : System F L} {e : Event F} {now : ℚ}

omit [PyFloat F] in
/-- If a caller is on its way from a call of the backend, the event takes it
on, and no time passes. -/
theorem AtOnce.task (h : AtOnce s (e, now) t) {i : ℕ} {c : Task F}
    (hc : s.tasks[i]? = some c) (hbusy : c.phase.busy = true) :
    e.takesOn i = true ∧ now = s.clock :=
  h.1 (c, i) (List.mem_zipIdx_iff_getElem?.mpr hc) hbusy

/-- While a caller moves, all others compute, sleep or have ended. -/
theorem AtOnce.others (h : AtOnce s (e, now) t) {m : Moment} {i j : ℕ}
    {old : Option (Task F)} {next : Tiers F L × Task F} (hturn : Turn s.tiers m i e old next)
    (hji : j ≠ i) {b : Task F} (hb : s.tasks[j]? = some b) : b.phase.busy = false := by
  by_contra hbusy
  obtain ⟨htakes, -⟩ := h.task hb (by simpa using hbusy)
  cases hturn <;> simp only [Event.takesOn, decide_eq_true_eq, Bool.false_eq_true] at htakes <;>
  exact hji htakes.symm

omit [PyFloat F] in
/-- While an invalidation moves, no caller is on its way from a call of the
backend. -/
theorem AtOnce.drop (h : AtOnce s (e, now) t) {tick j : ℕ} {old : Option Drop}
    {next : Tiers F L × Drop} (hturn : DropTurn s.tiers tick j e old next) {i : ℕ}
    {b : Task F} (hb : s.tasks[i]? = some b) : b.phase.busy = false := by
  by_contra hbusy
  obtain ⟨htakes, -⟩ := h.task hb (by simpa using hbusy)
  cases hturn <;> simp [Event.takesOn] at htakes

/-- One caller at a time is in the locked section of a key, and its lock has
not lapsed. -/
structure OneHolder (s : System F L) : Prop where
  kept : Each (LockKept s.tiers.l2 s.clock) s.tasks
  timely : Each (LockInTime s.clock) s.tasks
  one : ∀ key, AtMostOne (fun c => c.key = key ∧ c.lock.isSome = true) s.tasks

omit [PyFloat F] in
/-- At the start there is nobody who could hold the lock. -/
theorem oneHolder_ofTiers (tiers : Tiers F L) (clock : ℚ) : (ofTiers tiers clock).OneHolder :=
  ⟨each_nil, each_nil, fun _ => atMostOne_nil⟩

omit [PyFloat F] in
/-- Where there is one holder at most, nobody releases the lock of somebody
else. -/
theorem noLateRelease_of_oneHolder (hs : s.OneHolder) : NoLateRelease s (e, now) t := by
  intro a ha b hb hholds
  obtain ⟨hac, result, hphase⟩ := releasing_of_releaser ha
  obtain ⟨j, hj, hbj⟩ := List.mem_eraseIdx_iff_getElem?.mp hb
  have htimely := hs.timely _ _ hac
  simp only [LockInTime, hphase] at htimely
  obtain ⟨lapses, hlapses, -⟩ := htimely
  obtain ⟨hkey, lapses', hlapses', -⟩ := hholds
  have hsame := hs.one a.2.key j a.1 b a.2 hbj hac ⟨hkey, by simp [Option.mem_def.mp hlapses']⟩
    ⟨rfl, by simp [Option.mem_def.mp hlapses]⟩
  exact hj hsame

/-- **One holder at a time.** -/
theorem oneHolder_step (hs : s.OneHolder) (h : Step s (e, now) t)
    (hin : InProcess s (e, now) t) : t.OneHolder := by
  have hkept := lockKept_step hs.kept h (noLateRelease_of_oneHolder hs)
  obtain ⟨hclock, htclock, -, hmoves⟩ := step_cases h
  have hbudget : ∀ (i : ℕ) (c : Task F), s.tasks[i]? = some c → c.phase.isComputing = true →
      ∀ m ∈ c.started, now ≤ m.now + waitBudget :=
    fun i c hc => hin.2 c (List.mem_of_getElem? hc)
  cases hmoves with
  | drop j old next hold hturn htiers hdrops htasks =>
      refine ⟨hkept, ?_, fun key => htasks ▸ hs.one key⟩
      rw [htasks]
      intro i c hc
      exact (hs.timely i c hc).later (hin.1.drop hturn hc)
  | task i old next hold hturn htiers htasks hdrops =>
      refine ⟨hkept, ?_, fun key => ?_⟩
      · rw [htclock]
        refine htasks.each hs.timely
          (fun j b hji hb hlock => hlock.later (hin.1.others hturn hji hb)) ?_
        apply lockInTime_turn hturn
        · exact fun c hc => hs.timely i c (hold.trans hc)
        · exact fun c hc => hbudget i c (hold.trans hc)
        · exact fun c hc hbusy => (hin.1.task (hold.trans hc) hbusy).2
      · apply htasks.atMostOne (hs.one key)
        intro hnext
        obtain ⟨hkey, hlock⟩ := hnext
        rcases turn_cases hturn with hlocal | ⟨c, rfl, rfl, ⟨r, hphase, rfl⟩ |
          ⟨hphase, rfl⟩ | ⟨locked, value, hphase, rfl⟩ | ⟨result, hphase, rfl⟩⟩
        · left
          rw [hlocal.lock] at hlock
          cases old with
          | none => cases hlock
          | some c => exact ⟨c, hold, (hlocal.key c rfl).symm.trans hkey, hlock⟩
        · exact Or.inl ⟨c, hold, hkey, hlock⟩
        · cases hgranted : (L.acquireLock s.tiers.l2 (lockKey c.key)
              CacheManager.stampedeLockTtlMs now).1 with
          | false =>
              simp only [answerLock, hgranted] at hlock
              exact Or.inl ⟨c, hold, hkey, hlock⟩
          | true =>
              right
              intro j b hji hb hother
              have hholds := (hs.timely j b hb).holds hother.2 (hbudget j b hb) fun hbusy =>
                (hin.1.task hb hbusy).2
              have hlocked := hs.kept j b hb b.key now hclock hholds
              rw [hother.1, ← hkey] at hlocked
              exact L.acquireLock_iff.mp hgranted hlocked
        · exact Or.inl ⟨c, hold, hkey, hlock⟩
        · cases hlock

omit [PyFloat F] in
theorem isComputing_startGet (s : Tiers F L) (c : Task F) (r : Reader) (m : Moment) :
    (startGet s c r m).2.phase.isComputing = false := by
  rcases startGet_cases s c r m with ⟨value, -, -, h⟩ | ⟨-, h⟩ <;>
  · rw [h]
    rfl

/-- A caller that computes after its turn has started to, with this event. -/
theorem starter_of_turn {i : ℕ} {old : Option (Task F)} {next : Tiers F L × Task F}
    (hold : s.tasks[i]? = old) (h : Turn s.tiers ⟨s.tick, now⟩ i e old next)
    (hnext : next.2.phase.isComputing = true) :
    s.starter now e = some next.2 ∧ ∀ c ∈ old, c.phase.isComputing = false := by
  have hact : ∀ c, old = some c → e = .act i .resumed → s.starter now e = some next.2 := by
    intro c hc he
    subst hc he
    obtain ⟨a, ha, hact⟩ := act_of_turn h
    obtain rfl : Action.resumed = a := by simpa using ha
    unfold Phase.isComputing at hnext
    split at hnext
    next locked hphase => simp [starter, hold, hact, hphase]
    next => cases hnext
  cases h with
  | call r => cases r <;> · rw [begin, isComputing_startGet] at hnext; cases hnext
  | wake hphase =>
      rw [isComputing_startGet] at hnext
      cases hnext
  | answerRead hphase => cases hnext
  | afterRead hphase =>
      rename_i c r raw
      refine ⟨hact c rfl rfl, fun c' hc' => ?_⟩
      obtain rfl : c = c' := Option.some.inj hc'
      rw [hphase]
      rfl
  | answerLock hphase => cases hnext
  | afterLock hphase =>
      rename_i c granted
      refine ⟨hact c rfl rfl, fun c' hc' => ?_⟩
      obtain rfl : c = c' := Option.some.inj hc'
      rw [hphase]
      rfl
  | afterCompute outcome hphase =>
      rename_i c locked
      cases outcome <;> cases locked <;> cases hnext
  | answerWrite hphase => cases hnext
  | afterWrite hphase =>
      rename_i c locked value
      cases locked <;> cases hnext
  | answerRelease hphase => cases hnext
  | afterRelease hphase => cases hnext

/-- At most one caller computes a key.  Different keys are computed at once. -/
def OneComputing (_ : System F L) (_ : Event F × ℚ) (t : System F L) : Prop :=
  ∀ key, AtMostOne (fun c => c.key = key ∧ c.phase.isComputing = true) t.tasks

/-- No caller that gave up waiting starts to compute while another one
computes, and none starts to while one that gave up waiting computes. -/
def NoOverlap (s : System F L) (e : Event F × ℚ) (_ : System F L) : Prop :=
  ∀ c ∈ s.starter e.2 e.1, ∀ b ∈ s.tasks, b.key = c.key → b.phase.isComputing = true →
    c.phase ≠ .computing false ∧ b.phase ≠ .computing false

/-- What each step keeps at which at most one caller computes. -/
structure OneAtATime (s : System F L) : Prop extends OneHolder s where
  computing : ∀ key, AtMostOne (fun c => c.key = key ∧ c.phase.isComputing = true) s.tasks

omit [PyFloat F] in
/-- A caller that computes and did not give up waiting holds the lock. -/
theorem OneHolder.lock_of_computing (hs : s.OneHolder) {i : ℕ} {c : Task F}
    (hc : s.tasks[i]? = some c) (hcomputing : c.phase.isComputing = true)
    (hlocked : c.phase ≠ .computing false) : c.lock.isSome = true := by
  have htimely := hs.timely i c hc
  unfold Phase.isComputing at hcomputing
  split at hcomputing
  next locked hphase =>
      cases locked with
      | true =>
          simp only [LockInTime, hphase] at htimely
          obtain ⟨m, -, hlock⟩ := htimely
          simp [hlock]
      | false => exact absurd hphase hlocked
  next => cases hcomputing

/-- While no computation without the lock overlaps another one, none does. -/
theorem oneComputing_of_noOverlap (hs : s.OneAtATime) (h : Step s (e, now) t)
    (hin : InProcess s (e, now) t) (hno : NoOverlap s (e, now) t) :
    OneComputing s (e, now) t := by
  have ht := oneHolder_step hs.toOneHolder h hin
  obtain ⟨-, -, -, hmoves⟩ := step_cases h
  intro key
  cases hmoves with
  | drop j old next hold hturn htiers hdrops htasks =>
      rw [htasks]
      exact hs.computing key
  | task i old next hold hturn htiers htasks hdrops =>
      apply htasks.atMostOne (hs.computing key)
      intro hnext
      obtain ⟨hkey, hcomputing⟩ := hnext
      obtain ⟨hstarter, -⟩ := starter_of_turn hold hturn hcomputing
      right
      intro j b hji hb hother
      obtain ⟨hnextLocked, hbLocked⟩ := hno next.2 hstarter b (List.mem_of_getElem? hb)
        (hother.1.trans hkey.symm) hother.2
      -- both hold the lock of the key, but only one can
      have hbt : t.tasks[j]? = some b := (htasks.2 j hji).trans hb
      have hbLock := ht.lock_of_computing hbt hother.2 hbLocked
      have hnextLock := ht.lock_of_computing htasks.1 hcomputing hnextLocked
      exact hji (ht.one key j i b next.2 hbt htasks.1 ⟨hother.1, hbLock⟩ ⟨hkey, hnextLock⟩)

/-- The caller that starts to compute is the one that moves. -/
theorem replaced_of_starter (h : Step s (e, now) t) {c' : Task F} (hc' : c' ∈ s.starter now e) :
    ∃ i, Replaced s.tasks t.tasks i c' ∧
      ∀ c ∈ s.tasks[i]?, c.phase.isComputing = false := by
  obtain ⟨i, c, next, rfl, hc, hact, rfl, locked, hphase⟩ := act_of_starter hc'
  obtain ⟨-, -, -, hmoves⟩ := step_cases h
  cases hmoves with
  | drop j old next hold hturn htiers hdrops htasks => cases hturn
  | task k old next' hold hturn htiers htasks hdrops =>
      obtain rfl : k = i := place_of_turn hturn
      obtain rfl : some c = old := hc.symm.trans hold
      obtain ⟨a, ha, hact'⟩ := act_of_turn hturn
      obtain rfl : Action.resumed = a := by simpa using ha
      obtain rfl : next = next' := Option.some.inj (hact.symm.trans hact')
      have hstarts : next.2.phase.isComputing = true := by
        rw [hphase]
        rfl
      refine ⟨k, htasks, ?_⟩
      rw [hold]
      exact (starter_of_turn hold hturn hstarts).2

/-- A caller that starts to compute does so beside all who compute. -/
theorem noOverlap_of_oneComputing (h : Step s (e, now) t)
    (hone : OneComputing s (e, now) t) : NoOverlap s (e, now) t := by
  intro c hc b hb hkey hcomputing
  obtain ⟨i, htasks, hbefore⟩ := replaced_of_starter h hc
  obtain ⟨j, hj⟩ := List.mem_iff_getElem?.mp hb
  have hji : j ≠ i := by
    intro hji
    subst hji
    rw [hbefore b hj] at hcomputing
    cases hcomputing
  have hbt : t.tasks[j]? = some b := (htasks.2 j hji).trans hj
  obtain ⟨-, -, -, -, -, -, -, locked, hphase⟩ := act_of_starter hc
  have hstarts : c.phase.isComputing = true := by
    rw [hphase]
    rfl
  exact absurd (hone c.key j i b c hbt htasks.1 ⟨hkey, hcomputing⟩ ⟨rfl, hstarts⟩) hji

/-- **One computation at a time, unless a caller gives up waiting.**  In a run
of callers over a backend in the process, with computations that end in time
and succeed or fail, there is never more than one computation of a key, if and
only if no computation of a caller that gave up waiting overlaps another
one. -/
theorem one_computing_iff (tiers : Tiers F InMemoryL2.backend) (clock : ℚ)
    (events : List (Event F × ℚ)) (s : System F InMemoryL2.backend) :
    Run (Guarded (Guarded Step InProcess) OneComputing) (ofTiers tiers clock) events s ↔
      Run (Guarded (Guarded Step InProcess) NoOverlap) (ofTiers tiers clock) events s := by
  apply run_guarded_iff (I := OneAtATime) ⟨oneHolder_ofTiers tiers clock, fun _ => atMostOne_nil⟩
  · intro s e t hs hstep hone
    exact ⟨oneHolder_step hs.toOneHolder hstep.1 hstep.2, hone⟩
  · intro s e t hs hstep
    constructor
    · exact noOverlap_of_oneComputing hstep.1
    · exact oneComputing_of_noOverlap hs hstep.1 hstep.2

end System

/-- A caller that sleeps wakes, reads L2, and goes on. -/
def polls (i : ℕ) (now : ℚ) : List (Event WholeFloat × ℚ) :=
  [(.act i .resumed, now), (.act i .answered, now), (.act i .resumed, now)]

/-- Two callers poll for a time, every 25 ms. -/
def pollTogether (first count : ℕ) : List (Event WholeFloat × ℚ) :=
  (List.range' first count).flatMap fun n => polls 1 (n / 40) ++ polls 2 (n / 40)

/-- The first computation fails after nine tenths of a second; then the two
callers that waited for it have waited for a second. -/
def failedLate : List (Event WholeFloat × ℚ) :=
  (.call (.getOrCompute "k" none), 0) :: asksForLock 0 0 ++
    (.call (.getOrCompute "k" none), 0) :: asksForLock 1 0 ++
    (.call (.getOrCompute "k" none), 0) :: asksForLock 2 0 ++
    pollTogether 1 35 ++
    [(.act 0 (.computed (.error (.other "OSError"))), 9 / 10), (.act 0 .answered, 9 / 10),
      (.act 0 .resumed, 9 / 10)] ++ pollTogether 36 5

/-- Both compute. -/
theorem two_computations_overlap : ∃ s,
    Run (Guarded System.Step System.InProcess) (.ofTiers newTiers 0) failedLate s ∧
      ¬ AtMostOne (fun c => c.key = "k" ∧ c.phase.isComputing = true) s.tasks := by
  obtain ⟨s, hs, htwo⟩ : ∃ s ∈ execGuarded System.step System.InProcess
      (.ofTiers newTiers 0) failedLate,
      s.tasks.map (fun c => (c.key, c.phase.isComputing)) =
        [("k", false), ("k", true), ("k", true)] := by decide +kernel
  have hat : ∀ i : ℕ, (s.tasks.map fun c => (c.key, c.phase.isComputing))[i]? =
      some ("k", true) → ∃ c, s.tasks[i]? = some c ∧ c.key = "k" ∧
        c.phase.isComputing = true := by
    intro i hi
    simpa using hi
  rw [htwo] at hat
  refine ⟨s, Run.of_execGuarded hs, fun hone => ?_⟩
  obtain ⟨b, hb, hbk⟩ := hat 1 rfl
  obtain ⟨c, hc, hck⟩ := hat 2 rfl
  have hsame := hone 1 2 b c hb hc hbk hck
  omega

end SharedCache
