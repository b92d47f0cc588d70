import AtlasMcp.CacheTasks

/-!
# The stampede lock

The lock of a key is to keep other callers out until its holder releases it or its
lifetime is over.  It carries no owner, so a caller that computed for longer than the
lifetime of its lock still releases: if another caller has taken the lock in between,
it loses it.

`exclusive_of_no_late_release` says that there is nothing else: while no caller releases
the lock while another one holds it, nobody takes a lock that is held.
-/

namespace SharedCache

open PyJson PyText Errors Cache GuardedRuns TaskTurns

variable {F : Type} {L : L2Backend}

theorem lockKey_injective {key key' : String} (h : lockKey key = lockKey key') :
    key = key' := by
  have hlist := congrArg String.toList h
  simp only [lockKey, String.toList_append] at hlist
  exact String.toList_inj.mp (List.append_cancel_right hlist)

/-- The caller has taken the lock of the key, has not released it, and its
lifetime is not over. -/
def Task.Holds (c : Task F) (key : String) (now : ℚ) : Prop :=
  c.key = key ∧ ∃ lapses ∈ c.lock, now < lapses

instance (c : Task F) (key : String) (now : ℚ) : Decidable (c.Holds key now) :=
  inferInstanceAs (Decidable (_ ∧ _))

/-- A lock that has not lapsed had not lapsed at an earlier time. -/
theorem Task.Holds.earlier {c : Task F} {key : String} {now now' : ℚ}
    (h : c.Holds key now') (hle : now ≤ now') : c.Holds key now := by
  obtain ⟨hkey, lapses, hlock, hlt⟩ := h
  exact ⟨hkey, lapses, hlock, hle.trans_lt hlt⟩

namespace System

/-- The caller whose release the backend performs with the event. -/
def releaser (s : System F L) : Event F → Option (ℕ × Task F)
  | .act i .answered => do
      let c ← s.tasks[i]?
      match c.phase with
      | .releasing _ => some (i, c)
      | _ => none
  | _ => none

/-- The caller that is granted the lock with the event. -/
def acquirer (s : System F L) (now : ℚ) : Event F → Option (ℕ × Task F)
  | .act i .answered => do
      let c ← s.tasks[i]?
      match c.phase with
      | .locking =>
          if (L.acquireLock s.tiers.l2 (lockKey c.key) CacheManager.stampedeLockTtlMs now).1
          then some (i, c) else none
      | _ => none
  | _ => none

/-- No caller is granted a lock that another one holds.  A lock is held from
when it is granted until it is released, or lapses. -/
def Exclusive (s : System F L) (e : Event F × ℚ) (_ : System F L) : Prop :=
  ∀ a ∈ s.acquirer e.2 e.1, ∀ b ∈ s.tasks.eraseIdx a.1, ¬ b.Holds a.2.key e.2

/-- No caller releases a lock that another one holds.  The code does not look
whose lock it is that it releases. -/
def NoLateRelease (s : System F L) (e : Event F × ℚ) (_ : System F L) : Prop :=
  ∀ a ∈ s.releaser e.1, ∀ b ∈ s.tasks.eraseIdx a.1, ¬ b.Holds a.2.key e.2

instance (s t : System F L) (e : Event F × ℚ) : Decidable (NoLateRelease s e t) :=
  inferInstanceAs (Decidable (∀ a ∈ _, _))

instance (s t : System F L) (e : Event F × ℚ) : Decidable (Exclusive s e t) :=
  inferInstanceAs (Decidable (∀ a ∈ _, _))

/-- Whoever is about to release its lock releases it with the next answer. -/
theorem releaser_of_releasing {s : System F L} {i : ℕ} {c : Task F}
    {result : Except (Exc F) (Value F)} (hc : s.tasks[i]? = some c)
    (h : c.phase = .releasing result) : s.releaser (.act i .answered) = some (i, c) := by
  simp [releaser, hc, h]

theorem releasing_of_releaser {s : System F L} {e : Event F} {a : ℕ × Task F}
    (h : s.releaser e = some a) :
    s.tasks[a.1]? = some a.2 ∧ ∃ result, a.2.phase = .releasing result := by
  unfold releaser at h
  split at h
  next i =>
      obtain ⟨c, hc, h⟩ := Option.bind_eq_some_iff.mp h
      split at h
      next result hphase =>
          obtain rfl := Option.some.inj h
          exact ⟨hc, result, hphase⟩
      next => cases h
  next => cases h

/-- Who is granted a lock asked for it, and it was free. -/
theorem free_of_acquirer {s : System F L} {e : Event F} {now : ℚ} {a : ℕ × Task F}
    (h : s.acquirer now e = some a) : ¬ L.Locked s.tiers.l2 (lockKey a.2.key) now := by
  unfold acquirer at h
  split at h
  next i =>
      obtain ⟨c, hc, h⟩ := Option.bind_eq_some_iff.mp h
      split at h
      next hphase =>
          split at h
          next hgranted =>
              obtain rfl := Option.some.inj h
              exact L.acquireLock_iff.mp hgranted
          next => cases h
      next => cases h
  next => cases h

/-- From the time on, the backend has the lock of the caller while it holds
one. -/
def LockKept (l2 : L.State) (clock : ℚ) (c : Task F) : Prop :=
  ∀ key now, clock ≤ now → c.Holds key now → L.Locked l2 (lockKey key) now

/-- It has it later on, if the locks are as they were. -/
theorem LockKept.mono {l2 l2' : L.State} {clock clock' : ℚ} {c c' : Task F}
    (h : LockKept (L := L) l2 clock c) (hclock : clock ≤ clock')
    (hlocked : ∀ lockKey now, L.Locked l2' lockKey now ↔ L.Locked l2 lockKey now)
    (hkey : c'.key = c.key := by rfl) (hlock : c'.lock = c.lock := by rfl) :
    LockKept (L := L) l2' clock' c' := by
  intro key now hnow hholds
  obtain ⟨hk, lapses, hl, hlt⟩ := hholds
  rw [hlocked]
  exact h key now (hclock.trans hnow) ⟨hkey ▸ hk, lapses, hlock ▸ hl, hlt⟩

end System

section Turns

variable [PyFloat F]

namespace System

variable {s t : System F L} {e : Event F} {now : ℚ}

omit [PyFloat F] in
/-- An invalidation leaves the locks alone. -/
theorem locked_of_dropTurn {s : Tiers F L} {tick j : ℕ} {old : Option Drop}
    {next : Tiers F L × Drop} (h : DropTurn s tick j e old next) (lockKey : String) (now : ℚ) :
    L.Locked next.1.l2 lockKey now ↔ L.Locked s.l2 lockKey now := by
  cases h with
  | call d => rw [l2_dropL1]
  | answer hphase => exact locked_dropL2 _ _ _ _
  | finish hphase => exact Iff.rfl

/-- While no caller releases a lock that another one holds, the backend keeps
the locks of all who hold one. -/
theorem lockKept_step (hs : Each (LockKept s.tiers.l2 s.clock) s.tasks)
    (h : Step s (e, now) t) (hrelease : NoLateRelease s (e, now) t) :
    Each (LockKept t.tiers.l2 t.clock) t.tasks := by
  obtain ⟨hclock, htclock, -, hmoves⟩ := step_cases h
  rw [htclock]
  cases hmoves with
  | drop j old next hold hturn htiers hdrops htasks =>
      rw [htasks, htiers]
      refine hs.imp fun c hc key now' hnow hholds => ?_
      rw [locked_of_dropTurn hturn]
      exact hc key now' (hclock.trans hnow) hholds
  | task i old next hold hturn htiers htasks hdrops =>
      rw [htiers]
      rcases turn_cases hturn with hlocal | ⟨c, rfl, rfl, ⟨r, hphase, rfl⟩ |
        ⟨hphase, rfl⟩ | ⟨locked, value, hphase, rfl⟩ | ⟨result, hphase, rfl⟩⟩
      · refine htasks.each hs (fun j b _ _ hkept => ?_) ?_
        · rw [hlocal.l2]
          exact hkept.mono hclock fun _ _ => Iff.rfl
        · rw [hlocal.l2]
          intro key now' hnow hholds
          obtain ⟨hkey, lapses, hlock, hlt⟩ := hholds
          rw [hlocal.lock] at hlock
          obtain ⟨c, rfl, hlock⟩ := Option.bind_eq_some_iff.mp hlock
          have hckey : c.key = key := (hlocal.key c rfl).symm.trans hkey
          exact hs i c hold key now' (hclock.trans hnow) ⟨hckey, lapses, hlock, hlt⟩
      · refine htasks.each hs (fun j b _ _ hkept => ?_) ?_
        · exact hkept.mono hclock fun _ _ => L.locked_get
        · exact (hs i c hold).mono hclock fun _ _ => L.locked_get
      · cases hgranted : (L.acquireLock s.tiers.l2 (lockKey c.key)
            CacheManager.stampedeLockTtlMs now).1 with
        | false =>
            refine htasks.each hs (fun j b _ _ hkept => ?_) fun key now' hnow hholds => ?_
            · exact hkept.mono hclock fun _ _ => L.locked_acquireLock_refused hgranted
            · obtain ⟨hkey, lapses, hlock, hlt⟩ := hholds
              simp only [answerLock, hgranted] at hlock
              exact (L.locked_acquireLock_refused hgranted).mpr
                (hs i c hold key now' (hclock.trans hnow) ⟨hkey, lapses, hlock, hlt⟩)
        | true =>
            -- nobody else holds the lock that is granted
            have hfree := L.acquireLock_iff.mp hgranted
            refine htasks.each hs (fun j b _ _ hkept key now' hnow hholds => ?_)
              fun key now' hnow hholds => ?_
            · have hlocked := hkept key now' (hclock.trans hnow) hholds
              by_cases hkey : key = c.key
              · subst hkey
                exact absurd (hkept _ now hclock (hholds.earlier hnow)) hfree
              · have hne : lockKey key ≠ lockKey c.key :=
                  fun heq => hkey (lockKey_injective heq)
                exact (L.locked_acquireLock_ne hne).mpr hlocked
            · obtain ⟨rfl, lapses, hlock, hlt⟩ := hholds
              obtain rfl : now + CacheManager.stampedeLockTtlMs / 1000 = lapses := by
                simpa [answerLock, hgranted] using hlock
              exact L.locked_acquireLock hgranted hnow hlt
      · refine htasks.each hs (fun j b _ _ hkept => ?_) ?_
        · exact hkept.mono hclock fun _ _ => L.locked_set
        · exact (hs i c hold).mono hclock fun _ _ => L.locked_set
      · refine htasks.each hs (fun j b hji hb hkept key now' hnow hholds => ?_)
          fun key now' hnow hholds => ?_
        · have hne : lockKey key ≠ lockKey c.key := by
            intro heq
            obtain rfl := lockKey_injective heq
            have hother : b ∈ s.tasks.eraseIdx i :=
              List.mem_eraseIdx_iff_getElem?.mpr ⟨j, hji, hb⟩
            exact hrelease _ (releaser_of_releasing hold hphase) b hother
              (hholds.earlier hnow)
          exact (L.locked_releaseLock_ne hne).mpr (hkept key now' (hclock.trans hnow) hholds)
        · obtain ⟨-, lapses, hlock, -⟩ := hholds
          simp [answerRelease] at hlock

omit [PyFloat F] in
/-- Then nobody is granted a lock that another one holds. -/
theorem exclusive_of_lockKept (hs : Each (LockKept s.tiers.l2 s.clock) s.tasks)
    (hclock : s.clock ≤ now) : Exclusive s (e, now) t := by
  intro a ha b hb hholds
  obtain ⟨j, -, hj⟩ := List.mem_eraseIdx_iff_getElem?.mp hb
  exact free_of_acquirer ha (hs j b hj a.2.key now hclock hholds)

/-- **Exclusive, unless a lock is released late.**  In every run in which no
caller releases a lock that another one holds, no caller is granted a lock
that another one holds, however long computations take and however they
end. -/
theorem exclusive_of_no_late_release (tiers : Tiers F L) (clock : ℚ)
    (events : List (Event F × ℚ)) (s : System F L)
    (hrun : Run (Guarded Step NoLateRelease) (ofTiers tiers clock) events s) :
    Run (Guarded Step Exclusive) (ofTiers tiers clock) events s := by
  apply hrun.transfer (I := fun s => Each (LockKept s.tiers.l2 s.clock) s.tasks) each_nil
  intro s e t hs hstep
  exact ⟨lockKept_step hs hstep.1 hstep.2, hstep.1,
    exclusive_of_lockKept hs (step_cases hstep.1).1⟩

end System

end Turns

/-- The first computation fails in time, and the lock goes to the next
caller. -/
def lockHandedOver : List (Event WholeFloat × ℚ) :=
  (.call (.getOrCompute "k" none), 0) :: asksForLock 0 0 ++
    [(.act 0 (.computed (.error (.other "OSError"))), 1), (.act 0 .answered, 1),
      (.act 0 .resumed, 1), (.call (.getOrCompute "k" none), 2)] ++ asksForLock 1 2

/-- A run in which the lock goes from one holder to the next. -/
theorem lock_handed_over : ∃ s,
    Run (Guarded System.Step System.Exclusive) (.ofTiers newTiers 0) lockHandedOver s ∧
      s.tasks.map Task.lock = [none, some 7] := by
  obtain ⟨s, hs, hlocks⟩ : ∃ s ∈ execGuarded System.step System.NoLateRelease
      (.ofTiers newTiers 0) lockHandedOver,
      s.tasks.map Task.lock = [none, some 7] := by decide +kernel
  exact ⟨s, System.exclusive_of_no_late_release newTiers 0 lockHandedOver s
    (Run.of_execGuarded hs), hlocks⟩

/-- The first computation takes seven seconds and fails; its lock lapsed after
five, and the second caller took it; now it is released. -/
def releasedLate : List (Event WholeFloat × ℚ) :=
  (.call (.getOrCompute "k" none), 0) :: asksForLock 0 0 ++
    (.call (.getOrCompute "k" none), 6) :: asksForLock 1 6 ++
    [(.act 0 (.computed (.error (.other "OSError"))), 7), (.act 0 .answered, 7),
      (.call (.getOrCompute "k" none), 8), (.act 2 .answered, 8), (.act 2 .resumed, 8)]

/-- The third caller is granted the lock of the second one. -/
theorem lock_of_other_granted : ∃ s t,
    Run System.Step (.ofTiers newTiers 0) releasedLate s ∧
      System.Step s (.act 2 .answered, 8) t ∧
      ¬ System.Exclusive s (.act 2 .answered, 8) t := by
  obtain ⟨s, hs, t, ht, hbroken⟩ : ∃ s ∈ exec System.step
      (.ofTiers newTiers 0) releasedLate, ∃ t ∈ s.step (.act 2 .answered, 8),
      ¬ System.Exclusive s (.act 2 .answered, 8) t := by decide +kernel
  exact ⟨s, t, Run.of_exec hs, ht, hbroken⟩

end SharedCache
