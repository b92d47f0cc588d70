import AtlasMcp.BreakerInterleavings

/-!
# The failure window of a circuit breaker

A closed breaker is to open when enough counted failures have completed within
its window.  The record of failures is pruned when a call arrives and counted when
one ends, so a failure that left the window in between is still counted.

`exact_trips_iff` says that nothing else goes wrong: the breaker opens exactly
on the failures within the window, in the runs where a failure that fills the
record of a closed breaker finds no expired one in it.
-/

namespace Reliability

open Errors GuardedRuns CircuitBreaker

variable {F α : Type}

namespace System

/-- `f` lies in the window that ends at `now`.  Both ends of the window belong
to it. -/
def InWindow (s : System) (now f : ℚ) : Prop :=
  now - s.breaker.windowSeconds ≤ f ∧ f ≤ now

instance (s : System) (now f : ℚ) : Decidable (s.InWindow now f) :=
  inferInstanceAs (Decidable (_ ∧ _))

/-- The failures since the record was last cleared, with one at `now`, that
lie in the window ending at `now`. -/
def failuresInWindow (s : System) (now : ℚ) : ℕ :=
  (s.recorded ++ [now]).countP (s.InWindow now ·)

/-- The breaker goes from `CLOSED` to `OPEN` exactly if a counted failure
completes and, with it, the window holds as many failures as the threshold
asks for. -/
def ExactTrip (s : System) (e : Event F α) (t : System) : Prop :=
  (s.breaker.state = .closed ∧ t.breaker.state = .opened) ↔
    (s.breaker.state = .closed ∧ ∃ i outcome now, e = .finish i outcome now ∧
      Fails outcome ∧ s.breaker.failureThreshold ≤ s.failuresInWindow now)

/-- A failure that brings the record of a closed breaker up to a positive
threshold finds no expired one in it. -/
def FreshRecord (s : System) : Event F α → System → Prop
  | .call _, _ => True
  | .finish _ outcome now, _ => s.breaker.state = .closed → Fails outcome →
      0 < s.breaker.failureThreshold →
      s.breaker.failureThreshold ≤ s.breaker.failures.length + 1 →
      ∀ f ∈ s.breaker.failures ++ [now], now - s.breaker.windowSeconds ≤ f

/-- The breaker's record is what is left of the failures since it was last
cleared after some that left the window; it stays below the threshold. -/
structure Recording (s : System) : Prop where
  split : ∃ expired, s.recorded = expired ++ s.breaker.failures ∧
    ∀ f ∈ expired, f < s.clock - s.breaker.windowSeconds
  past : ∀ f ∈ s.recorded, f ≤ s.clock
  below : s.breaker.failures = [] ∨
    (s.breaker.failures.length : ℤ) < s.breaker.failureThreshold

/-- The failures in the window are those of the breaker's record that are. -/
theorem failuresInWindow_eq {s : System} (hinv : s.Recording) {now : ℚ}
    (hclock : s.clock ≤ now) :
    s.failuresInWindow now = (s.breaker.failures ++ [now]).countP fun f =>
      now - s.breaker.windowSeconds ≤ f := by
  obtain ⟨expired, hsplit, hexpired⟩ := hinv.split
  have hnone : expired.countP (s.InWindow now ·) = 0 := by
    apply List.countP_eq_zero.mpr
    intro f hf
    have hold : ¬ s.InWindow now f := fun h => by linarith [h.1, hexpired f hf]
    simpa using hold
  rw [failuresInWindow, hsplit, List.append_assoc, List.countP_append, hnone, zero_add]
  apply List.countP_congr
  intro f hf
  have hpast : f ≤ now := by
    rcases List.mem_append.mp hf with hf | hf
    · exact (hinv.past f (hsplit ▸ List.mem_append_right _ hf)).trans hclock
    · exact (List.mem_singleton.mp hf).le
  simp [InWindow, hpast]

/-- No more failures count than the record holds. -/
theorem failuresInWindow_le {s : System} (hinv : s.Recording) {now : ℚ}
    (hclock : s.clock ≤ now) :
    s.failuresInWindow now ≤ s.breaker.failures.length + 1 := by
  rw [failuresInWindow_eq hinv hclock]
  exact List.countP_le_length.trans_eq (by simp)

/-- All of the record counts exactly if none of it has expired. -/
theorem threshold_le_failuresInWindow_iff {s : System} (hinv : s.Recording) {now : ℚ}
    (hclock : s.clock ≤ now)
    (hfull : s.breaker.failureThreshold ≤ s.breaker.failures.length + 1) :
    s.breaker.failureThreshold ≤ s.failuresInWindow now ↔
      (0 < s.breaker.failureThreshold →
        ∀ f ∈ s.breaker.failures ++ [now], now - s.breaker.windowSeconds ≤ f) := by
  rw [failuresInWindow_eq hinv hclock]
  rcases le_or_gt s.breaker.failureThreshold 0 with hzero | hpos
  · exact iff_of_true (hzero.trans (Int.natCast_nonneg _)) fun h => absurd h hzero.not_gt
  · have hexact : s.breaker.failureThreshold =
        ((s.breaker.failures ++ [now]).length : ℕ) := by
      rw [List.length_append, List.length_singleton]
      rcases hinv.below with hnil | hbelow
      · rw [hnil] at hfull ⊢
        simp only [List.length_nil] at hfull ⊢
        omega
      · push_cast
        omega
    rw [hexact, Nat.cast_le, List.countP_le_length.ge_iff_eq, List.countP_eq_length,
      ← hexact]
    simp [hpos]

/-- Nothing counts before the first failure. -/
theorem recording_of_cleared {s : System} (hrecorded : s.recorded = [])
    (hfailures : s.breaker.failures = []) : s.Recording :=
  ⟨⟨[], by simp [hrecorded, hfailures]⟩, by simp [hrecorded], Or.inl hfailures⟩

/-- Time passes, and `gone` is pruned from the record. -/
theorem recording_prune {s t : System} (hinv : s.Recording) {now : ℚ}
    (hclock : s.clock ≤ now) (htclock : t.clock = now) {gone : List ℚ}
    (hgone : ∀ f ∈ gone, f < now - s.breaker.windowSeconds)
    (hrecorded : t.recorded = s.recorded)
    (hfailures : s.breaker.failures = gone ++ t.breaker.failures)
    (hwindow : t.breaker.windowSeconds = s.breaker.windowSeconds)
    (hthreshold : t.breaker.failureThreshold = s.breaker.failureThreshold) :
    t.Recording := by
  obtain ⟨expired, hsplit, hexpired⟩ := hinv.split
  refine ⟨⟨expired ++ gone, ?_, fun f hf => ?_⟩, fun f hf => ?_, ?_⟩
  · rw [hrecorded, hsplit, hfailures, List.append_assoc]
  · rw [htclock, hwindow]
    rcases List.mem_append.mp hf with hf | hf
    · linarith [hexpired f hf]
    · exact hgone f hf
  · rw [htclock]
    exact (hinv.past f (hrecorded ▸ hf)).trans hclock
  · rw [hthreshold]
    rcases hinv.below with hnil | hbelow
    · left
      exact (List.append_eq_nil_iff.mp (hfailures ▸ hnil)).2
    · right
      have hlength : s.breaker.failures.length =
          gone.length + t.breaker.failures.length := by
        rw [hfailures, List.length_append]
      omega

/-- A failure is recorded that does not trip the breaker. -/
theorem recording_record {s t : System} (hinv : s.Recording) {now : ℚ}
    (hclock : s.clock ≤ now) (htclock : t.clock = now)
    (hrecorded : t.recorded = s.recorded ++ [now])
    (hfailures : t.breaker.failures = s.breaker.failures ++ [now])
    (hwindow : t.breaker.windowSeconds = s.breaker.windowSeconds)
    (hthreshold : t.breaker.failureThreshold = s.breaker.failureThreshold)
    (hnot : ¬ s.breaker.TripsOn) : t.Recording := by
  obtain ⟨expired, hsplit, hexpired⟩ := hinv.split
  refine ⟨⟨expired, by rw [hrecorded, hfailures, hsplit, List.append_assoc],
    fun f hf => ?_⟩, fun f hf => ?_, Or.inr ?_⟩
  · rw [htclock, hwindow]
    linarith [hexpired f hf]
  · rw [htclock]
    rcases List.mem_append.mp (hrecorded ▸ hf) with hf | hf
    · exact (hinv.past f hf).trans hclock
    · exact (List.mem_singleton.mp hf).le
  · simp only [TripsOn, not_or, not_le] at hnot
    rw [hfailures, hthreshold, List.length_append]
    simpa using hnot.2

/-- An arrival prunes the record. -/
theorem recording_arrive {s : System} (hinv : s.Recording) {now : ℚ}
    (hclock : s.clock ≤ now) : (s.arrive now).Recording := by
  have hgone : ∀ f ∈ s.breaker.failures.takeWhile
      (fun f => f < now - s.breaker.windowSeconds), f < now - s.breaker.windowSeconds :=
    fun f hf => by simpa using List.mem_takeWhile_imp hf
  have hsplit : s.breaker.failures = s.breaker.failures.takeWhile
      (fun f => f < now - s.breaker.windowSeconds) ++ s.breaker.pruned now :=
    List.takeWhile_append_dropWhile.symm
  rcases s.breaker.enter_cases now with ⟨hstate, heq⟩ | ⟨-, heq⟩ | ⟨-, heq⟩ <;>
    refine recording_prune hinv hclock ?_ hgone ?_ (hsplit.trans ?_) ?_ ?_ <;>
    clear hsplit hgone <;>
    simp_all [arrive, moveTo, Clears]

/-- The end of every call keeps the record. -/
theorem recording_leave {s : System} (hinv : s.Recording) {now : ℚ}
    (hclock : s.clock ≤ now) (i : ℕ) (flight : Flight)
    (outcome : Except (Exc F) α) : (s.leave i flight outcome now).Recording := by
  rcases s.breaker.finish_cases flight.admission outcome now with
    ⟨hf, -, heq⟩ | ⟨hf, hnot, heq⟩ | ⟨-, -, hhalf, heq⟩ | ⟨hf, hnot, heq⟩
  · apply recording_of_cleared <;>
      simp [leave, moveTo, Clears, heq, trip, withFlag]
  · refine recording_record hinv hclock ?_ ?_ ?_ ?_ ?_ hnot <;>
      simp_all [leave, moveTo, Clears, withFlag]
  · apply recording_of_cleared <;>
      simp [leave, moveTo, Clears, heq, hhalf, withFlag]
  · have hgone : ∀ f ∈ ([] : List ℚ), f < now - s.breaker.windowSeconds := by simp
    refine recording_prune hinv hclock rfl hgone ?_ ?_ ?_ ?_ <;>
      simp_all [leave, moveTo, Clears, withFlag]

/-- Of the ways a call can end, only a failure that fills the record opens a
closed breaker. -/
theorem finish_opens_closed_iff {b : CircuitBreaker} (hclosed : b.state = .closed)
    (admission : Admission) (outcome : Except (Exc F) α) (now : ℚ) :
    (b.finish admission outcome now).state = .opened ↔
      Fails outcome ∧ b.failureThreshold ≤ b.failures.length + 1 := by
  have hne : b.state ≠ .opened := by simp [hclosed]
  have htrips : b.TripsOn ↔ b.failureThreshold ≤ b.failures.length + 1 := by
    simp [TripsOn, hclosed]
  rw [finish_opens_iff hne, htrips]

/-- **Exact trips.**  In a run from a new breaker every change from `CLOSED`
to `OPEN` is an exact trip, and no trip is missed, if and only if the failures
that bring the record of a closed breaker up to the threshold find it
fresh. -/
theorem exact_trips_iff (name : String)
    (failureThreshold recoverySeconds windowSeconds : ℤ) (clock : ℚ)
    (events : List (Event F α)) (t : System) :
    Run (Guarded Step ExactTrip)
        (start name failureThreshold recoverySeconds windowSeconds clock) events t ↔
      Run (Guarded Step FreshRecord)
        (start name failureThreshold recoverySeconds windowSeconds clock) events t := by
  refine run_guarded_iff (I := Recording) (recording_of_cleared rfl rfl)
    (fun s e t hinv hstep _ => ?_) (fun s e t hinv hstep => ?_)
  · rcases step_cases hstep with
      ⟨now, -, hclock, rfl⟩ | ⟨i, flight, outcome, now, -, hclock, -, rfl⟩
    · exact recording_arrive hinv hclock
    · exact recording_leave hinv hclock i flight outcome
  · rcases step_cases hstep with
      ⟨now, rfl, -, rfl⟩ | ⟨i, flight, outcome, now, rfl, hclock, -, rfl⟩
    · obtain ⟨-, -, hopened, -⟩ := s.breaker.enter_opens_nothing now
      refine iff_of_true (iff_of_false ?_ ?_) trivial
      · intro h
        obtain ⟨hclosed, hstate⟩ := h
        rw [breaker_arrive] at hstate
        have hwas := hopened hstate
        rw [hclosed] at hwas
        cases hwas
      · intro h
        obtain ⟨_, _, _, _, hevent, _⟩ := h
        cases hevent
    · by_cases hclosed : s.breaker.state = .closed
      · have hopens := finish_opens_closed_iff hclosed flight.admission outcome now
        have hstate : (s.leave i flight outcome now).breaker =
          s.breaker.finish flight.admission outcome now := rfl
        have hle := failuresInWindow_le hinv hclock
        by_cases hf : Fails outcome
        · by_cases hfull : s.breaker.failureThreshold ≤ s.breaker.failures.length + 1
          · simp [ExactTrip, FreshRecord, hstate, hopens, hclosed, hf, hfull,
              threshold_le_failuresInWindow_iff hinv hclock hfull]
          · have hlow : ¬ s.breaker.failureThreshold ≤ s.failuresInWindow now := by omega
            simp [ExactTrip, FreshRecord, hstate, hopens, hclosed, hf, hfull, hlow]
        · simp [ExactTrip, FreshRecord, hstate, hopens, hclosed, hf]
      · simp [ExactTrip, FreshRecord, hclosed]

end System

/-- Two failures a hundred seconds apart, of calls that overlap. -/
def distantFailures : List (Event ℚ Unit) :=
  [.call 0, .call 0, .finish 0 transientFailure 0, .finish 0 transientFailure 100]

/-- A breaker with a threshold of two failures within sixty seconds opens on
them. -/
theorem distant_failures_trip :
    ∃ s t, Run System.Step (System.start "t" 2 30 60 0) (distantFailures.take 3) s ∧
      s.Step (.finish 0 transientFailure 100 : Event ℚ Unit) t ∧
      s.breaker.state = .closed ∧ t.breaker.state = .opened ∧
      s.failuresInWindow 100 = 1 := by
  obtain ⟨s, hs, hstate⟩ : ∃ s ∈ exec System.step (System.start "t" 2 30 60 0)
      (distantFailures.take 3), ∃ t ∈ s.step (.finish 0 transientFailure 100),
        s.breaker.state = .closed ∧ t.breaker.state = .opened ∧
          s.failuresInWindow 100 = 1 := by
    decide +kernel
  obtain ⟨t, ht, hstate⟩ := hstate
  exact ⟨s, t, Run.of_exec hs, ht, hstate⟩

end Reliability
