import AtlasMcp.BreakerInterleavings

/-!
# Calls that outlive their period

The period of a call is the stretch between two state changes in which it was
admitted.  When a call ends in a later period the breaker does not know it: a
failure of such a call trips a half-open breaker, fills the record of an open one,
and opens it again; and the return of an old probe closes a half-open breaker.

`orderly_iff` says which runs are spared: those where every call that outlives
its period ends harmlessly.
-/

namespace Reliability

open Errors GuardedRuns CircuitBreaker

variable {F α : Type}

namespace System

/-- A call of an earlier period does not end with a failure that trips the
breaker, nor, as a probe, by returning while the breaker is half-open. -/
def StaleHarmless (s : System) : Event F α → System → Prop
  | .call _, _ => True
  | .finish i outcome _, _ => ∀ flight, s.inFlight[i]? = some flight →
      flight.period ≠ s.period →
        (Fails outcome → ¬ s.breaker.TripsOn) ∧
        (flight.admission = .probe → Returns outcome → s.breaker.state ≠ .halfOpen)

/-- What the periods of a breaker are for: a call that was admitted in one of
them has no effect in a later one. -/
structure Orderly (s : System) (e : Event F α) (t : System) : Prop where
  /-- A call of an earlier period changes nothing. -/
  stale_unchanged : ∀ i outcome now, e = .finish i outcome now →
    ∀ flight, s.inFlight[i]? = some flight → flight.period ≠ s.period →
      t.breaker.state = s.breaker.state ∧
      t.breaker.openedAt = s.breaker.openedAt ∧ t.breaker.trips = s.breaker.trips
  /-- The trips are the transitions to `OPEN`. -/
  trips_eq : t.breaker.trips = t.openings
  /-- The recovery window is not pushed back. -/
  window_kept : s.breaker.state = .opened → t.breaker.state = .opened →
    t.breaker.openedAt = s.breaker.openedAt
  /-- Only a probe of the current period closes or opens a half-open
  breaker. -/
  probe_decides : s.breaker.state = .halfOpen → t.breaker.state ≠ .halfOpen →
    ∃ i outcome now flight, e = .finish i outcome now ∧
      s.inFlight[i]? = some flight ∧ flight.admission = .probe ∧
      flight.period = s.period

/-- The state a call of the current period was admitted in. -/
def admittedIn : Admission → State
  | .direct => .closed
  | .probe => .halfOpen

/-- The periods of the calls in flight, and the trips counted.  A call of the
present period was admitted in the present state. -/
structure Timely (s : System) : Prop where
  period_le : ∀ flight ∈ s.inFlight, flight.period ≤ s.period
  state_eq : ∀ flight ∈ s.inFlight, flight.period = s.period →
    s.breaker.state = admittedIn flight.admission
  trips_eq : s.breaker.trips = s.openings

/-- The bookkeeping of a change keeps the periods of the calls in flight, if
it counts its trips. -/
theorem timely_moveTo {s : System} (hinv : s.Timely) (b' : CircuitBreaker) (now : ℚ)
    (failed : List ℚ)
    (htrips : b'.trips = (s.moveTo b' now failed).openings) :
    (s.moveTo b' now failed).Timely := by
  have hle := hinv.period_le
  have heq := hinv.state_eq
  refine ⟨fun f hf => ?_, fun f hf hperiod => ?_, htrips⟩
  · have hbefore : f.period ≤ s.period := hle f hf
    simp only [moveTo]
    split <;> omega
  · have hbefore : f.period ≤ s.period := hle f hf
    simp only [moveTo] at hperiod ⊢
    split at hperiod
    next hsame => exact hsame.trans (heq f hf hperiod)
    next => omega

/-- Calls that leave take their own period along only. -/
theorem Timely.of_subset {s : System} (hinv : s.Timely) {fs : List Flight}
    (hsub : fs ⊆ s.inFlight) : Timely { s with inFlight := fs } :=
  ⟨fun f hf => hinv.period_le f (hsub hf), fun f hf => hinv.state_eq f (hsub hf),
    hinv.trips_eq⟩

/-- The state after an arrival fits the call it lets through. -/
theorem enter_state {b : CircuitBreaker} {now : ℚ} {admission : Admission}
    (h : (b.enter now).1 = some admission) :
    (b.enter now).2.state = admittedIn admission := by
  rcases b.enter_cases now with ⟨hclosed, heq⟩ | ⟨-, heq⟩ | ⟨-, heq⟩ <;>
    rw [heq] at h ⊢ <;> cases h
  · exact hclosed
  · rfl

/-- An arrival keeps the periods. -/
theorem timely_arrive {s : System} (hinv : s.Timely) (now : ℚ) :
    (s.arrive now).Timely := by
  obtain ⟨htrips, -, hopened, -⟩ := s.breaker.enter_opens_nothing now
  have hmoved : (s.moveTo (s.breaker.enter now).2 now []).Timely := by
    apply timely_moveTo hinv
    have hnot : ¬ (s.breaker.state ≠ .opened ∧ (s.breaker.enter now).2.state = .opened) :=
      fun h => h.1 (hopened h.2)
    simp only [moveTo, hnot, if_false]
    rw [htrips, hinv.trips_eq]
  cases hadm : (s.breaker.enter now).1 with
  | none => simpa only [arrive, hadm] using hmoved
  | some admission =>
      simp only [arrive, hadm]
      refine ⟨fun f hf => ?_, fun f hf hperiod => ?_, hmoved.trips_eq⟩
      · rcases List.mem_append.mp hf with hf | hf
        · exact hmoved.period_le f hf
        · rw [List.mem_singleton.mp hf]
      · rcases List.mem_append.mp hf with hf | hf
        · exact hmoved.state_eq f hf hperiod
        · rw [List.mem_singleton.mp hf]
          exact enter_state hadm

/-- What the end of a call does to the trips: it adds one where the failure
trips the breaker. -/
theorem finish_trips {b : CircuitBreaker} {admission : Admission}
    {outcome : Except (Exc F) α} {now : ℚ} :
    (b.finish admission outcome now).trips =
      b.trips + if Fails outcome ∧ b.TripsOn then 1 else 0 := by
  rcases b.finish_cases admission outcome now with
    ⟨hf, htrips, heq⟩ | ⟨-, hnot, heq⟩ | ⟨-, hret, -, heq⟩ | ⟨hnot, -, heq⟩
  · simp [heq, hf, htrips, withFlag, trip]
  · simp [heq, hnot, withFlag]
  · have hnot : ¬ Fails outcome := fun hf => not_returns_of_fails hf hret
    simp [heq, hnot, withFlag]
  · simp [heq, hnot, withFlag]

/-- A call that trips nothing and closes nothing changes nothing. -/
theorem finish_unchanged {b : CircuitBreaker} {admission : Admission}
    {outcome : Except (Exc F) α} (now : ℚ) (htrips : Fails outcome → ¬ b.TripsOn)
    (hcloses : admission = .probe → Returns outcome → b.state ≠ .halfOpen) :
    (b.finish admission outcome now).state = b.state ∧
      (b.finish admission outcome now).openedAt = b.openedAt ∧
      (b.finish admission outcome now).trips = b.trips := by
  rcases b.finish_cases admission outcome now with
    ⟨hf, ht, -⟩ | ⟨-, -, heq⟩ | ⟨hp, hr, hh, -⟩ | ⟨-, -, heq⟩
  · exact absurd ht (htrips hf)
  · simp [heq, withFlag]
  · exact absurd hh (hcloses hp hr)
  · simp [heq, withFlag]

/-- Nothing else changes nothing. -/
theorem harmless_of_unchanged {b : CircuitBreaker} {admission : Admission}
    {outcome : Except (Exc F) α} {now : ℚ}
    (hstate : (b.finish admission outcome now).state = b.state)
    (htrips : (b.finish admission outcome now).trips = b.trips) :
    (Fails outcome → ¬ b.TripsOn) ∧
      (admission = .probe → Returns outcome → b.state ≠ .halfOpen) := by
  refine ⟨fun hf ht => ?_, fun hp hr hh => ?_⟩
  · simp [finish_trips, hf, ht] at htrips
  · rcases b.finish_cases admission outcome now with
      ⟨hf, -, -⟩ | ⟨hf, -, -⟩ | ⟨-, -, -, heq⟩ | ⟨-, hnot, -⟩
    · exact not_returns_of_fails hf hr
    · exact not_returns_of_fails hf hr
    · simp [heq, withFlag, hh] at hstate
    · exact hnot ⟨hp, hr, hh⟩

/-- The end of a call of the current period: it changes the state only as a
failure that trips the breaker or a probe that closes it, both from the state
it was admitted in. -/
theorem leave_current {s : System} (hinv : s.Timely) {i : ℕ} {flight : Flight}
    (hi : s.inFlight[i]? = some flight) (hperiod : flight.period = s.period)
    (outcome : Except (Exc F) α) (now : ℚ) :
    s.breaker.state ≠ .opened ∧
      (s.breaker.state = .halfOpen → flight.admission = .probe) ∧
      ((s.breaker.finish flight.admission outcome now).state = .opened ↔
        Fails outcome ∧ s.breaker.TripsOn) := by
  have hstate := hinv.state_eq flight (List.mem_of_getElem? hi) hperiod
  have hne : s.breaker.state ≠ .opened := by
    rw [hstate]
    cases flight.admission <;> decide
  have hprobe : s.breaker.state = .halfOpen → flight.admission = .probe := by
    intro hhalf
    cases hadm : flight.admission with
    | probe => rfl
    | direct => simp [hstate, hadm, admittedIn] at hhalf
  exact ⟨hne, hprobe, finish_opens_iff hne flight.admission outcome now⟩

/-- The end of a call keeps the periods if it counts its trip. -/
theorem timely_leave {s : System} (hinv : s.Timely) {i : ℕ} {flight : Flight}
    {outcome : Except (Exc F) α} {now : ℚ}
    (htrips : (s.leave i flight outcome now).breaker.trips =
      (s.leave i flight outcome now).openings) :
    (s.leave i flight outcome now).Timely :=
  (timely_moveTo hinv _ now (if Fails outcome then [now] else []) htrips).of_subset
    List.eraseIdx_subset

/-- A harmless end is an orderly event. -/
theorem orderly_leave {s : System} (hinv : s.Timely) {i : ℕ} {flight : Flight}
    (hi : s.inFlight[i]? = some flight) (outcome : Except (Exc F) α) (now : ℚ)
    (hharmless : flight.period ≠ s.period →
      (Fails outcome → ¬ s.breaker.TripsOn) ∧
      (flight.admission = .probe → Returns outcome → s.breaker.state ≠ .halfOpen)) :
    s.Orderly (.finish i outcome now) (s.leave i flight outcome now) := by
  by_cases hperiod : flight.period = s.period
  · obtain ⟨hne, hprobe, hopened⟩ := leave_current hinv hi hperiod outcome now
    refine ⟨?_, ?_, fun hstate => absurd hstate hne, fun hhalf _ => ?_⟩
    · intro i' outcome' now' hevent g hg hstale
      cases hevent
      rw [hi] at hg
      exact absurd (Option.some.inj hg ▸ hperiod) hstale
    · simp only [leave, moveTo, hopened, finish_trips, hinv.trips_eq, ne_eq, hne,
        not_false_iff, true_and]
      split_ifs <;> rfl
    · exact ⟨i, outcome, now, flight, rfl, hi, hprobe hhalf, hperiod⟩
  · obtain ⟨htripless, hopen⟩ := hharmless hperiod
    obtain ⟨hstate, hopenedAt, htrips⟩ := finish_unchanged now htripless hopen
    refine ⟨fun _ _ _ _ _ _ _ => ⟨hstate, hopenedAt, htrips⟩, ?_,
      fun _ _ => hopenedAt, fun hhalf hnot => absurd (hstate.trans hhalf) hnot⟩
    have hnot : ¬ (s.breaker.state ≠ .opened ∧
        (s.breaker.finish flight.admission outcome now).state = .opened) := by
      rw [hstate]
      exact fun h => h.1 h.2
    simp only [leave, moveTo, hnot, if_false, htrips, hinv.trips_eq]

/-- **Calls that outlive their period.**  A run from a new breaker is orderly
at every event if and only if every call of an earlier period ends
harmlessly. -/
theorem orderly_iff (name : String)
    (failureThreshold recoverySeconds windowSeconds : ℤ) (clock : ℚ)
    (events : List (Event F α)) (t : System) :
    Run (Guarded Step Orderly)
        (start name failureThreshold recoverySeconds windowSeconds clock) events t ↔
      Run (Guarded Step StaleHarmless)
        (start name failureThreshold recoverySeconds windowSeconds clock) events t := by
  refine run_guarded_iff (I := Timely) ⟨by simp [start], by simp [start], rfl⟩
    (fun s e t hinv hstep horderly => ?_) (fun s e t hinv hstep => ?_)
  · rcases step_cases hstep with ⟨now, -, -, rfl⟩ | ⟨i, flight, outcome, now, -, -, hi, rfl⟩
    · exact timely_arrive hinv now
    · exact timely_leave hinv horderly.trips_eq
  · rcases step_cases hstep with
      ⟨now, rfl, -, rfl⟩ | ⟨i, flight, outcome, now, rfl, -, hi, rfl⟩
    · obtain ⟨-, hopenedAt, -, hhalf⟩ := s.breaker.enter_opens_nothing now
      refine iff_of_true ⟨?_, (timely_arrive hinv now).trips_eq, ?_, ?_⟩ trivial
      · intro i outcome now' hevent
        cases hevent
      · exact fun _ _ => by rw [breaker_arrive, hopenedAt]
      · exact fun hstate hnot => absurd (breaker_arrive s now ▸ hhalf hstate) hnot
    · constructor
      · intro horderly g hg hstale
        obtain ⟨hstate, -, htrips⟩ :=
          horderly.stale_unchanged i outcome now rfl g hg hstale
        obtain rfl : flight = g := Option.some.inj (hi.symm.trans hg)
        exact harmless_of_unchanged hstate htrips
      · exact fun hharmless => orderly_leave hinv hi outcome now (hharmless flight hi)

end System

/-- Two calls overlap and both fail, the second when the breaker is open. -/
def lateFailure : List (Event ℚ Unit) :=
  [.call 0, .call 0, .finish 0 transientFailure 1, .finish 0 transientFailure 2]

/-- The late failure trips the open breaker once more, and pushes its recovery
window back. -/
theorem late_failure_trips_again :
    ∃ t, Run System.Step (System.start "t" 1 1 60 0) lateFailure t ∧
      t.breaker.trips = 2 ∧ t.openings = 1 ∧ t.breaker.openedAt = 2 := by
  obtain ⟨t, ht, htrips⟩ : ∃ t ∈ exec System.step (System.start "t" 1 1 60 0)
      lateFailure, t.breaker.trips = 2 ∧ t.openings = 1 ∧ t.breaker.openedAt = 2 := by
    decide +kernel
  exact ⟨t, Run.of_exec ht, htrips⟩

end Reliability
