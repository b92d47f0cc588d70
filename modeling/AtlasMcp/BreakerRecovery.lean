import AtlasMcp.BreakerInterleavings

/-!
# The recovery of a circuit breaker

An `OPEN` breaker is left by one way only: a call that finds its recovery window over
makes it half-open.  Calls admitted before may end meanwhile and may push the window
back, but none of them shortens it, so `rejected_until_recovered` holds whatever is in
flight.

Nor can a breaker stay shut: the probe flag is set only while a probe is in flight
(`Flagged`), so once nothing is, a call that finds the window over is admitted.
-/

namespace Reliability

open Errors GuardedRuns CircuitBreaker

variable {F α : Type}

/-- The reading of the clock that comes with an event. -/
def Event.time : Event F α → ℚ
  | .call now => now
  | .finish _ _ now => now

namespace System

variable {s t u v : System} {e : Event F α}

/-- Time does not go back, and is that of the last event. -/
theorem clock_of_step (h : s.Step e t) : s.clock ≤ e.time ∧ t.clock = e.time := by
  rcases step_cases h with ⟨now, rfl, hle, rfl⟩ | ⟨i, flight, outcome, now, rfl, hle, -, rfl⟩
  · refine ⟨hle, ?_⟩
    simp only [arrive]
    split <;> rfl
  · exact ⟨hle, rfl⟩

section Rejections

/-- The breaker has been open since `opening` or later, and will be until the
window that began then is over. -/
structure OpenSince (opening : ℚ) (recoverySeconds : ℤ) (s : System) : Prop where
  window : s.breaker.recoverySeconds = recoverySeconds
  shut : s.clock < opening + recoverySeconds →
    s.breaker.state = .opened ∧ opening ≤ s.breaker.openedAt

/-- A call that ends leaves the recovery time as it was. -/
theorem finish_recoverySeconds (b : CircuitBreaker) (admission : Admission)
    (outcome : Except (Exc F) α) (now : ℚ) :
    (b.finish admission outcome now).recoverySeconds = b.recoverySeconds := by
  rcases b.finish_cases admission outcome now with
    ⟨-, -, heq⟩ | ⟨-, -, heq⟩ | ⟨-, -, -, heq⟩ | ⟨-, -, heq⟩ <;>
  rw [heq] <;> rfl

/-- Entering a breaker does not change how long it takes to recover. -/
theorem enter_recoverySeconds (b : CircuitBreaker) (now : ℚ) :
    (b.enter now).2.recoverySeconds = b.recoverySeconds := by
  rcases b.enter_cases now with ⟨-, heq⟩ | ⟨-, heq⟩ | ⟨-, heq⟩ <;> rw [heq]

/-- An open breaker whose window is not over rejects the call, and stays as it
is but for its record. -/
theorem enter_of_shut {b : CircuitBreaker} {now : ℚ} (hopened : b.state = .opened)
    (hearly : now < b.openedAt + b.recoverySeconds) :
    b.enter now = (none, { b with failures := b.pruned now }) := by
  have hnot : ¬ b.Recovered now := by
    intro hrec
    have hover := hrec.2
    linarith
  rcases b.enter_cases now with ⟨hclosed, -⟩ | ⟨hrec | ⟨hhalf, -⟩, -⟩ | ⟨-, heq⟩
  · rw [hopened] at hclosed
    cases hclosed
  · exact absurd hrec hnot
  · rw [hopened] at hhalf
    cases hhalf
  · exact heq

/-- A call that ends leaves an open breaker open, and its window no
shorter. -/
theorem finish_of_opened {b : CircuitBreaker} (hopened : b.state = .opened)
    (admission : Admission) (outcome : Except (Exc F) α) {now opening : ℚ}
    (hopening : opening ≤ b.openedAt) (hnow : opening ≤ now) :
    (b.finish admission outcome now).state = .opened ∧
      opening ≤ (b.finish admission outcome now).openedAt := by
  rcases b.finish_cases admission outcome now with
    ⟨-, -, heq⟩ | ⟨-, -, heq⟩ | ⟨-, -, hhalf, -⟩ | ⟨-, -, heq⟩
  · rw [heq]
    exact ⟨rfl, hnow⟩
  · rw [heq]
    exact ⟨hopened, hopening⟩
  · rw [hopened] at hhalf
    cases hhalf
  · rw [heq]
    exact ⟨hopened, hopening⟩

/-- What opens the breaker is the end of a call, and the window begins with
it. -/
theorem openSince_of_opening (h : s.Step e t) (hbefore : s.breaker.state ≠ .opened)
    (hopened : t.breaker.state = .opened) :
    t.OpenSince e.time s.breaker.recoverySeconds := by
  rcases step_cases h with ⟨now, rfl, -, rfl⟩ | ⟨i, flight, outcome, now, rfl, -, -, rfl⟩
  · have hopens := (s.breaker.enter_opens_nothing now).2.2.1
    rw [breaker_arrive] at hopened
    exact absurd (hopens hopened) hbefore
  · refine ⟨finish_recoverySeconds _ _ _ _, fun _ => ⟨hopened, ?_⟩⟩
    have hfails : Fails outcome ∧ s.breaker.TripsOn :=
      (finish_opens_iff hbefore flight.admission outcome now).mp hopened
    rcases s.breaker.finish_cases flight.admission outcome now with
      ⟨-, -, heq⟩ | ⟨-, hnot, -⟩ | ⟨-, hret, -, -⟩ | ⟨hnot, -, -⟩
    · exact (congrArg openedAt heq).ge
    · exact absurd hfails.2 hnot
    · exact absurd hret (not_returns_of_fails hfails.1)
    · exact absurd hfails.1 hnot

/-- Every event keeps it open until then. -/
theorem openSince_step {opening : ℚ} {recoverySeconds : ℤ}
    (hs : s.OpenSince opening recoverySeconds) (hclock : opening ≤ s.clock)
    (h : s.Step e t) : t.OpenSince opening recoverySeconds := by
  obtain ⟨hle, hnow⟩ := clock_of_step h
  rcases step_cases h with ⟨now, rfl, -, rfl⟩ | ⟨i, flight, outcome, now, rfl, -, -, rfl⟩
  · refine ⟨by rw [breaker_arrive, enter_recoverySeconds, hs.window], fun hearly => ?_⟩
    rw [hnow] at hearly
    obtain ⟨hopened, hopening⟩ := hs.shut (lt_of_le_of_lt hle hearly)
    have hwindow : now < s.breaker.openedAt + s.breaker.recoverySeconds := by
      rw [hs.window]
      simp only [Event.time] at hearly
      linarith
    rw [breaker_arrive, enter_of_shut hopened hwindow]
    exact ⟨hopened, hopening⟩
  · refine ⟨(finish_recoverySeconds _ _ _ _).trans hs.window, fun hearly => ?_⟩
    rw [hnow] at hearly
    obtain ⟨hopened, hopening⟩ := hs.shut (lt_of_le_of_lt hle hearly)
    exact finish_of_opened hopened _ _ hopening (hclock.trans hle)

/-- **No call is admitted before the window is over.**  When the breaker has
opened with the event `opening`, then after any further events a call made
less than the recovery time later is rejected: none is in flight for it. -/
theorem rejected_until_recovered {opening : Event F α} {events : List (Event F α)} {now : ℚ}
    (hopening : s.Step opening t) (hbefore : s.breaker.state ≠ .opened)
    (hopened : t.breaker.state = .opened) (hrun : Run Step t events u)
    (hcall : u.Step (.call now : Event F α) v)
    (hearly : now < opening.time + s.breaker.recoverySeconds) :
    (u.breaker.enter now).1 = none ∧ v.inFlight = u.inFlight := by
  have hinv : u.OpenSince opening.time s.breaker.recoverySeconds ∧ opening.time ≤ u.clock := by
    apply hrun.invariant (I := fun s' => s'.OpenSince opening.time s.breaker.recoverySeconds ∧
      opening.time ≤ s'.clock)
    · exact ⟨openSince_of_opening hopening hbefore hopened, (clock_of_step hopening).2.ge⟩
    · intro s₁ e s₂ hs₁ hstep
      obtain ⟨hle, hnow⟩ := clock_of_step hstep
      exact ⟨openSince_step hs₁.1 hs₁.2 hstep, hnow ▸ hs₁.2.trans hle⟩
  obtain ⟨hle, -⟩ := clock_of_step hcall
  obtain ⟨hshut, hsince⟩ := hinv.1.shut (lt_of_le_of_lt hle hearly)
  have hwindow : now < u.breaker.openedAt + u.breaker.recoverySeconds := by
    rw [hinv.1.window]
    linarith
  have hrejected := enter_of_shut hshut hwindow
  refine ⟨by rw [hrejected], ?_⟩
  rcases step_cases hcall with ⟨now', hevent, -, rfl⟩ | ⟨i, flight, outcome, now', hevent, -⟩
  · cases hevent
    simp only [arrive, hrejected]
    rfl
  · cases hevent

end Rejections

section Admissions

/-- The probe flag is set only while a probe is in flight, so that a breaker
without calls is not kept half-open by it. -/
def Flagged (s : System) : Prop := s.breaker.halfOpenProbeInFlight = true → 0 < s.probes

/-- Of the calls that end only a probe changes the flag, and it clears it. -/
theorem finish_flag (b : CircuitBreaker) (admission : Admission)
    (outcome : Except (Exc F) α) (now : ℚ) :
    (b.finish admission outcome now).halfOpenProbeInFlight = b.flagAfter admission := by
  rcases b.finish_cases admission outcome now with
    ⟨-, -, heq⟩ | ⟨-, -, heq⟩ | ⟨rfl, -, -, heq⟩ | ⟨-, -, heq⟩ <;>
  rw [heq] <;> rfl

/-- Every event keeps the flag right, even where half-open periods overlap. -/
theorem flagged_step (hs : s.Flagged) (h : s.Step e t) : t.Flagged := by
  intro hflag
  rcases step_cases h with ⟨now, -, -, rfl⟩ | ⟨i, flight, outcome, now, -, -, hi, rfl⟩
  · rw [probes_arrive]
    rw [breaker_arrive] at hflag
    rcases s.breaker.enter_cases now with ⟨-, heq⟩ | ⟨-, heq⟩ | ⟨-, heq⟩
    · rw [heq] at hflag ⊢
      exact Nat.add_pos_left (hs hflag) _
    · rw [heq, if_pos rfl]
      exact Nat.succ_pos _
    · rw [heq] at hflag ⊢
      exact Nat.add_pos_left (hs hflag) _
  · have hcount : (s.leave i flight outcome now).probes +
        (if flight.admission = .probe then 1 else 0) = s.probes := probes_eraseIdx hi
    have hkept : s.breaker.flagAfter flight.admission = true :=
      (finish_flag s.breaker flight.admission outcome now).symm.trans hflag
    cases hadm : flight.admission with
    | probe =>
        rw [hadm] at hkept
        cases hkept
    | direct =>
        rw [hadm] at hkept
        have hpos : 0 < s.probes := hs hkept
        simp only [hadm, reduceCtorEq, if_false, Nat.add_zero] at hcount
        omega

/-- **A breaker without calls in flight is not wedged.**  In every run from a
new breaker after which no call is in flight, a call made when the recovery
time since the breaker last opened is over is admitted. -/
theorem admitted_when_idle (name : String)
    (failureThreshold recoverySeconds windowSeconds : ℤ) (clock : ℚ)
    (events : List (Event F α)) (t : System) (now : ℚ)
    (hrun : Run Step (start name failureThreshold recoverySeconds windowSeconds clock)
      events t)
    (hidle : t.inFlight = []) (hover : t.breaker.openedAt + t.breaker.recoverySeconds ≤ now) :
    ∃ admission, (t.breaker.enter now).1 = some admission ∧
      (t.arrive now).inFlight.map Flight.admission = [admission] := by
  have hflagged : t.Flagged :=
    hrun.invariant (I := Flagged) (fun hflag => by cases hflag) fun _ _ _ hs hstep =>
      flagged_step hs hstep
  have hnone : t.probes = 0 := by simp [probes, hidle]
  have hadmitted : ∃ admission, (t.breaker.enter now).1 = some admission := by
    rcases t.breaker.enter_cases now with ⟨-, heq⟩ | ⟨-, heq⟩ | ⟨hrej, -⟩
    · exact ⟨_, by rw [heq]⟩
    · exact ⟨_, by rw [heq]⟩
    · rcases hrej with ⟨hopened, hnot⟩ | ⟨-, hflag⟩
      · have hrec : t.breaker.Recovered now := ⟨hopened, by linarith⟩
        exact absurd hrec hnot
      · have hpos : 0 < t.probes := hflagged hflag
        omega
  obtain ⟨admission, hadm⟩ := hadmitted
  refine ⟨admission, hadm, ?_⟩
  simp [arrive, hadm, hidle]

end Admissions

end System

/-- Two calls at once. -/
def twoCalls : List (Event ℚ Unit) := [.call 0, .call 0]

/-- Two calls fail one after the other; the first opens the breaker, and the
second, ending when it is open, pushes its window back. -/
theorem call_rejected_after_trip : ∃ s t u v : System,
    Run System.Step (System.start "t" 1 30 60 0) twoCalls s ∧
      s.Step (.finish 0 transientFailure 1) t ∧
      Run System.Step t [.finish 0 transientFailure 5] u ∧
      u.Step (.call 30 : Event ℚ Unit) v ∧ (u.breaker.enter 30).1 = none ∧
      v.inFlight = u.inFlight := by
  obtain ⟨s, hs, t, ht, u, hu, v, hv, hbefore, hopened, hearly⟩ :
      ∃ s ∈ exec System.step (System.start "t" 1 30 60 0) twoCalls,
        ∃ t ∈ s.step (.finish 0 transientFailure 1),
          ∃ u ∈ exec System.step t [.finish 0 transientFailure 5],
            ∃ v ∈ u.step (.call 30 : Event ℚ Unit), s.breaker.state ≠ .opened ∧
              t.breaker.state = .opened ∧ (30 : ℚ) < 1 + s.breaker.recoverySeconds := by
    decide +kernel
  exact ⟨s, t, u, v, Run.of_exec hs, ht, Run.of_exec hu, hv,
    System.rejected_until_recovered ht hbefore hopened (Run.of_exec hu) hv hearly⟩

/-- A probe that is cancelled. -/
def cancelledProbe : List (Event ℚ Unit) :=
  [.call 0, .finish 0 transientFailure 1, .call 2, .finish 0 (.error .cancelled) 3]

/-- It leaves the breaker half-open, for the next call to probe. -/
theorem probe_after_cancelled_probe :
    ∃ t, Run System.Step (System.start "t" 1 1 60 0) cancelledProbe t ∧
      t.breaker.state = .halfOpen ∧ ∃ admission, (t.breaker.enter 4).1 = some admission ∧
        (t.arrive 4).inFlight.map Flight.admission = [admission] := by
  obtain ⟨t, ht, hhalf, hidle, hover⟩ : ∃ t ∈ exec System.step (System.start "t" 1 1 60 0)
      cancelledProbe, t.breaker.state = .halfOpen ∧ t.inFlight = [] ∧
      t.breaker.openedAt + t.breaker.recoverySeconds ≤ 4 := by decide +kernel
  exact ⟨t, Run.of_exec ht, hhalf,
    System.admitted_when_idle "t" 1 1 60 0 cancelledProbe t 4 (Run.of_exec ht) hidle hover⟩

end Reliability
