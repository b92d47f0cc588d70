import AtlasMcp.CircuitBreaker
import AtlasMcp.GuardedRuns

/-!
# Overlapping calls of a circuit breaker

Any number of calls may be in flight when a breaker changes its state, and each
of them ends later, in whatever state the breaker is then.  A `System` is a
breaker with the calls in flight; an `Event` is the arrival of a call or the end
of one, at a time that never steps back.

The first question about such runs is how many probes are in flight.
`at_most_one_probe_iff` answers it: one at most, as long as no call finds a
recovered breaker while a probe is in flight.  A call admitted before the breaker
opened can bring that about, by opening it again under a probe.
-/

namespace Reliability

open Errors GuardedRuns CircuitBreaker

/-- A call in flight: how it was admitted, and in which period.  A period ends
with each change of the state of the breaker. -/
structure Flight where
  admission : Admission
  period : ℕ
  deriving DecidableEq

/-- A breaker, the time of the last event and the calls in flight.  The rest
is bookkeeping that the code does not have: the number of state changes so
far, the number of transitions to `OPEN`, and the completion times of the
counted failures since the record was last cleared. -/
structure System where
  breaker : CircuitBreaker
  clock : ℚ
  inFlight : List Flight := []
  period : ℕ := 0
  openings : ℕ := 0
  recorded : List ℚ := []
  deriving DecidableEq

/-- A call arrives; or the call at place `i` of those in flight ends.  The calls
in flight can end in any order, so that the runs of a system are all their
interleavings. -/
inductive Event (F α : Type)
  | call (now : ℚ)
  | finish (i : ℕ) (outcome : Except (Exc F) α) (now : ℚ)

variable {F α : Type}

namespace System

/-- A new breaker. -/
def start (name : String) (failureThreshold recoverySeconds windowSeconds : ℤ)
    (clock : ℚ) : System where
  breaker := { name, failureThreshold, recoverySeconds, windowSeconds }
  clock

/-- The change from one breaker to another clears the record: the breaker
tripped or closed. -/
def Clears (b b' : CircuitBreaker) : Prop :=
  b'.trips ≠ b.trips ∨ b.state = .halfOpen ∧ b'.state = .closed

instance (b b' : CircuitBreaker) : Decidable (Clears b b') :=
  inferInstanceAs (Decidable (_ ∨ _))

/-- The system after its breaker became `b'`; `failed` are the completion
times this adds to the record. -/
def moveTo (s : System) (b' : CircuitBreaker) (now : ℚ) (failed : List ℚ) :
    System where
  breaker := b'
  clock := now
  inFlight := s.inFlight
  period := if b'.state = s.breaker.state then s.period else s.period + 1
  openings :=
    if s.breaker.state ≠ .opened ∧ b'.state = .opened then s.openings + 1
    else s.openings
  recorded := if Clears s.breaker b' then [] else s.recorded ++ failed

/-- A call arrives: the breaker admits it, and it is under way, or rejects
it. -/
def arrive (s : System) (now : ℚ) : System :=
  let t := s.moveTo (s.breaker.enter now).2 now []
  match (s.breaker.enter now).1 with
  | none => t
  | some admission => { t with inFlight := s.inFlight ++ [⟨admission, t.period⟩] }

/-- A call leaves with its outcome, which the breaker hears of. -/
def leave (s : System) (i : ℕ) (flight : Flight) (outcome : Except (Exc F) α)
    (now : ℚ) : System :=
  { s.moveTo (s.breaker.finish flight.admission outcome now) now
      (if Fails outcome then [now] else []) with
    inFlight := s.inFlight.eraseIdx i }

/-- A call arrives or leaves, at a time that is not before the last one. -/
def step (s : System) : Event F α → Option System
  | .call now => if s.clock ≤ now then some (s.arrive now) else none
  | .finish i outcome now =>
      if s.clock ≤ now then (s.inFlight[i]?).map (s.leave i · outcome now) else none

/-- One event of a system, at a time not before the last one.  There is none for
a call that is not in flight. -/
def Step (s : System) (e : Event F α) (t : System) : Prop := s.step e = some t

/-- What an event does. -/
theorem step_cases {s t : System} {e : Event F α} (h : s.Step e t) :
    (∃ now, e = .call now ∧ s.clock ≤ now ∧ t = s.arrive now) ∨
    (∃ i flight outcome now, e = .finish i outcome now ∧ s.clock ≤ now ∧
      s.inFlight[i]? = some flight ∧ t = s.leave i flight outcome now) := by
  cases e with
  | call now =>
      obtain ⟨hclock, rfl⟩ : s.clock ≤ now ∧ s.arrive now = t := by
        simpa [Step, step] using h
      exact Or.inl ⟨now, rfl, hclock, rfl⟩
  | finish i outcome now =>
      obtain ⟨hclock, flight, hflight, rfl⟩ :
          s.clock ≤ now ∧ ∃ flight, s.inFlight[i]? = some flight ∧
            s.leave i flight outcome now = t := by
        simpa [Step, step] using h
      exact Or.inr ⟨i, flight, outcome, now, rfl, hclock, hflight, rfl⟩

/-- The breaker after an arrival is the one that was entered. -/
theorem breaker_arrive (s : System) (now : ℚ) :
    (s.arrive now).breaker = (s.breaker.enter now).2 := by
  simp only [arrive]
  split <;> rfl

section Probes

/-- The calls in flight that were admitted as probes. -/
def probes (s : System) : ℕ := s.inFlight.countP fun f => f.admission = .probe

/-- No call finds a recovered breaker while a probe is in flight. -/
def NoProbeOutlivesRecovery (s : System) : Event F α → System → Prop
  | .call now, _ => s.breaker.Recovered now → s.probes = 0
  | .finish .., _ => True

/-- At most one probe is in flight after the event.  A probe is a call that a
half-open breaker has let through. -/
def AtMostOneProbe (_ : System) (_ : Event F α) (t : System) : Prop := t.probes ≤ 1

/-- One probe at most, and a half-open breaker with a probe in flight has its
flag set. -/
def ProbeGuarded (s : System) : Prop :=
  s.probes ≤ 1 ∧ (s.breaker.state = .halfOpen →
    s.breaker.halfOpenProbeInFlight = false → s.probes = 0)

/-- A call that ends takes its own probe along and adds none. -/
theorem probes_eraseIdx {s : System} {i : ℕ} {flight : Flight}
    (h : s.inFlight[i]? = some flight) :
    (s.inFlight.eraseIdx i).countP (fun f => f.admission = .probe) +
      (if flight.admission = .probe then 1 else 0) = s.probes := by
  obtain ⟨hi, rfl⟩ := List.getElem?_eq_some_iff.mp h
  rw [probes, ← (List.getElem_cons_eraseIdx_perm hi).countP_eq, List.countP_cons]
  simp

/-- Of the calls that end, only a probe clears the flag, and none makes the
breaker half-open. -/
theorem finish_halfOpen {b : CircuitBreaker} {admission : Admission}
    {outcome : Except (Exc F) α} {now : ℚ}
    (h : (b.finish admission outcome now).state = .halfOpen) :
    b.state = .halfOpen ∧ (b.finish admission outcome now).halfOpenProbeInFlight =
      b.flagAfter admission := by
  rcases b.finish_cases admission outcome now with
    ⟨-, -, heq⟩ | ⟨-, -, heq⟩ | ⟨-, -, -, heq⟩ | ⟨-, -, heq⟩ <;>
  simp_all [withFlag, trip]

/-- The end of a call keeps the probe invariant. -/
theorem probeGuarded_leave {s : System} {i : ℕ} {flight : Flight}
    (hinv : s.ProbeGuarded) (h : s.inFlight[i]? = some flight)
    (outcome : Except (Exc F) α) (now : ℚ) :
    (s.leave i flight outcome now).ProbeGuarded := by
  obtain ⟨hone, hflagged⟩ := hinv
  have hcount : (s.leave i flight outcome now).probes +
      (if flight.admission = .probe then 1 else 0) = s.probes := probes_eraseIdx h
  refine ⟨by omega, fun hstate hflag => ?_⟩
  obtain ⟨hhalf, hafter⟩ := finish_halfOpen hstate
  cases hadm : flight.admission with
  | probe =>
      -- the only probe is the one that left
      simp only [hadm, if_true] at hcount
      omega
  | direct =>
      have hkept : s.breaker.halfOpenProbeInFlight = false := by
        rw [hadm] at hafter
        exact hafter.symm.trans (hadm ▸ hflag)
      have hnone : s.probes = 0 := hflagged hhalf hkept
      omega

/-- What an arriving call does to the number of probes. -/
theorem probes_arrive (s : System) (now : ℚ) :
    (s.arrive now).probes =
      s.probes + if (s.breaker.enter now).1 = some .probe then 1 else 0 := by
  rcases s.breaker.enter_cases now with ⟨-, heq⟩ | ⟨-, heq⟩ | ⟨-, heq⟩ <;>
  simp [probes, arrive, moveTo, heq, List.countP_append]

/-- A call that finds a recovered breaker is a probe whatever is in flight;
any other keeps the bound. -/
theorem arrive_probes_le_one_iff {s : System} (hinv : s.ProbeGuarded) (now : ℚ) :
    (s.breaker.Recovered now → s.probes = 0) ↔ (s.arrive now).probes ≤ 1 := by
  have hone := hinv.1
  rw [probes_arrive]
  rcases s.breaker.enter_cases now with ⟨hclosed, heq⟩ | ⟨hadm, heq⟩ | ⟨hrej, heq⟩
  · have hnot : ¬ s.breaker.Recovered now := by simp [Recovered, hclosed]
    simp [heq, hnot, hone]
  · rcases hadm with hrec | ⟨hhalf, hflag⟩
    · simp [heq, hrec]
    · simp [heq, hinv.2 hhalf hflag]
  · have hnot : ¬ s.breaker.Recovered now := by
      rcases hrej with ⟨-, hnot⟩ | ⟨hhalf, -⟩
      · exact hnot
      · simp [Recovered, hhalf]
    simp [heq, hnot, hone]

/-- The arrival of a call keeps the probe invariant if it keeps the bound. -/
theorem probeGuarded_arrive {s : System} (hinv : s.ProbeGuarded) {now : ℚ}
    (h : (s.arrive now).probes ≤ 1) : (s.arrive now).ProbeGuarded := by
  refine ⟨h, fun hstate hflag => ?_⟩
  rcases s.breaker.enter_cases now with ⟨-, heq⟩ | ⟨-, heq⟩ | ⟨-, heq⟩
  all_goals rw [breaker_arrive, heq] at hstate hflag
  · rw [probes_arrive, heq]
    simpa using hinv.2 hstate hflag
  · simp at hflag
  · rw [probes_arrive, heq]
    simpa using hinv.2 hstate hflag

/-- **One probe at a time.**  In a run from a new breaker at most one probe is
ever in flight if and only if no call of the run finds a recovered breaker
while a probe is in flight. -/
theorem at_most_one_probe_iff (name : String)
    (failureThreshold recoverySeconds windowSeconds : ℤ) (clock : ℚ)
    (events : List (Event F α)) (t : System) :
    Run (Guarded Step AtMostOneProbe)
        (start name failureThreshold recoverySeconds windowSeconds clock) events t ↔
      Run (Guarded Step NoProbeOutlivesRecovery)
        (start name failureThreshold recoverySeconds windowSeconds clock) events t := by
  refine run_guarded_iff (I := ProbeGuarded) ⟨by simp [probes, start], fun _ _ => rfl⟩
    (fun s e t hinv hstep hone => ?_) (fun s e t hinv hstep => ?_)
  · rcases step_cases hstep with ⟨now, -, -, rfl⟩ | ⟨i, flight, outcome, now, -, -, hi, rfl⟩
    · exact probeGuarded_arrive hinv hone
    · exact probeGuarded_leave hinv hi outcome now
  · rcases step_cases hstep with
      ⟨now, rfl, -, rfl⟩ | ⟨i, flight, outcome, now, rfl, -, hi, rfl⟩
    · exact (arrive_probes_le_one_iff hinv now).symm
    · exact iff_of_true (probeGuarded_leave hinv hi outcome now).1 trivial

end Probes

end System

/-- An upstream failure that may pass. -/
def transientFailure : Except (Exc ℚ) Unit :=
  .error (.tool { cls := .upstreamError, code := "transient", retryable := true })

/-- Two calls overlap; the first trips the breaker and the second, ending
while the probe is in flight, trips it again. -/
def overlappingFailures : List (Event ℚ Unit) :=
  [.call 0, .call 0, .finish 0 transientFailure 1, .call 2,
    .finish 0 transientFailure 3, .call 4]

/-- A breaker that opens on one failure, for one second, ends up with two
probes in flight. -/
theorem overlapping_failures_admit_two_probes :
    ∃ t, Run System.Step (System.start "t" 1 1 60 0) overlappingFailures t ∧
      t.probes = 2 := by
  obtain ⟨t, ht, hprobes⟩ : ∃ t ∈ exec System.step (System.start "t" 1 1 60 0)
      overlappingFailures, t.probes = 2 := by decide +kernel
  exact ⟨t, Run.of_exec ht, hprobes⟩

end Reliability
