import Mathlib
import AtlasMcp.ErrorFramework

/-!
# The circuit breaker

A breaker is `CLOSED`, `OPEN` or `HALF_OPEN`.  `CircuitBreaker.call` suspends only
at the await of `fn`: its lock is never held across an await, so no call ever
waits for it.  A call is therefore two pieces, each done without interruption:
`enter`, from the entry of `call` to the await, and `finish`, from the outcome of
`fn` to the end.

What the pieces can do is said once, by `enter_cases` and `finish_cases`.
-/

namespace Reliability

open Errors PyJson PyText

/-- The states of a breaker: it lets calls through, rejects them, or lets one
through to see whether the tool has recovered. -/
inductive State
  | closed
  | opened
  | halfOpen
  deriving DecidableEq

/-- The fields of a breaker; those with a default are set so by `__init__`.
Times are readings of the monotonic clock, in seconds. -/
structure CircuitBreaker where
  name : String
  failureThreshold : ℤ
  recoverySeconds : ℤ
  windowSeconds : ℤ := 60
  state : State := .closed
  openedAt : ℚ := 0
  failures : List ℚ := []
  halfOpenProbeInFlight : Bool := false
  trips : ℕ := 0
  deriving DecidableEq

/-- How a call was let through: on the path below the `HALF_OPEN` test, or as
a probe. -/
inductive Admission
  | direct
  | probe
  deriving DecidableEq

variable {F α : Type}

/-- The failures that count: a retryable `UpstreamError`.  Any other exception
passes through the breaker without being counted. -/
def Transient (exc : Exc F) : Prop :=
  ∃ e, exc = .tool e ∧ e.cls = .upstreamError ∧ e.retryable = true

instance (exc : Exc F) : Decidable (Transient exc) :=
  match exc with
  | .tool e => decidable_of_iff (e.cls = .upstreamError ∧ e.retryable = true)
      (by simp [Transient])
  | .cancelled => isFalse (by simp [Transient])
  | .other _ => isFalse (by simp [Transient])

/-- The call ended with a failure that counts. -/
def Fails : Except (Exc F) α → Prop
  | .ok _ => False
  | .error exc => Transient exc

instance (outcome : Except (Exc F) α) : Decidable (Fails outcome) :=
  match outcome with
  | .ok _ => isFalse id
  | .error exc => inferInstanceAs (Decidable (Transient exc))

/-- The call ended by returning. -/
def Returns : Except (Exc F) α → Prop
  | .ok _ => True
  | .error _ => False

instance (outcome : Except (Exc F) α) : Decidable (Returns outcome) :=
  match outcome with
  | .ok _ => isTrue trivial
  | .error _ => isFalse id

theorem not_returns_of_fails {outcome : Except (Exc F) α} (h : Fails outcome) :
    ¬ Returns outcome := by
  cases outcome with
  | ok _ => exact absurd h id
  | error _ => exact id

namespace CircuitBreaker

/-- The recovery window of an `OPEN` breaker is over, so that the next call that
enters is let through as a probe. -/
def Recovered (b : CircuitBreaker) (now : ℚ) : Prop :=
  b.state = .opened ∧ (b.recoverySeconds : ℚ) ≤ now - b.openedAt

instance (b : CircuitBreaker) (now : ℚ) : Decidable (b.Recovered now) :=
  inferInstanceAs (Decidable (_ ∧ _))

/-- The recorded failures, less those at the front that left the window. -/
def pruned (b : CircuitBreaker) (now : ℚ) : List ℚ :=
  b.failures.dropWhile fun f => f < now - b.windowSeconds

/-- `_check_transitions`: an open breaker whose recovery time is over is
half-open from now on, and the failures that are out of the window are
forgotten. -/
def checkTransitions (b : CircuitBreaker) (now : ℚ) : CircuitBreaker :=
  let b := if b.Recovered now then
    { b with state := .halfOpen, halfOpenProbeInFlight := false } else b
  { b with failures := b.pruned now }

/-- Open the breaker. -/
def trip (b : CircuitBreaker) (now : ℚ) : CircuitBreaker :=
  { b with state := .opened, openedAt := now, failures := [], trips := b.trips + 1 }

/-- `_on_failure`: an error that is not transient is not a failure of the
tool, a failed probe opens the breaker again, and so do enough failures. -/
def onFailure (b : CircuitBreaker) (exc : Exc F) (now : ℚ) : CircuitBreaker :=
  if ¬ Transient exc then b
  else
    let b := { b with failures := b.failures ++ [now] }
    if b.state = .halfOpen then b.trip now
    else if b.failureThreshold ≤ b.failures.length then b.trip now
    else b

/-- `_on_success`: a probe that succeeds closes the breaker. -/
def onSuccess (b : CircuitBreaker) : CircuitBreaker :=
  if b.state = .halfOpen then { b with state := .closed, failures := [] } else b

/-- `call` up to the await of `fn`: how the call goes on, or `none` where it
raises `CircuitOpenError`. -/
def enter (b : CircuitBreaker) (now : ℚ) : Option Admission × CircuitBreaker :=
  let b := b.checkTransitions now
  match b.state with
  | .opened => (none, b)
  | .halfOpen =>
      if b.halfOpenProbeInFlight then (none, b)
      else (some .probe, { b with halfOpenProbeInFlight := true })
  | .closed => (some .direct, b)

/-- `call` from the outcome of `fn` on. -/
def finish (b : CircuitBreaker) (adm : Admission) (outcome : Except (Exc F) α)
    (now : ℚ) : CircuitBreaker :=
  match adm, outcome with
  | .direct, .ok _ => b
  | .direct, .error exc => b.onFailure exc now
  | .probe, .ok _ => { b.onSuccess with halfOpenProbeInFlight := false }
  | .probe, .error exc => { b.onFailure exc now with halfOpenProbeInFlight := false }

/-- What a rejected call raises. -/
def rejection [UnicodeDb] (b : CircuitBreaker) : ToolError F :=
  circuitOpenError b.name b.recoverySeconds

/-- The breaker trips on a failure: any in `HALF_OPEN`, else one that fills
the record up to the threshold. -/
def TripsOn (b : CircuitBreaker) : Prop :=
  b.state = .halfOpen ∨ b.failureThreshold ≤ b.failures.length + 1

instance (b : CircuitBreaker) : Decidable b.TripsOn :=
  inferInstanceAs (Decidable (_ ∨ _))

/-- The breaker with its probe flag set. -/
def withFlag (b : CircuitBreaker) (flag : Bool) : CircuitBreaker :=
  { b with halfOpenProbeInFlight := flag }

/-- The probe flag after a call ended: a probe clears it. -/
def flagAfter (b : CircuitBreaker) : Admission → Bool
  | .direct => b.halfOpenProbeInFlight
  | .probe => false

/-- A failure leaves the probe flag to the `finally` block. -/
theorem onFailure_flag (b : CircuitBreaker) (exc : Exc F) (now : ℚ) :
    (b.onFailure exc now).halfOpenProbeInFlight = b.halfOpenProbeInFlight := by
  simp only [onFailure, trip]
  split_ifs <;> rfl

/-- **What an arriving call can do.**  It is let through a closed breaker; it
is the probe that a recovered breaker, or a half-open one without its flag,
admits; or it is rejected.  In every case the record of failures is pruned. -/
theorem enter_cases (b : CircuitBreaker) (now : ℚ) :
    (b.state = .closed ∧
      b.enter now = (some .direct, { b with failures := b.pruned now })) ∨
    ((b.Recovered now ∨ b.state = .halfOpen ∧ b.halfOpenProbeInFlight = false) ∧
      b.enter now = (some .probe,
        { b with
          state := .halfOpen, halfOpenProbeInFlight := true, failures := b.pruned now })) ∨
    ((b.state = .opened ∧ ¬ b.Recovered now ∨
        b.state = .halfOpen ∧ b.halfOpenProbeInFlight = true) ∧
      b.enter now = (none, { b with failures := b.pruned now })) := by
  cases hstate : b.state with
  | closed => simp [enter, checkTransitions, Recovered, hstate]
  | opened =>
      by_cases hrec : b.Recovered now
      · simp [enter, checkTransitions, hrec, pruned]
      · simp [enter, checkTransitions, hrec, hstate]
  | halfOpen =>
      cases hflag : b.halfOpenProbeInFlight with
      | false => simp [enter, checkTransitions, Recovered, hstate, hflag]
      | true => simp [enter, checkTransitions, Recovered, hstate, hflag]

/-- **What an ending call can do.**  A failure that counts trips the breaker
or is recorded; a probe that returned closes a half-open breaker; anything
else changes nothing but the probe flag. -/
theorem finish_cases (b : CircuitBreaker) (adm : Admission)
    (outcome : Except (Exc F) α) (now : ℚ) :
    (Fails outcome ∧ b.TripsOn ∧
      b.finish adm outcome now = (b.trip now).withFlag (b.flagAfter adm)) ∨
    (Fails outcome ∧ ¬ b.TripsOn ∧
      b.finish adm outcome now =
        { b with failures := b.failures ++ [now] }.withFlag (b.flagAfter adm)) ∨
    (adm = .probe ∧ Returns outcome ∧ b.state = .halfOpen ∧
      b.finish adm outcome now =
        { b with state := .closed, failures := [] }.withFlag false) ∨
    (¬ Fails outcome ∧ ¬ (adm = .probe ∧ Returns outcome ∧ b.state = .halfOpen) ∧
      b.finish adm outcome now = b.withFlag (b.flagAfter adm)) := by
  cases outcome with
  | ok r =>
      by_cases hhalf : adm = .probe ∧ b.state = .halfOpen
      · obtain ⟨rfl, hhalf⟩ := hhalf
        simp [finish, onSuccess, Fails, Returns, hhalf, withFlag]
      · have hkept : b.finish adm (.ok r : Except (Exc F) α) now =
            b.withFlag (b.flagAfter adm) := by
          cases adm with
          | direct => rfl
          | probe => simp_all [finish, onSuccess, withFlag, flagAfter]
        simp only [Fails, Returns, true_and, false_and, false_or, not_false_iff]
        exact Or.inr ⟨hhalf, hkept⟩
  | error exc =>
      have hfinish : b.finish adm (.error exc : Except (Exc F) α) now =
          (b.onFailure exc now).withFlag (b.flagAfter adm) := by
        cases adm with
        | probe => rfl
        | direct => simp [finish, withFlag, flagAfter, ← onFailure_flag b exc now]
      rw [hfinish]
      by_cases htrans : Transient exc
      · by_cases htrips : b.TripsOn
        · refine Or.inl ⟨htrans, htrips, ?_⟩
          rcases htrips with hhalf | hfull
          · simp [onFailure, htrans, hhalf, trip]
          · simp [onFailure, htrans, trip, hfull]
        · refine Or.inr (Or.inl ⟨htrans, htrips, ?_⟩)
          simp only [TripsOn, not_or] at htrips
          simp [onFailure, htrans, htrips.1, htrips.2]
      · simp [Fails, Returns, htrans, onFailure]

/-- Of the calls that end, exactly those open the breaker whose failure trips
it. -/
theorem finish_opens_iff {b : CircuitBreaker} (hne : b.state ≠ .opened)
    (adm : Admission) (outcome : Except (Exc F) α) (now : ℚ) :
    (b.finish adm outcome now).state = .opened ↔ Fails outcome ∧ b.TripsOn := by
  rcases b.finish_cases adm outcome now with
    ⟨hf, htrips, heq⟩ | ⟨-, hnot, heq⟩ | ⟨-, hret, -, heq⟩ | ⟨hnot, -, heq⟩
  · simp [heq, hf, htrips, withFlag, trip]
  · simp [heq, hnot, hne, withFlag]
  · have hnot : ¬ Fails outcome := fun hf => not_returns_of_fails hf hret
    simp [heq, hnot, withFlag]
  · simp [heq, hnot, hne, withFlag]

/-- An arriving call opens nothing. -/
theorem enter_opens_nothing (b : CircuitBreaker) (now : ℚ) :
    (b.enter now).2.trips = b.trips ∧ (b.enter now).2.openedAt = b.openedAt ∧
      ((b.enter now).2.state = .opened → b.state = .opened) ∧
      (b.state = .halfOpen → (b.enter now).2.state = .halfOpen) := by
  rcases b.enter_cases now with ⟨hclosed, heq⟩ | ⟨-, heq⟩ | ⟨-, heq⟩ <;> rw [heq]
  · simp [hclosed]
  · simp
  · simp

end CircuitBreaker

end Reliability
