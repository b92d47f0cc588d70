import AtlasMcp.ErrorFramework

/-!
# The retry loop

`with_retry` calls a function again when it ends with a retryable error, after a delay drawn
from a window that doubles with every call.  Four things stop it: a value, an error that is not
retryable, the last attempt, and a deadline that the delay would reach.

What the loop meets is a sequence of `Attempt`s, one for each call it may make, with nothing
assumed of them.  `Stops` says of a call that it is the last one; `withRetry_spec` that the loop
makes all calls up to the first such one, sleeps in between, and ends as that call did.
-/

namespace Reliability

open Errors

variable {F α : Type}

/-- The numbers that `with_retry` is called with. -/
structure RetryPolicy where
  maxAttempts : ℤ := 3
  baseDelayMs : ℤ := 100
  maxDelayMs : ℤ := 2000
  deadlineS : Option ℚ := none

/-- What the loop meets at one call: how the call ends, what `random.random()`
gives, and what the clock of the event loop shows after it. -/
structure Attempt (F α : Type) where
  outcome : Except (Exc F) α
  random : {u : ℚ // 0 ≤ u ∧ u ≤ 1}
  clock : ℚ

/-- `random.uniform(a, b)`. -/
def uniform (a b : ℚ) (random : {u : ℚ // 0 ≤ u ∧ u ≤ 1}) : ℚ := a + (b - a) * random

/-- The greatest delay after a call, in milliseconds; the first call is number
1. -/
def RetryPolicy.capMs (p : RetryPolicy) (attempt : ℕ) : ℤ :=
  min p.maxDelayMs (p.baseDelayMs * 2 ^ (attempt - 1))

/-- `_backoff`, in seconds. -/
def RetryPolicy.backoff (p : RetryPolicy) (attempt : ℕ) (random : {u : ℚ // 0 ≤ u ∧ u ≤ 1}) :
    ℚ :=
  uniform 0 (p.capMs attempt) random / 1000

/-- What the loop does. -/
inductive Deed
  | call (attempt : ℕ)
  | sleep (delayS : ℚ)
  | assertion
  deriving DecidableEq

/-- The delay would end at the deadline or after it.  The loop does not wait
then, and gives up. -/
def RetryPolicy.Late (p : RetryPolicy) (delayS clock : ℚ) : Prop :=
  ∃ deadline ∈ p.deadlineS, deadline - clock ≤ delayS

instance (p : RetryPolicy) (delayS clock : ℚ) : Decidable (p.Late delayS clock) :=
  inferInstanceAs (Decidable (∃ deadline ∈ p.deadlineS, _))

/-- The loop before a call, with so many turns left, and the error it has
caught last. -/
def retryFrom (p : RetryPolicy) (w : ℕ → Attempt F α) (attempt : ℕ)
    (lastExc : Option (ToolError F)) : ℕ → List Deed × Except (Exc F) α
  | 0 => ([.assertion], match lastExc with
      | none => .error (.other "AssertionError")
      | some e => .error (.tool e))
  | left + 1 =>
      match (w attempt).outcome with
      | .error (.tool e) =>
          if e.retryable = false ∨ attempt = p.maxAttempts then
            ([.call attempt], .error (.tool e))
          else
            let delay := p.backoff attempt (w attempt).random
            if p.Late delay (w attempt).clock then ([.call attempt], .error (.tool e))
            else
              let (deeds, result) := retryFrom p w (attempt + 1) (some e) left
              (.call attempt :: .sleep delay :: deeds, result)
      | outcome => ([.call attempt], outcome)

/-- `with_retry`: what it does and how it ends. -/
def withRetry (p : RetryPolicy) (w : ℕ → Attempt F α) : List Deed × Except (Exc F) α :=
  retryFrom p w 1 none p.maxAttempts.toNat

/-! ## The delays -/

/-- A uniform number lies between its bounds, whichever of them is the larger
one. -/
theorem uniform_mem_uIcc (a b : ℚ) (random : {u : ℚ // 0 ≤ u ∧ u ≤ 1}) :
    uniform a b random ∈ Set.uIcc a b := by
  obtain ⟨u, hzero, hone⟩ := random
  rcases le_total a b with hle | hle
  · rw [Set.uIcc_of_le hle, uniform]
    constructor <;> nlinarith
  · rw [Set.uIcc_of_ge hle, uniform]
    constructor <;> nlinarith

/-- The delay is drawn from the window of its call. -/
theorem RetryPolicy.backoff_mem_uIcc (p : RetryPolicy) (attempt : ℕ)
    (random : {u : ℚ // 0 ≤ u ∧ u ≤ 1}) :
    p.backoff attempt random * 1000 ∈ Set.uIcc (0 : ℚ) (p.capMs attempt) := by
  rw [backoff, div_mul_cancel₀ _ (by norm_num)]
  exact uniform_mem_uIcc ..

/-- A policy is not late where the deadline has not been reached after the
delay. -/
theorem RetryPolicy.not_late_iff {p : RetryPolicy} {delayS clock : ℚ} :
    ¬ p.Late delayS clock ↔ ∀ deadline ∈ p.deadlineS, clock + delayS < deadline := by
  simp only [Late, not_exists, not_and, not_le]
  exact forall₂_congr fun _ _ => lt_sub_iff_add_lt'

/-! ## The calls -/

/-- An error that is worth another call. -/
def IsRetryable : Exc F → Prop
  | .tool e => e.retryable = true
  | _ => False

/-- The loop ends with this call. -/
inductive Stops (p : RetryPolicy) (w : ℕ → Attempt F α) (attempt : ℕ) : Prop
  | value (v : α) (h : (w attempt).outcome = .ok v)
  | refused (exc : Exc F) (h : (w attempt).outcome = .error exc) (hnot : ¬ IsRetryable exc)
  | last (h : attempt = p.maxAttempts)
  | late (h : p.Late (p.backoff attempt (w attempt).random) (w attempt).clock)

/-- The calls from one to another, with a sleep after each but the last. -/
def deeds (p : RetryPolicy) (w : ℕ → Attempt F α) (first last : ℕ) : List Deed :=
  (List.range' first (last - first)).flatMap
    (fun k => [.call k, .sleep (p.backoff k (w k).random)]) ++ [.call last]

variable {p : RetryPolicy} {w : ℕ → Attempt F α}

theorem deeds_self (attempt : ℕ) : deeds p w attempt attempt = [.call attempt] := by
  simp [deeds]

/-- Between two attempts there is a pause, which is the one of the backoff. -/
theorem deeds_of_lt {first last : ℕ} (h : first < last) :
    deeds p w first last =
      .call first :: .sleep (p.backoff first (w first).random) :: deeds p w (first + 1) last := by
  obtain ⟨d, rfl⟩ : ∃ d, last = first + 1 + d := ⟨last - (first + 1), by omega⟩
  have hlength : first + 1 + d - first = d + 1 := by omega
  simp [deeds, hlength, List.range'_succ]

theorem assertion_notMem_deeds (first last : ℕ) : Deed.assertion ∉ deeds p w first last := by
  simp [deeds]

/-- One turn of the loop: the call is the last one, or the loop sleeps and
goes on. -/
theorem retryFrom_succ (attempt left : ℕ) (lastExc : Option (ToolError F)) :
    (Stops p w attempt ∧
      retryFrom p w attempt lastExc (left + 1) = ([.call attempt], (w attempt).outcome)) ∨
    (¬ Stops p w attempt ∧ ∃ e, retryFrom p w attempt lastExc (left + 1) =
      (.call attempt :: .sleep (p.backoff attempt (w attempt).random) ::
        (retryFrom p w (attempt + 1) (some e) left).1,
        (retryFrom p w (attempt + 1) (some e) left).2)) := by
  cases houtcome : (w attempt).outcome with
  | ok v => exact Or.inl ⟨.value v houtcome, by simp [retryFrom, houtcome]⟩
  | error exc =>
      cases exc with
      | cancelled => exact Or.inl ⟨.refused _ houtcome id, by simp [retryFrom, houtcome]⟩
      | other typeName => exact Or.inl ⟨.refused _ houtcome id, by simp [retryFrom, houtcome]⟩
      | tool e =>
          by_cases hrefused : e.retryable = false
          · exact Or.inl ⟨.refused _ houtcome (by simp [IsRetryable, hrefused]),
              by simp [retryFrom, houtcome, hrefused]⟩
          by_cases hlast : (attempt : ℤ) = p.maxAttempts
          · exact Or.inl ⟨.last hlast, by simp [retryFrom, houtcome, hlast]⟩
          by_cases hlate : p.Late (p.backoff attempt (w attempt).random) (w attempt).clock
          · exact Or.inl ⟨.late hlate, by simp [retryFrom, houtcome, hrefused, hlast, hlate]⟩
          refine Or.inr ⟨fun hstops => ?_, e, by
            simp [retryFrom, houtcome, hrefused, hlast, hlate]⟩
          cases hstops with
          | value v h => cases houtcome.symm.trans h
          | refused exc h hnot =>
              cases houtcome.symm.trans h
              exact hnot (by simpa [IsRetryable] using hrefused)
          | last h => exact hlast h
          | late h => exact hlate h

/-- The loop ends with the first call that stops it.  The induction is on the
turns that are left; the last of them is the attempt that always stops. -/
theorem retryFrom_spec (left : ℕ) {attempt : ℕ} (hleft : (attempt + left : ℤ) = p.maxAttempts)
    (lastExc : Option (ToolError F)) :
    ∃ last, attempt ≤ last ∧ (last : ℤ) ≤ p.maxAttempts ∧ Stops p w last ∧
      (∀ k, attempt ≤ k → k < last → ¬ Stops p w k) ∧
      retryFrom p w attempt lastExc (left + 1) = (deeds p w attempt last, (w last).outcome) := by
  induction left generalizing attempt lastExc with
  | zero =>
      have hstops : Stops p w attempt := .last (by omega)
      rcases retryFrom_succ attempt 0 lastExc with ⟨-, heq⟩ | ⟨hgoes, -⟩
      · exact ⟨attempt, le_rfl, by omega, hstops, by omega, by rw [heq, deeds_self]⟩
      · exact absurd hstops hgoes
  | succ left ih =>
      rcases retryFrom_succ attempt (left + 1) lastExc with ⟨hstops, heq⟩ | ⟨hgoes, e, heq⟩
      · exact ⟨attempt, le_rfl, by omega, hstops, by omega, by rw [heq, deeds_self]⟩
      · obtain ⟨last, hle, hmax, hstops, hbefore, hrest⟩ :=
          ih (show ((attempt + 1 : ℕ) + left : ℤ) = p.maxAttempts by push_cast at hleft ⊢; omega)
            (some e)
        refine ⟨last, by omega, hmax, hstops, fun k hk hlt => ?_, ?_⟩
        · rcases Nat.eq_or_lt_of_le hk with rfl | hlater
          · exact hgoes
          · exact hbefore k hlater hlt
        · have hlt : attempt < last := by omega
          rw [heq, hrest, deeds_of_lt hlt]

/-- **The retry loop.**  With at least one attempt allowed it makes the calls
up to the first that stops it and ends as that one did.  Between two calls it
sleeps once, for a delay out of the window of the first of them that ends
before the deadline.  It does not get to its final assertion. -/
theorem withRetry_spec (p : RetryPolicy) (hmax : 1 ≤ p.maxAttempts) (w : ℕ → Attempt F α) :
    ∃ last : ℕ, 1 ≤ last ∧ (last : ℤ) ≤ p.maxAttempts ∧
      Stops p w last ∧ (∀ k : ℕ, 1 ≤ k → k < last → ¬ Stops p w k) ∧
      withRetry p w = (deeds p w 1 last, (w last).outcome) ∧
      (∀ k : ℕ, 1 ≤ k → k < last →
        p.backoff k (w k).random * 1000 ∈
          Set.uIcc (0 : ℚ) (min p.maxDelayMs (p.baseDelayMs * 2 ^ (k - 1)) : ℤ) ∧
        ∀ deadline ∈ p.deadlineS, (w k).clock + p.backoff k (w k).random < deadline) ∧
      Deed.assertion ∉ (withRetry p w).1 := by
  obtain ⟨left, hleft⟩ : ∃ left : ℕ, p.maxAttempts.toNat = left + 1 :=
    ⟨p.maxAttempts.toNat - 1, by omega⟩
  obtain ⟨last, hle, hlast, hstops, hbefore, hrun⟩ :=
    retryFrom_spec (p := p) (w := w) left (show ((1 : ℕ) + left : ℤ) = p.maxAttempts by
      push_cast; omega) none
  have heq : withRetry p w = (deeds p w 1 last, (w last).outcome) := by
    rw [withRetry, hleft, hrun]
  refine ⟨last, hle, hlast, hstops, hbefore, heq, fun k hk hlt => ⟨?_, ?_⟩, ?_⟩
  · exact p.backoff_mem_uIcc k _
  · exact RetryPolicy.not_late_iff.mp fun hlate => hbefore k hk hlt (.late hlate)
  · rw [heq]
    exact assertion_notMem_deeds 1 last

/-- A call that fails and may be repeated at once. -/
def transientAttempt : Attempt Unit Unit where
  outcome := .error (.tool { cls := .upstreamError, code := "transient", retryable := true })
  random := ⟨0, le_rfl, zero_le_one⟩
  clock := 0

/-- Three such calls are made, and no fourth one. -/
theorem transient_three_times : ∃ last : ℕ, 1 ≤ last ∧ (last : ℤ) ≤ 3 ∧
    withRetry {} (fun _ => transientAttempt) =
      (deeds {} (fun _ => transientAttempt) 1 last, transientAttempt.outcome) := by
  obtain ⟨last, hpos, hmax, -, -, heq, -⟩ :=
    withRetry_spec {} (by decide) fun _ => transientAttempt
  exact ⟨last, hpos, hmax, heq⟩

example : (withRetry {} fun _ => transientAttempt).1 =
    [.call 1, .sleep 0, .call 2, .sleep 0, .call 3] := by decide +kernel

end Reliability
