import Mathlib
import AtlasMcp.CappedLevel

/-!
# The in-memory token bucket

`InMemoryTokenBucket` keeps, for every key, the tokens left by the last call and
the `now_ms` that call was made with.  `consume` refills for the time since
then, caps the result, and takes the cost if enough is there.  Python floats are
read as exact rationals.

Everything a call does follows from `refilled`, the tokens it finds:
`consume_allowed_iff` is the test and `lookup_consume` the record it leaves.
Along a run of calls on one key the tokens found are a capped level
(`tokensFound_eq_level`), whose gains come from the clock readings of neighbouring
calls only.
-/

namespace RateLimit

/-- `key -> (tokens, last_ms)`: how much was left in each bucket after its last
call, and when that was. -/
structure InMemoryTokenBucket where
  buckets : AList (fun _ : String => ℚ × ℤ) := ∅

namespace InMemoryTokenBucket

/-- Seconds from `lastMs` to `nowMs`, never negative. -/
def elapsedS (lastMs nowMs : ℤ) : ℚ := max 0 ((nowMs - lastMs : ℤ) / 1000)

/-- The tokens a call on `key` finds after the refill.  A key without a record
starts full. -/
def refilled (b : InMemoryTokenBucket) (key : String) (capacity : ℤ)
    (refillPerS : ℚ) (nowMs : ℤ) : ℚ :=
  let (tokens, lastMs) := (b.buckets.lookup key).getD ((capacity : ℚ), nowMs)
  min (capacity : ℚ) (tokens + elapsedS lastMs nowMs * refillPerS)

/-- Refill, test and take.  The answer is `(allowed, retry_after_ms)`; both
branches store the tokens left and this call's `nowMs`. -/
def consume (b : InMemoryTokenBucket) (key : String) (capacity : ℤ)
    (refillPerS : ℚ) (cost nowMs : ℤ) : (ℤ × ℤ) × InMemoryTokenBucket :=
  let tokens := b.refilled key capacity refillPerS nowMs
  if (cost : ℚ) ≤ tokens then
    ((1, 0), ⟨b.buckets.insert key (tokens - cost, nowMs)⟩)
  else
    let deficit := cost - tokens
    let retryAfterMs :=
      if refillPerS ≠ 0 then ⌈deficit / refillPerS * 1000⌉ else 3600000
    ((0, retryAfterMs), ⟨b.buckets.insert key (tokens, nowMs)⟩)

theorem elapsedS_nonneg (lastMs nowMs : ℤ) : 0 ≤ elapsedS lastMs nowMs :=
  le_max_left _ _

theorem elapsedS_of_le {lastMs nowMs : ℤ} (h : lastMs ≤ nowMs) :
    elapsedS lastMs nowMs = ((nowMs : ℚ) - lastMs) / 1000 := by
  have hcast : (lastMs : ℚ) ≤ nowMs := by exact_mod_cast h
  have hnonneg : (0 : ℚ) ≤ ((nowMs : ℚ) - lastMs) / 1000 := by
    apply div_nonneg <;> linarith
  simp [elapsedS, hnonneg]

/-- A key without a record finds a full bucket, whatever the clock says. -/
theorem refilled_of_fresh {b : InMemoryTokenBucket} {key : String}
    (hfresh : b.buckets.lookup key = none) (capacity : ℤ) (refillPerS : ℚ)
    (nowMs : ℤ) : b.refilled key capacity refillPerS nowMs = capacity := by
  simp [refilled, hfresh, elapsedS]

/-- A call is admitted exactly when its cost is covered by the tokens
found. -/
theorem consume_allowed_iff (b : InMemoryTokenBucket) (key : String)
    (capacity : ℤ) (refillPerS : ℚ) (cost nowMs : ℤ) :
    (b.consume key capacity refillPerS cost nowMs).1.1 = 1 ↔
      (cost : ℚ) ≤ b.refilled key capacity refillPerS nowMs := by
  by_cases h : (cost : ℚ) ≤ b.refilled key capacity refillPerS nowMs <;>
    simp [consume, h]

/-- The record a call leaves: the tokens found less the cost if admitted, and
its own clock reading in either case. -/
theorem lookup_consume (b : InMemoryTokenBucket) (key : String)
    (capacity : ℤ) (refillPerS : ℚ) (cost nowMs : ℤ) :
    (b.consume key capacity refillPerS cost nowMs).2.buckets.lookup key =
      some (b.refilled key capacity refillPerS nowMs -
        (if (b.consume key capacity refillPerS cost nowMs).1.1 = 1 then cost
          else 0 : ℤ), nowMs) := by
  by_cases h : (cost : ℚ) ≤ b.refilled key capacity refillPerS nowMs <;>
    simp [consume, h]

/-- A call leaves the records of all other keys alone. -/
theorem lookup_consume_other (b : InMemoryTokenBucket) {key other : String}
    (hne : other ≠ key) (capacity : ℤ) (refillPerS : ℚ) (cost nowMs : ℤ) :
    (b.consume key capacity refillPerS cost nowMs).2.buckets.lookup other =
      b.buckets.lookup other := by
  by_cases h : (cost : ℚ) ≤ b.refilled key capacity refillPerS nowMs <;>
    simp [consume, h, AList.lookup_insert_ne hne]

end InMemoryTokenBucket

/-- One call on a bucket: its cost and the caller's clock reading, which may lie
before that of an earlier call. -/
structure Request where
  cost : ℤ
  nowMs : ℤ

section Run

open InMemoryTokenBucket

variable (key : String) (capacity : ℤ) (refillPerS : ℚ) (reqs : ℕ → Request)

/-- The backend after the first `n` calls of a run on one key, all with one
quota, from the empty backend. -/
def bucketsAfter : ℕ → InMemoryTokenBucket
  | 0 => {}
  | n + 1 => ((bucketsAfter n).consume key capacity refillPerS
      (reqs n).cost (reqs n).nowMs).2

/-- The tokens call `n` finds. -/
def tokensFound (n : ℕ) : ℚ :=
  (bucketsAfter key capacity refillPerS reqs n).refilled key capacity
    refillPerS (reqs n).nowMs

/-- The answer `(allowed, retry_after_ms)` to call `n`. -/
def answer (n : ℕ) : ℤ × ℤ :=
  ((bucketsAfter key capacity refillPerS reqs n).consume key capacity
    refillPerS (reqs n).cost (reqs n).nowMs).1

/-- The cost call `n` was admitted with, `0` if it was denied. -/
def admittedCost (n : ℕ) : ℤ :=
  if (answer key capacity refillPerS reqs n).1 = 1 then (reqs n).cost else 0

/-- Tokens credited between calls `n` and `n+1`. -/
def credit (n : ℕ) : ℚ :=
  elapsedS (reqs n).nowMs (reqs (n + 1)).nowMs * refillPerS

/-- The tokens found along a run are a capped level, fed by the credits and
drained by the admitted costs. -/
theorem tokensFound_eq_level (n : ℕ) :
    tokensFound key capacity refillPerS reqs n =
      CappedLevel.level (capacity : ℚ) (credit refillPerS reqs)
        (fun i => admittedCost key capacity refillPerS reqs i) n := by
  induction n with
  | zero => exact refilled_of_fresh (AList.lookup_empty key) _ _ _
  | succ n ih =>
      have hrecord := lookup_consume (bucketsAfter key capacity refillPerS reqs n)
        key capacity refillPerS (reqs n).cost (reqs n).nowMs
      rw [CappedLevel.level_succ, ← ih]
      simp only [tokensFound, refilled, bucketsAfter] at hrecord ⊢
      rw [hrecord]
      rfl

/-- Call `n` is admitted exactly when the tokens it finds cover its cost. -/
theorem answer_allowed_iff (n : ℕ) :
    (answer key capacity refillPerS reqs n).1 = 1 ↔
      ((reqs n).cost : ℚ) ≤ tokensFound key capacity refillPerS reqs n :=
  consume_allowed_iff _ _ _ _ _ _

/-- An admitted call takes its cost. -/
theorem admittedCost_of_allowed {n : ℕ}
    (h : (answer key capacity refillPerS reqs n).1 = 1) :
    admittedCost key capacity refillPerS reqs n = (reqs n).cost :=
  if_pos h

/-- No call takes more than it finds, as long as it finds no debt. -/
theorem admittedCost_le_found {n : ℕ}
    (hfound : 0 ≤ tokensFound key capacity refillPerS reqs n) :
    (admittedCost key capacity refillPerS reqs n : ℚ) ≤
      tokensFound key capacity refillPerS reqs n := by
  by_cases h : (answer key capacity refillPerS reqs n).1 = 1
  · rw [admittedCost_of_allowed _ _ _ _ h]
    exact (answer_allowed_iff _ _ _ _ n).mp h
  · simpa [admittedCost, h] using hfound

end Run

end RateLimit
