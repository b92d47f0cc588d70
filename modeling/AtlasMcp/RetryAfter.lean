import AtlasMcp.RateLimiter

/-!
# The wait a denied call is told

A denied call gets the whole milliseconds until its cost is there.  What a later call on the
key finds is the level the denied one left, refilled for the time since and capped
(`refilled_of_record`); calls for other keys leave it alone.  As the cost fits under the cap,
it is there from `retry_after_ms` on and not before (`covered_iff_waited`).
-/

namespace RateLimit

/-- A call of the backend. -/
structure BucketCall where
  key : String
  capacity : ℤ
  refillPerS : ℚ
  request : Request

namespace InMemoryTokenBucket

/-- The backend after the calls, in order. -/
def afterCalls (b : InMemoryTokenBucket) (calls : List BucketCall) : InMemoryTokenBucket :=
  calls.foldl
    (fun b c => (b.consume c.key c.capacity c.refillPerS c.request.cost c.request.nowMs).2) b

/-- The record of a key outlasts the calls for other keys. -/
theorem lookup_afterCalls {key : String} {calls : List BucketCall}
    (hother : ∀ c ∈ calls, c.key ≠ key) (b : InMemoryTokenBucket) :
    (b.afterCalls calls).buckets.lookup key = b.buckets.lookup key := by
  induction calls generalizing b with
  | nil => rfl
  | cons c calls ih =>
      have hne : key ≠ c.key := (hother c List.mem_cons_self).symm
      calc ((b.afterCalls (c :: calls)).buckets.lookup key)
          = (b.consume c.key c.capacity c.refillPerS c.request.cost
              c.request.nowMs).2.buckets.lookup key :=
            ih (fun d hd => hother d (List.mem_cons_of_mem _ hd)) _
        _ = b.buckets.lookup key := lookup_consume_other b hne _ _ _ _

/-- What a call finds under a record that is not from the future. -/
theorem refilled_of_record {b : InMemoryTokenBucket} {key : String} {tokens : ℚ}
    {lastMs nowMs : ℤ} (hrecord : b.buckets.lookup key = some (tokens, lastMs))
    (hle : lastMs ≤ nowMs) (capacity : ℤ) (refillPerS : ℚ) :
    b.refilled key capacity refillPerS nowMs =
      min (capacity : ℚ) (tokens + ((nowMs : ℚ) - lastMs) / 1000 * refillPerS) := by
  simp only [refilled, hrecord, Option.getD_some, elapsedS_of_le hle]

/-- A call is denied exactly when its cost is more than the tokens found. -/
theorem consume_denied_iff (b : InMemoryTokenBucket) (key : String) (capacity : ℤ)
    (refillPerS : ℚ) (cost nowMs : ℤ) :
    (b.consume key capacity refillPerS cost nowMs).1.1 = 0 ↔
      b.refilled key capacity refillPerS nowMs < cost := by
  by_cases h : (cost : ℚ) ≤ b.refilled key capacity refillPerS nowMs
  · simp [consume, h, not_lt.mpr h]
  · simp [consume, h, not_le.mp h]

/-- A denied call leaves the tokens it found, under its own clock reading. -/
theorem lookup_of_denied {b : InMemoryTokenBucket} {key : String} {capacity : ℤ}
    {refillPerS : ℚ} {cost nowMs : ℤ}
    (hdenied : (b.consume key capacity refillPerS cost nowMs).1.1 = 0) :
    (b.consume key capacity refillPerS cost nowMs).2.buckets.lookup key =
      some (b.refilled key capacity refillPerS nowMs, nowMs) := by
  rw [lookup_consume, hdenied]
  simp

/-- With a refill it is told the deficit, in milliseconds of refill and
rounded up. -/
theorem retryAfter_of_denied {b : InMemoryTokenBucket} {key : String} {capacity : ℤ}
    {refillPerS : ℚ} {cost nowMs : ℤ} (hrefill : 0 < refillPerS)
    (hdenied : (b.consume key capacity refillPerS cost nowMs).1.1 = 0) :
    (b.consume key capacity refillPerS cost nowMs).1.2 =
      ⌈((cost : ℚ) - b.refilled key capacity refillPerS nowMs) / refillPerS * 1000⌉ := by
  have hshort := not_le.mpr ((consume_denied_iff ..).mp hdenied)
  simp only [consume, if_neg hshort, if_pos hrefill.ne']

end InMemoryTokenBucket

/-- The refill of a time covers a deficit exactly when the time, a whole
number of milliseconds, has reached the wait. -/
theorem covered_iff_waited {refillPerS : ℚ} (hrefill : 0 < refillPerS) (cost tokens : ℚ)
    (waitedMs : ℤ) :
    cost ≤ tokens + (waitedMs : ℚ) / 1000 * refillPerS ↔
      ⌈(cost - tokens) / refillPerS * 1000⌉ ≤ waitedMs := by
  have hscale : (cost - tokens) / refillPerS * 1000 = (cost - tokens) * 1000 / refillPerS := by
    ring
  rw [Int.ceil_le, hscale, div_le_iff₀ hrefill]
  constructor <;> intro h <;> linarith

open InMemoryTokenBucket

/-- **The wait is exact.**  After a denied call, with calls for other keys
only in between, a call of the same cost is admitted once the wait is over and
denied at every whole millisecond before that. -/
theorem retryAfter_exact (b : InMemoryTokenBucket) (key : String) {capacity cost : ℤ}
    {refillPerS : ℚ} (hrefill : 0 < refillPerS) (hcost : cost ≤ capacity) {nowMs r : ℤ}
    (hdenied : (b.consume key capacity refillPerS cost nowMs).1 = (0, r))
    {between : List BucketCall} (hother : ∀ c ∈ between, c.key ≠ key) :
    1 ≤ r ∧
    (((b.consume key capacity refillPerS cost nowMs).2.afterCalls between).consume key capacity
      refillPerS cost (nowMs + r)).1.1 = 1 ∧
    ∀ t, nowMs ≤ t → t < nowMs + r →
      (((b.consume key capacity refillPerS cost nowMs).2.afterCalls between).consume key
        capacity refillPerS cost t).1.1 = 0 := by
  have hzero : (b.consume key capacity refillPerS cost nowMs).1.1 = 0 := by rw [hdenied]
  have hr : r = ⌈((cost : ℚ) - b.refilled key capacity refillPerS nowMs) / refillPerS * 1000⌉ := by
    rw [← retryAfter_of_denied hrefill hzero, hdenied]
  have hshort := (consume_denied_iff ..).mp hzero
  have hcap : (cost : ℚ) ≤ capacity := by exact_mod_cast hcost
  have hrecord := (lookup_afterCalls hother _).trans (lookup_of_denied hzero)
  set after := (b.consume key capacity refillPerS cost nowMs).2.afterCalls between with hafter
  -- whether a later call finds its cost depends on the time it has waited only
  have hwaited (t : ℤ) (ht : nowMs ≤ t) :
      (cost : ℚ) ≤ after.refilled key capacity refillPerS t ↔ r ≤ t - nowMs := by
    rw [refilled_of_record hrecord ht, le_min_iff, and_iff_right hcap, ← Int.cast_sub,
      covered_iff_waited hrefill, ← hr]
  have hpos : 1 ≤ r := by
    rw [hr, Int.one_le_ceil_iff]
    exact mul_pos (div_pos (sub_pos.mpr hshort) hrefill) (by norm_num)
  refine ⟨hpos, ?_, fun t ht hlt => ?_⟩
  · rw [consume_allowed_iff, hwaited _ (by omega)]
    omega
  · rw [consume_denied_iff, ← not_le, hwaited t ht]
    omega

/-- A bucket for one call a second, which is empty, tells the next call to
wait a second. -/
theorem second_call_admitted :
    (((({} : InMemoryTokenBucket).consume "k" 1 1 1 0).2.consume "k" 1 1 1 0).2.consume
      "k" 1 1 1 1000).1.1 = 1 := by
  have hdenied : ((({} : InMemoryTokenBucket).consume "k" 1 1 1 0).2.consume "k" 1 1 1 0).1 =
      (0, 1000) := by decide +kernel
  have hother : ∀ c ∈ ([] : List BucketCall), c.key ≠ "k" := by simp
  exact (retryAfter_exact _ "k" one_pos le_rfl hdenied hother).2.1

end RateLimit
