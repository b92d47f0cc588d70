import Mathlib
import AtlasMcp.TokenBucket

/-!
# What a token bucket admits

Two results about runs of calls on one key.

With clock readings that never step back, `admitted_iff_no_window_exhausted`
is the exact admission rule: a call is admitted if and only if it exhausts no
window ending at it.

With clock readings in any order the bucket is credited for every forward
step, also for one that repeats a stretch of time the clock has already passed:
a call stores its own `now_ms` even when it is older than the stored one.
`sum_admittedCost_le` bounds the admitted total by the forward travel of the
readings, and `within_span_iff` shows that the bound by their span
`max - min` holds for all quotas and costs exactly when the forward travel does
not exceed the span.
-/

namespace RateLimit

open Finset InMemoryTokenBucket

section Monotone

variable (key : String) (capacity : ℤ) (refillPerS : ℚ) (reqs : ℕ → Request)

/-- Credits over a window telescope when the clock never steps back. -/
theorem sum_credit_of_monotone {j n : ℕ} (hjn : j ≤ n)
    (hmono : ∀ i < n, (reqs i).nowMs ≤ (reqs (i + 1)).nowMs) :
    ∑ i ∈ Ico j n, credit refillPerS reqs i =
      refillPerS * (((reqs n).nowMs - (reqs j).nowMs : ℤ) / 1000) := by
  induction n, hjn using Nat.le_induction with
  | base => simp
  | succ n hjn ih =>
      rw [sum_Ico_succ_top hjn, ih fun i hi => hmono i (by omega), credit,
        elapsedS_of_le (hmono n (by omega))]
      push_cast
      ring

/-- **The exact admission rule.**  Under a clock that never steps back, call
`n` is admitted if and only if for every window starting at a call `j ≤ n` the
cost admitted in the window plus its own cost is at most the capacity plus the
refill since call `j`. -/
theorem admitted_iff_no_window_exhausted (n : ℕ)
    (hmono : ∀ i < n, (reqs i).nowMs ≤ (reqs (i + 1)).nowMs) :
    (answer key capacity refillPerS reqs n).1 = 1 ↔
      ∀ j ≤ n,
        ((∑ i ∈ Ico j n, admittedCost key capacity refillPerS reqs i : ℤ) : ℚ) +
            (reqs n).cost ≤
          capacity +
            refillPerS * (((reqs n).nowMs - (reqs j).nowMs : ℤ) / 1000) := by
  rw [answer_allowed_iff, tokensFound_eq_level, CappedLevel.le_level_iff]
  refine forall₂_congr fun j hj => ?_
  rw [sum_credit_of_monotone refillPerS reqs hj hmono, Int.cast_sum]

/-- A call of cost two and one of cost one at time `0`, then calls of cost one
at time `1500`. -/
def drainThenWait : ℕ → Request
  | 0 => ⟨2, 0⟩
  | 1 => ⟨1, 0⟩
  | _ => ⟨1, 1500⟩

/-- A bucket of two tokens, refilled by one a second, has one to spare a
second and a half after it was drained. -/
theorem drained_bucket_refills : (answer "k" 2 1 drainThenWait 2).1 = 1 :=
  (admitted_iff_no_window_exhausted "k" 2 1 drainThenWait 2 (by decide)).mpr
    (by decide +kernel)

end Monotone

section AnyOrder

variable (nowMs : ℕ → ℤ)

/-- How far the readings `0 .. n` move forward, summed over neighbours. -/
def forwardMs (n : ℕ) : ℤ := ∑ i ∈ range n, max 0 (nowMs (i + 1) - nowMs i)

/-- The latest of the readings `0 .. n`. -/
def latestMs (n : ℕ) : ℤ := (range (n + 1)).sup' nonempty_range_add_one nowMs

/-- The earliest of the readings `0 .. n`. -/
def earliestMs (n : ℕ) : ℤ := (range (n + 1)).inf' nonempty_range_add_one nowMs

/-- A run of calls with the given costs and clock readings. -/
def requests (cost nowMs : ℕ → ℤ) (i : ℕ) : Request := ⟨cost i, nowMs i⟩

theorem credit_requests (refillPerS : ℚ) (cost : ℕ → ℤ) (i : ℕ) :
    credit refillPerS (requests cost nowMs) i =
      refillPerS * ((max 0 (nowMs (i + 1) - nowMs i) : ℤ) / 1000) := by
  rw [credit, elapsedS, mul_comm]
  congr 1
  rcases le_total (nowMs (i + 1) - nowMs i) 0 with h | h
  · have hcast : ((nowMs (i + 1) - nowMs i : ℤ) : ℚ) / 1000 ≤ 0 :=
      div_nonpos_of_nonpos_of_nonneg (by exact_mod_cast h) (by norm_num)
    simp only [requests, max_eq_left h, max_eq_left hcast]
    norm_num
  · have hcast : (0 : ℚ) ≤ ((nowMs (i + 1) - nowMs i : ℤ) : ℚ) / 1000 :=
      div_nonneg (by exact_mod_cast h) (by norm_num)
    simp only [requests, max_eq_right h, max_eq_right hcast]

/-- What comes into it is worth the time that has gone forward, whatever went
back in between. -/
theorem sum_credit_requests (refillPerS : ℚ) (cost : ℕ → ℤ) (n : ℕ) :
    ∑ i ∈ range n, credit refillPerS (requests cost nowMs) i =
      refillPerS * (forwardMs nowMs n / 1000) := by
  simp_rw [credit_requests, ← mul_sum, ← sum_div, forwardMs, Int.cast_sum]

/-- **The forward-travel bound.**  Whatever the order of the clock readings,
the admitted total is at most the capacity plus the refill over the forward
travel of the readings. -/
theorem sum_admittedCost_le (key : String) {capacity : ℤ} {refillPerS : ℚ}
    (hcapacity : 0 ≤ capacity) (hrefill : 0 ≤ refillPerS) (cost : ℕ → ℤ) (n : ℕ) :
    ((∑ i ∈ range (n + 1),
        admittedCost key capacity refillPerS (requests cost nowMs) i : ℤ) : ℚ) ≤
      capacity + refillPerS * (forwardMs nowMs n / 1000) := by
  have hcap : (0 : ℚ) ≤ capacity := by exact_mod_cast hcapacity
  have hcredit : ∀ i, 0 ≤ credit refillPerS (requests cost nowMs) i := fun i =>
    mul_nonneg (elapsedS_nonneg _ _) hrefill
  have htaken := fun i => tokensFound_eq_level key capacity refillPerS
    (requests cost nowMs) i ▸
      admittedCost_le_found key capacity refillPerS (requests cost nowMs)
  have hlast := htaken n (CappedLevel.level_nonneg hcap hcredit htaken n)
  have hsum := CappedLevel.sum_out_le (capacity : ℚ)
    (credit refillPerS (requests cost nowMs)) _ n hlast
  rwa [sum_credit_requests, ← Int.cast_sum] at hsum

/-- The costs that drain a bucket of one token per millisecond: all of it at
first, then exactly what each forward step of the clock credits. -/
def drainingCost (n : ℕ) : ℕ → ℤ
  | 0 => forwardMs nowMs n
  | i + 1 => max 0 (nowMs (i + 1) - nowMs i)

theorem sum_drainingCost (n : ℕ) :
    ∑ i ∈ range (n + 1), drainingCost nowMs n i = 2 * forwardMs nowMs n := by
  rw [sum_range_succ', two_mul]
  rfl

/-- Every call of the draining run is admitted. -/
theorem admittedCost_draining (key : String) {n i : ℕ} (hi : i ≤ n) :
    admittedCost key (forwardMs nowMs n) 1000
        (requests (drainingCost nowMs n) nowMs) i = drainingCost nowMs n i := by
  have hnext : ∀ k, (drainingCost nowMs n (k + 1) : ℚ) =
      credit 1000 (requests (drainingCost nowMs n) nowMs) k := by
    intro k
    rw [credit_requests, mul_div_cancel₀ _ (by norm_num : (1000 : ℚ) ≠ 0)]
    rfl
  have hfit : ∀ k < n, credit 1000 (requests (drainingCost nowMs n) nowMs) k ≤
      (forwardMs nowMs n : ℚ) := by
    intro k hk
    rw [← hnext k]
    exact_mod_cast single_le_sum (f := fun i => max 0 (nowMs (i + 1) - nowMs i))
      (fun i _ => le_max_left _ _) (mem_range.mpr hk)
  have htake : ∀ k, tokensFound key (forwardMs nowMs n) 1000
        (requests (drainingCost nowMs n) nowMs) k = drainingCost nowMs n k →
      (admittedCost key (forwardMs nowMs n) 1000
        (requests (drainingCost nowMs n) nowMs) k : ℚ) = drainingCost nowMs n k := by
    intro k hfound
    rw [admittedCost_of_allowed _ _ _ _ ((answer_allowed_iff _ _ _ _ k).mpr hfound.ge)]
    rfl
  have hfound : tokensFound key (forwardMs nowMs n) 1000
      (requests (drainingCost nowMs n) nowMs) i = drainingCost nowMs n i := by
    simp only [tokensFound_eq_level] at htake ⊢
    exact CappedLevel.level_of_drained (fun k => (drainingCost nowMs n k : ℚ))
      rfl hnext (fun k _ => htake k) (fun k hk => hfit k (by omega))
  exact_mod_cast htake i hfound

/-- **When the span bounds the admitted total.**  For given clock readings the
admitted total stays within the capacity plus the refill over their span, for
every key, quota and cost, exactly when the readings' forward travel does not
exceed their span, i.e. when the clock passes no stretch of time twice. -/
theorem within_span_iff (n : ℕ) :
    (∀ (key : String) (capacity : ℤ) (refillPerS : ℚ) (cost : ℕ → ℤ),
      0 ≤ capacity → 0 ≤ refillPerS →
      ((∑ i ∈ range (n + 1),
          admittedCost key capacity refillPerS (requests cost nowMs) i : ℤ) : ℚ) ≤
        capacity +
          refillPerS * ((latestMs nowMs n - earliestMs nowMs n : ℤ) / 1000)) ↔
      forwardMs nowMs n ≤ latestMs nowMs n - earliestMs nowMs n := by
  constructor
  · intro h
    have hforward : 0 ≤ forwardMs nowMs n := sum_nonneg fun i _ => le_max_left _ _
    have hdrain := h "k" (forwardMs nowMs n) 1000 (drainingCost nowMs n) hforward
      (by norm_num)
    rw [sum_congr rfl fun i hi =>
      admittedCost_draining nowMs "k" (Nat.lt_succ_iff.mp (mem_range.mp hi)),
      sum_drainingCost, mul_div_cancel₀ _ (by norm_num : (1000 : ℚ) ≠ 0)] at hdrain
    have hcast : 2 * forwardMs nowMs n ≤
        forwardMs nowMs n + (latestMs nowMs n - earliestMs nowMs n) := by
      exact_mod_cast hdrain
    omega
  · intro h key capacity refillPerS cost hcapacity hrefill
    apply le_trans (sum_admittedCost_le nowMs key hcapacity hrefill cost n)
    have hcast : (forwardMs nowMs n : ℚ) ≤
        (latestMs nowMs n - earliestMs nowMs n : ℤ) := by exact_mod_cast h
    gcongr

end AnyOrder

/-- Readings of a clock that flips between `1000` and `0`. -/
def flippingMs (i : ℕ) : ℤ := if i % 2 = 0 then 1000 else 0

/-- A bucket of one token, refilled by one a second, admits three calls of
cost one while the clock readings span a single second. -/
theorem flipping_clock_overadmits :
    ¬ ((∑ i ∈ range 5,
        admittedCost "k" 1 1 (requests (fun _ => 1) flippingMs) i : ℤ) : ℚ) ≤
      (1 : ℤ) + 1 * ((latestMs flippingMs 4 - earliestMs flippingMs 4 : ℤ) / 1000) := by
  decide +kernel

end RateLimit
