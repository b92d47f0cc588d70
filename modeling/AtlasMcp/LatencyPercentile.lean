import AtlasMcp.Doubles
import AtlasMcp.LatencyTracker
import AtlasMcp.OrderStatistics
import AtlasMcp.RecentItems

/-!
# The estimated percentile

A tracker with a window holds, of each tool, the last durations that were recorded for it, as
many as the window has (`samples_recorded`).  Its estimate is one of them, with a share of
them on either side that a 95th percentile has to have (`p95_spec`).
-/

namespace Reliability.LatencyTracker

open Doubles OrderStatistics RecentItems

/-- A tracker after some calls of `record`. -/
def recorded (window : ℕ) (calls : List (String × ℚ)) : LatencyTracker :=
  calls.foldl (fun t call => t.record call.1 call.2) { window }

/-- The durations recorded for a tool, the oldest first. -/
def durationsOf (tool : String) (calls : List (String × ℚ)) : List ℚ :=
  (calls.filter fun call => call.1 = tool).map Prod.snd

/-- The samples of a tool. -/
def samplesOf (t : LatencyTracker) (tool : String) : List ℚ := (t.samples.lookup tool).getD []

theorem recorded_concat (window : ℕ) (calls : List (String × ℚ)) (call : String × ℚ) :
    recorded window (calls ++ [call]) = (recorded window calls).record call.1 call.2 := by
  rw [recorded, List.foldl_append]
  rfl

theorem window_recorded (window : ℕ) (calls : List (String × ℚ)) :
    (recorded window calls).window = window := by
  induction calls using List.reverseRecOn with
  | nil => rfl
  | append_singleton calls call ih =>
      rw [recorded_concat]
      exact ih

/-- The samples of a tool are the last ones, the new one behind them. -/
theorem samplesOf_record (t : LatencyTracker) (tool : String) (durationS : ℚ) :
    (t.record tool durationS).samplesOf tool =
      (t.samplesOf tool ++ [durationS]).rtake t.window := by
  simp only [samplesOf, record, AList.lookup_insert, Option.getD_some, List.rtake]

theorem samplesOf_record_ne (t : LatencyTracker) {tool other : String} (h : other ≠ tool)
    (durationS : ℚ) : (t.record other durationS).samplesOf tool = t.samplesOf tool := by
  simp only [samplesOf, record, AList.lookup_insert_ne h.symm]

/-- **What the tracker holds.**  The samples of a tool are the last durations
recorded for it. -/
theorem samplesOf_recorded (window : ℕ) (calls : List (String × ℚ)) (tool : String) :
    (recorded window calls).samplesOf tool = (durationsOf tool calls).rtake window := by
  induction calls using List.reverseRecOn with
  | nil => simp [recorded, samplesOf, durationsOf]
  | append_singleton calls call ih =>
      rw [recorded_concat]
      by_cases hcall : call.1 = tool
      · have hdurations : durationsOf tool (calls ++ [call]) =
            durationsOf tool calls ++ [call.2] := by
          simp [durationsOf, hcall]
        have hkeeps : KeepsLast window (durationsOf tool calls)
            ((durationsOf tool calls).rtake window) := (KeepsLast.self _ _).trim
        rw [hdurations, hcall, samplesOf_record, window_recorded, ih]
        exact (hkeeps.push call.2).rtake_eq
      · have hdurations : durationsOf tool (calls ++ [call]) = durationsOf tool calls := by
          simp [durationsOf, hcall]
        rw [hdurations, samplesOf_record_ne _ hcall, ih]

/-! ## The index -/

/-- The double nearest to `0.95` is off by little. -/
theorem literal_error {literal : ℚ} (hliteral : Nearest (95 / 100) literal) :
    |(95 / 100 : ℚ) - literal| ≤ 2 / 5 / 2 ^ 53 := by
  have hdouble : IsDouble ((8556839292003942 : ℤ) / 2 ^ 53) :=
    isDouble_div_two_pow (by norm_num) 53
  refine (hliteral.le _ hdouble).trans ?_
  rw [abs_le]
  constructor <;> norm_num

/-- `int(n * 0.95)` in doubles, where the literal and the product are both
rounded, is `n * 95 / 100`. -/
theorem floor_product {n : ℕ} (hn : n < 2 ^ 48) {literal product : ℚ}
    (hliteral : Nearest (95 / 100) literal) (hproduct : Nearest (n * literal) product) :
    ⌊product⌋ = (n * 95 / 100 : ℕ) := by
  have hn' : (n : ℚ) < 2 ^ 48 := by exact_mod_cast hn
  have hnonneg : (0 : ℚ) ≤ n := Nat.cast_nonneg n
  have herror : |(n : ℚ) * literal - n * (95 / 100)| ≤ n * (2 / 5 / 2 ^ 53) := by
    rw [← mul_sub, abs_mul, abs_of_nonneg hnonneg, abs_sub_comm]
    exact mul_le_mul_of_nonneg_left (literal_error hliteral) hnonneg
  obtain ⟨hlow, hhigh⟩ := abs_le.mp herror
  generalize hk : n * 95 / 100 = k
  generalize hrest : n * 95 % 100 = rest
  have hexact : (n : ℚ) * 95 = 100 * k + rest := by
    have hdivided : n * 95 = 100 * k + rest := by omega
    exact_mod_cast hdivided
  have hbits : k < 2 ^ 48 := by omega
  have hkdouble : IsDouble ((k : ℤ) : ℚ) :=
    isDouble_intCast (by rw [abs_of_nonneg (Int.natCast_nonneg k)]; omega)
  -- the largest double that is needed below the next integer
  have habove : IsDouble (((32 * k + 31 : ℕ) : ℤ) / 2 ^ 5) :=
    isDouble_div_two_pow (by rw [abs_of_nonneg (Int.natCast_nonneg _)]; omega) 5
  have hrest_le : (rest : ℚ) ≤ 95 := by
    have hle : rest ≤ 95 := by omega
    exact_mod_cast hle
  push_cast at hkdouble habove
  rw [Int.floor_eq_iff]
  constructor
  · by_contra hbelow
    have hlt : product < k := not_le.mp hbelow
    by_cases hle : (k : ℚ) ≤ n * literal
    · exact hbelow (hproduct.ge_of_le hkdouble hle)
    · -- then `k` is nearly the exact product, and the gap below it is too wide
      have hnear := hproduct.le _ hkdouble
      rw [abs_of_neg (sub_neg.mpr (not_le.mp hle))] at hnear
      have hback := (le_abs_self _).trans hnear
      have hgap := lt_mul_gap hproduct.isDouble (k := k) (by omega) (by exact_mod_cast hlt)
      push_cast at hgap
      have hrest_nonneg : (0 : ℚ) ≤ rest := Nat.cast_nonneg rest
      linarith
  · have hle : (n : ℚ) * literal ≤ (32 * k + 31) / 2 ^ 5 := by linarith
    have hbound := hproduct.le_of_ge habove hle
    push_cast
    linarith

/-- The estimate, from enough samples. -/
theorem orderStatistic_p95 {t : LatencyTracker} {tool : String}
    (henough : 20 ≤ (t.samplesOf tool).length) :
    orderStatistic (t.samplesOf tool) ((t.samplesOf tool).length * 95 / 100) =
      some (t.p95 tool) := by
  unfold samplesOf p95 at *
  cases hsamples : t.samples.lookup tool with
  | none =>
      rw [hsamples] at henough
      cases henough
  | some samples =>
      simp only [hsamples, Option.getD_some] at henough ⊢
      rw [if_neg (Nat.not_lt.mpr henough)]
      have hlength := List.length_insertionSort (· ≤ ·) samples
      have hplace : samples.length * 95 / 100 < samples.length := by omega
      have hmin : min (samples.length * 95 / 100) ((samples.insertionSort (· ≤ ·)).length - 1) =
          samples.length * 95 / 100 := by omega
      rw [hmin, orderStatistic, List.getD_eq_getElem?_getD]
      obtain ⟨x, hx⟩ := exists_orderStatistic hplace
      rw [orderStatistic] at hx
      rw [hx]
      rfl

/-- **The estimate is a 95th percentile.**  With twenty durations or more,
recorded for a tool in a window of twenty or more, it is one of the last
durations of the tool, as many as the window has.  At least 95 of 100 of these
are no greater, at least 5 of 100 are no less, and calls of other tools make
no difference.  It is the one at the place `int(n * 0.95)`, with both the
literal and the product rounded to doubles. -/
theorem p95_spec {window : ℕ} (hwindow : 20 ≤ window) {calls : List (String × ℚ)} {tool : String}
    (henough : 20 ≤ (durationsOf tool calls).length) :
    let p95 := (recorded window calls).p95 tool
    let kept := (durationsOf tool calls).rtake window
    kept.length = min window (durationsOf tool calls).length ∧ p95 ∈ kept ∧
      95 * kept.length ≤ 100 * kept.countP (· ≤ p95) ∧
      5 * kept.length ≤ 100 * kept.countP (p95 ≤ ·) ∧
      (∀ calls', durationsOf tool calls' = durationsOf tool calls →
        (recorded window calls').p95 tool = p95) ∧
      ∀ literal product, Nearest (95 / 100) literal → Nearest (kept.length * literal) product →
        kept.length < 2 ^ 48 → orderStatistic kept ⌊product⌋.toNat = some p95 := by
  intro p95 kept
  have hsamples : (recorded window calls).samplesOf tool = kept := samplesOf_recorded _ _ _
  have hlength : kept.length = min window (durationsOf tool calls).length := length_rtake _ _
  have hkept : 20 ≤ kept.length := by omega
  have hstatistic : orderStatistic kept (kept.length * 95 / 100) = some p95 :=
    hsamples ▸ orderStatistic_p95 (hsamples.symm ▸ hkept)
  have hle := lt_countP_le hstatistic
  have hge := le_countP_ge hstatistic
  refine ⟨hlength, orderStatistic_mem hstatistic, by omega, by omega, fun calls' hsame => ?_,
    fun literal product hliteral hproduct hbits => ?_⟩
  · have hsamples' : (recorded window calls').samplesOf tool = kept := by
      rw [samplesOf_recorded, hsame]
    have hstatistic' := hsamples' ▸ orderStatistic_p95 (hsamples'.symm ▸ hkept)
    exact Option.some.inj (hstatistic'.symm.trans hstatistic)
  · rw [floor_product hbits hliteral hproduct, Int.toNat_natCast]
    exact hstatistic

/-- Durations that grow, after a long one of another tool. -/
def growing : List (String × ℚ) :=
  ("http.fetch", 90) :: (List.range 25).map fun n => ("s3.get_object", (n : ℚ))

/-- Of the last twenty of them, all are at most the estimate, and one is as
long. -/
theorem p95_of_growing :
    let p95 := (recorded 20 growing).p95 "s3.get_object"
    let kept := (durationsOf "s3.get_object" growing).rtake 20
    p95 = 24 ∧ kept.length = 20 ∧ p95 ∈ kept ∧
      95 * kept.length ≤ 100 * kept.countP (· ≤ p95) ∧
      5 * kept.length ≤ 100 * kept.countP (p95 ≤ ·) := by
  have henough : 20 ≤ (durationsOf "s3.get_object" growing).length := by decide +kernel
  obtain ⟨-, hmem, hbelow, habove, -⟩ :=
    p95_spec (le_refl 20) henough
  exact ⟨by decide +kernel, by decide +kernel, hmem, hbelow, habove⟩

end Reliability.LatencyTracker
