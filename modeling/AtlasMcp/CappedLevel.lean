import Mathlib

/-!
# Capped levels

A capped level starts full, loses `out k` at step `k` and gains `inc k` before
step `k+1`, never rising above its cap.  This is the arithmetic core of every
token bucket and every leaky reservoir.

The level is a one-step recurrence with a cap in it.  Its closed form has no
recurrence: what is available at step `n` is the least, over all windows
`[j, n)` ending there, of the cap plus what the window gained less what it
lost.  `le_level_iff` states this as a test, in both directions, over any
linearly ordered group; nothing is assumed of the signs of the gains and the
losses.

`level_add_sum_le` and `sum_out_le` bound the total loss by the cap and the
gains, and `level_of_drained` shows the bound is reached when every step takes
exactly what was gained just before it.
-/

namespace CappedLevel

variable {α : Type*} [AddCommGroup α] [LinearOrder α]

/-- The level available at step `n`: full at first, then lowered by `out` and
raised by `inc` between steps, with the overflow over `cap` lost. -/
def level (cap : α) (inc out : ℕ → α) : ℕ → α
  | 0 => cap
  | n + 1 => min cap (level cap inc out n - out n + inc n)

@[simp]
theorem level_zero (cap : α) (inc out : ℕ → α) : level cap inc out 0 = cap := rfl

/-- The level falls by what goes out, and rises by what comes in, but not
above the cap. -/
theorem level_succ (cap : α) (inc out : ℕ → α) (n : ℕ) :
    level cap inc out (n + 1) = min cap (level cap inc out n - out n + inc n) :=
  rfl

/-- **Draining.**  Let the first step want the full level and every later step
want exactly the gain before it.  If a step that finds what it wants takes it,
and no single gain overflows the cap, then every step finds what it wants. -/
theorem level_of_drained {cap : α} {inc out : ℕ → α} (want : ℕ → α) {n : ℕ}
    (hfirst : want 0 = cap) (hnext : ∀ k, want (k + 1) = inc k)
    (htake : ∀ k < n, level cap inc out k = want k → out k = want k)
    (hfit : ∀ k < n, inc k ≤ cap) : level cap inc out n = want n := by
  induction n with
  | zero => exact hfirst.symm
  | succ n ih =>
      have hn : level cap inc out n = want n :=
        ih (fun k hk => htake k (by omega)) (fun k hk => hfit k (by omega))
      rw [level_succ, htake n (by omega) hn, hn, sub_self, zero_add, hnext,
        min_eq_right (hfit n (by omega))]

variable [IsOrderedAddMonoid α]

/-- **The min-plus form of a capped level.**  An amount is available at step
`n` exactly when no window ending at `n` is exhausted by it: for every start
`j`, the loss since `j` plus the amount stays within the cap plus the gain
since `j`. -/
theorem le_level_iff (cap : α) (inc out : ℕ → α) (n : ℕ) (c : α) :
    c ≤ level cap inc out n ↔
      ∀ j ≤ n, (∑ i ∈ Finset.Ico j n, out i) + c ≤
        cap + ∑ i ∈ Finset.Ico j n, inc i := by
  induction n generalizing c with
  | zero => simp
  | succ n ih =>
      -- one step back, the request grows by the loss and shrinks by the gain
      have hback : c ≤ level cap inc out n - out n + inc n ↔
          c + out n - inc n ≤ level cap inc out n := by
        rw [sub_add_eq_add_sub, le_sub_iff_add_le, sub_le_iff_le_add]
      have hwindow : ∀ j ≤ n,
          ((∑ i ∈ Finset.Ico j n, out i) + (c + out n - inc n) ≤
              cap + ∑ i ∈ Finset.Ico j n, inc i ↔
            (∑ i ∈ Finset.Ico j (n + 1), out i) + c ≤
              cap + ∑ i ∈ Finset.Ico j (n + 1), inc i) := by
        intro j hj
        rw [Finset.sum_Ico_succ_top hj, Finset.sum_Ico_succ_top hj, ← add_sub_assoc,
          sub_le_iff_le_add, add_assoc cap]
        rw [show (∑ i ∈ Finset.Ico j n, out i) + (c + out n) =
          (∑ i ∈ Finset.Ico j n, out i) + out n + c by abel]
      rw [level_succ, le_min_iff, hback, ih]
      constructor
      · intro h j hj
        obtain ⟨hcap, hearlier⟩ := h
        rcases Nat.le_succ_iff.mp hj with hjn | rfl
        · exact (hwindow j hjn).mp (hearlier j hjn)
        · simpa using hcap
      · intro h
        refine ⟨by simpa using h (n + 1) le_rfl, fun j hj => ?_⟩
        exact (hwindow j hj).mpr (h j (Nat.le_succ_of_le hj))

/-- What is left at step `n` and what was taken before it never exceed the cap
plus everything gained. -/
theorem level_add_sum_le (cap : α) (inc out : ℕ → α) (n : ℕ) :
    level cap inc out n + ∑ i ∈ Finset.range n, out i ≤
      cap + ∑ i ∈ Finset.range n, inc i := by
  have h := (le_level_iff cap inc out n _).mp le_rfl 0 (Nat.zero_le n)
  rwa [add_comm, Nat.Ico_zero_eq_range] at h

/-- If no step takes more than the level it finds, the total loss is at most
the cap plus the gains between the steps. -/
theorem sum_out_le (cap : α) (inc out : ℕ → α) (n : ℕ)
    (hout : out n ≤ level cap inc out n) :
    ∑ i ∈ Finset.range (n + 1), out i ≤ cap + ∑ i ∈ Finset.range n, inc i := by
  have h := level_add_sum_le cap inc out n
  rw [Finset.sum_range_succ, add_comm]
  exact le_trans (add_le_add_left hout _) h

/-- A level whose steps never take more than a nonnegative level holds stays
nonnegative. -/
theorem level_nonneg {cap : α} {inc out : ℕ → α} (hcap : 0 ≤ cap)
    (hinc : ∀ n, 0 ≤ inc n)
    (hout : ∀ n, 0 ≤ level cap inc out n → out n ≤ level cap inc out n) (n : ℕ) :
    0 ≤ level cap inc out n := by
  induction n with
  | zero => exact hcap
  | succ n ih =>
      have hleft : 0 ≤ level cap inc out n - out n := sub_nonneg.mpr (hout n ih)
      exact le_min hcap (add_nonneg hleft (hinc n))

end CappedLevel
