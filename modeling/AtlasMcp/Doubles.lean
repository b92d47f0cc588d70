import Mathlib.Algebra.Order.Floor.Ring
import Mathlib.Data.Rat.Floor
import Mathlib.Tactic

/-!
# Rounding to doubles

A double is an integer of at most 53 bits, scaled by a power of two; the bounds on the power
are left out.  An arithmetic operation gives a double nearest to the exact result.
-/

namespace Doubles

/-- A number that a double can hold: fifty-three bits, and an exponent.  How
small or how large the exponent may be makes no difference here. -/
def IsDouble (r : ℚ) : Prop := ∃ m e : ℤ, |m| < 2 ^ 53 ∧ r = m * 2 ^ e

/-- No double is nearer: what an operation of doubles gives for the exact
result.  Of two doubles that are equally near it may be either. -/
structure Nearest (x r : ℚ) : Prop where
  isDouble : IsDouble r
  le : ∀ s, IsDouble s → |x - r| ≤ |x - s|

variable {x r s : ℚ}

theorem isDouble_intCast {m : ℤ} (h : |m| < 2 ^ 53) : IsDouble m := ⟨m, 0, h, by simp⟩

/-- So is an integer of fifty-three bits, divided by a power of two. -/
theorem isDouble_div_two_pow {m : ℤ} (h : |m| < 2 ^ 53) (t : ℕ) : IsDouble (m / 2 ^ t) :=
  ⟨m, -t, h, by rw [zpow_neg, zpow_natCast, div_eq_mul_inv]⟩

theorem Nearest.ge_of_le (h : Nearest x r) (hs : IsDouble s) (hle : s ≤ x) : s ≤ r := by
  have hnear := h.le s hs
  rw [abs_of_nonneg (sub_nonneg.mpr hle)] at hnear
  have hr := le_abs_self (x - r)
  linarith

/-- Rounding does not go past a double. -/
theorem Nearest.le_of_ge (h : Nearest x r) (hs : IsDouble s) (hge : x ≤ s) : r ≤ s := by
  have hnear := h.le s hs
  rw [abs_of_nonpos (sub_nonpos.mpr hge)] at hnear
  have hr := neg_abs_le (x - r)
  linarith

/-- There is a gap between a double and an integer above it. -/
theorem lt_mul_gap {k : ℤ} (hr : IsDouble r) (hk : k ≤ 2 ^ 53) (hlt : r < k) :
    r < 2 ^ 53 * (k - r) := by
  obtain ⟨m, e, hm, rfl⟩ := hr
  have hm' : (m : ℚ) < 2 ^ 53 := by exact_mod_cast (abs_lt.mp hm).2
  cases e with
  | ofNat t =>
      -- an integer is at least one below the next
      have hcast : (m : ℚ) * 2 ^ (Int.ofNat t) = ((m * 2 ^ t : ℤ) : ℚ) := by
        push_cast
        rw [Int.ofNat_eq_natCast, zpow_natCast]
      rw [hcast] at hlt ⊢
      have hone : m * 2 ^ t + 1 ≤ k := by exact_mod_cast hlt
      have hgap : (1 : ℚ) ≤ k - ((m * 2 ^ t : ℤ) : ℚ) := by
        have hone' : ((m * 2 ^ t : ℤ) : ℚ) + 1 ≤ k := by exact_mod_cast hone
        linarith
      have hk' : (k : ℚ) ≤ 2 ^ 53 := by exact_mod_cast hk
      linarith
  | negSucc t =>
      have hcast : (m : ℚ) * 2 ^ (Int.negSucc t) = m / 2 ^ (t + 1) := by
        rw [zpow_negSucc, div_eq_mul_inv]
      have hpos : (0 : ℚ) < 2 ^ (t + 1) := by positivity
      rw [hcast] at hlt ⊢
      have hone : m + 1 ≤ k * 2 ^ (t + 1) := by
        rw [div_lt_iff₀ hpos] at hlt
        exact_mod_cast hlt
      have hgap : (1 : ℚ) / 2 ^ (t + 1) ≤ k - m / 2 ^ (t + 1) := by
        have hone' : (m : ℚ) + 1 ≤ k * 2 ^ (t + 1) := by exact_mod_cast hone
        rw [le_sub_iff_add_le, ← add_div, div_le_iff₀ hpos]
        linarith
      calc (m : ℚ) / 2 ^ (t + 1) < 2 ^ 53 / 2 ^ (t + 1) := by gcongr
        _ = 2 ^ 53 * (1 / 2 ^ (t + 1)) := by ring
        _ ≤ 2 ^ 53 * (k - m / 2 ^ (t + 1)) := by gcongr

end Doubles
