import Mathlib.Data.List.Sort

/-!
# Order statistics

The item of a sorted list at place `i` is at least as great as `i + 1` of the items, itself
among them, and at most as great as all but `i` of them.
-/

namespace OrderStatistics

variable {α : Type*} [LinearOrder α]

/-- The item at place `i` when the list is sorted. -/
def orderStatistic (xs : List α) (i : ℕ) : Option α := (xs.insertionSort (· ≤ ·))[i]?

variable {xs : List α} {i : ℕ} {x : α}

theorem orderStatistic_mem (h : orderStatistic xs i = some x) : x ∈ xs :=
  (List.mem_insertionSort (· ≤ ·)).mp (List.mem_of_getElem? h)

theorem exists_orderStatistic (h : i < xs.length) : ∃ x, orderStatistic xs i = some x :=
  ⟨_, List.getElem?_eq_getElem (by rwa [List.length_insertionSort])⟩

/-- A sorted list falls into the items before a place, the one there, and
those after it. -/
theorem exists_split (h : orderStatistic xs i = some x) :
    ∃ front back, (front ++ x :: back).Perm xs ∧ front.length = i ∧
      (∀ y ∈ front, y ≤ x) ∧ ∀ y ∈ back, x ≤ y := by
  have hsorted := List.pairwise_insertionSort (· ≤ ·) xs
  obtain ⟨hlt, hget⟩ := List.getElem?_eq_some_iff.mp h
  have hsplit := List.take_append_drop i (xs.insertionSort (· ≤ ·))
  rw [List.drop_eq_getElem_cons hlt, hget] at hsplit
  rw [← hsplit, List.pairwise_append] at hsorted
  refine ⟨_, _, hsplit ▸ List.perm_insertionSort (· ≤ ·) xs, ?_, fun y hy => ?_, ?_⟩
  · rw [List.length_take]
    omega
  · exact hsorted.2.2 y hy x List.mem_cons_self
  · exact (List.pairwise_cons.mp hsorted.2.1).1

/-- More than `i` items are at most as great. -/
theorem lt_countP_le (h : orderStatistic xs i = some x) : i < xs.countP (· ≤ x) := by
  obtain ⟨front, back, hperm, rfl, hfront, -⟩ := exists_split h
  have hall : front.countP (· ≤ x) = front.length :=
    List.countP_eq_length.mpr fun y hy => decide_eq_true (hfront y hy)
  rw [← hperm.countP_eq, List.countP_append, hall, List.countP_cons]
  simp

/-- At least all but `i` items are as great or greater. -/
theorem le_countP_ge (h : orderStatistic xs i = some x) :
    xs.length ≤ i + xs.countP (x ≤ ·) := by
  obtain ⟨front, back, hperm, rfl, -, hback⟩ := exists_split h
  have hall : back.countP (x ≤ ·) = back.length :=
    List.countP_eq_length.mpr fun y hy => decide_eq_true (hback y hy)
  rw [← hperm.countP_eq, ← hperm.length_eq, List.countP_append, List.countP_cons, hall]
  simp only [List.length_append, List.length_cons, le_refl, decide_true, if_true]
  omega

/-- It keeps within a bound if and only if more than `i` items do. -/
theorem le_iff_lt_countP (h : orderStatistic xs i = some x) (bound : α) :
    x ≤ bound ↔ i < xs.countP (· ≤ bound) := by
  constructor
  · intro hle
    refine (lt_countP_le h).trans_le (List.countP_mono_left fun y _ hy => ?_)
    exact decide_eq_true ((of_decide_eq_true hy).trans hle)
  · intro hlt
    by_contra hgt
    -- the items within the bound are all less than `x`, and those are too few
    have hbelow : xs.countP (· ≤ bound) ≤ xs.countP fun y => decide ¬decide (x ≤ y) = true := by
      refine List.countP_mono_left fun y _ hy => ?_
      have hy : y < x := (of_decide_eq_true hy).trans_lt (not_le.mp hgt)
      simpa using hy
    have hcount := List.length_eq_countP_add_countP (l := xs) fun y => decide (x ≤ y)
    have hge := le_countP_ge h
    omega

end OrderStatistics
