import Mathlib

/-!
# Patterns with stars

A pattern is a list of letters, one of which is the star.  `Fits star p v` says that `v` is
`p` with each star replaced by some letters, possibly none and not the same for each star.

A pattern fits itself (`fits_self`).  Without stars it fits nothing else
(`fits_iff_eq`); with one star, at its end, it fits what starts with the letters before
the star (`fits_snoc_iff`).
-/

namespace StarPatterns

variable {α : Type*} {star : α}

/-- The letters are the pattern with something put in for each star.  A star may
stand for nothing as well. -/
inductive Fits (star : α) : List α → List α → Prop
  | nil : Fits star [] []
  | letter {a : α} {p v : List α} (hletter : a ≠ star) (h : Fits star p v) :
      Fits star (a :: p) (a :: v)
  | star {p v : List α} (w : List α) (h : Fits star p v) : Fits star (star :: p) (w ++ v)

/-- A pattern without letters and stars fits the empty text only. -/
theorem fits_nil_iff {v : List α} : Fits star [] v ↔ v = [] := by
  constructor
  · rintro ⟨⟩
    rfl
  · rintro rfl
    exact .nil

theorem fits_letter_iff {a : α} (hletter : a ≠ star) {p v : List α} :
    Fits star (a :: p) v ↔ ∃ rest, v = a :: rest ∧ Fits star p rest := by
  constructor
  · intro h
    cases h with
    | letter _ h => exact ⟨_, rfl, h⟩
    | star w h => exact absurd rfl hletter
  · rintro ⟨rest, rfl, h⟩
    exact .letter hletter h

/-- Each letter stands for itself, a star too. -/
theorem fits_self (p : List α) : Fits star p p := by
  induction p with
  | nil => exact .nil
  | cons a p ih =>
      by_cases h : a = star
      · subst h
        exact .star [a] ih
      · exact .letter h ih

/-- Two patterns one after the other fit what the one and the other do. -/
theorem Fits.append {p q v w : List α} (hp : Fits star p v) (hq : Fits star q w) :
    Fits star (p ++ q) (v ++ w) := by
  induction hp with
  | nil => exact hq
  | letter hletter _ ih => exact .letter hletter ih
  | star u _ ih =>
      rw [List.append_assoc]
      exact .star u ih

/-- The star alone fits everything. -/
theorem fits_star (v : List α) : Fits star [star] v := by
  have h : Fits star [star] (v ++ []) := .star v .nil
  rwa [List.append_nil] at h

/-- Letters and a star at the end fit what starts with the letters. -/
theorem fits_snoc_of_prefix {p v : List α} (h : p <+: v) : Fits star (p ++ [star]) v := by
  obtain ⟨rest, rfl⟩ := h
  exact (fits_self p).append (fits_star rest)

/-- **A pattern without stars fits only itself.** -/
theorem fits_iff_eq {p : List α} (hplain : star ∉ p) {v : List α} :
    Fits star p v ↔ p = v := by
  constructor
  · intro h
    induction h with
    | nil => rfl
    | letter _ _ ih => rw [ih fun hmem => hplain (List.mem_cons_of_mem _ hmem)]
    | star w _ _ => exact absurd (List.mem_cons_self ..) hplain
  · rintro rfl
    exact fits_self p

/-- **With a star at its end only, it fits what starts with the letters before
the star.** -/
theorem fits_snoc_iff {p : List α} (hplain : star ∉ p) {v : List α} :
    Fits star (p ++ [star]) v ↔ p <+: v := by
  refine ⟨fun h => ?_, fits_snoc_of_prefix⟩
  induction p generalizing v with
  | nil => exact List.nil_prefix
  | cons a p ih =>
      have hletter : a ≠ star := fun heq => hplain (heq ▸ List.mem_cons_self ..)
      obtain ⟨rest, rfl, hrest⟩ := (fits_letter_iff hletter).mp h
      exact List.cons_prefix_cons.mpr
        ⟨rfl, ih (fun hmem => hplain (List.mem_cons_of_mem _ hmem)) hrest⟩

end StarPatterns
