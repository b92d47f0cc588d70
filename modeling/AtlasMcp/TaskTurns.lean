import Mathlib.Data.List.Basic

/-!
# Tasks that take turns

Tasks share a state and take turns: in a turn one task moves, and all others stay where
they are.  `Replaced ts ts' i t` says that in the turn from `ts` to `ts'` the task at
place `i` came to be `t`; a new task takes the place after the last one.

What holds of each task is kept by a turn, if the turn establishes it of the task that
moves and leaves it true of the others (`Replaced.each`).  That at most one task has a
property is kept, if the task that moves does not have it after its turn, had it before,
or is the only one (`Replaced.atMostOne`).
-/

namespace TaskTurns

variable {T : Type*}

/-- The task at place `i` comes to be `t`, and all the others stay as they
are. -/
def Replaced (ts ts' : List T) (i : ℕ) (t : T) : Prop :=
  ts'[i]? = some t ∧ ∀ j, j ≠ i → ts'[j]? = ts[j]?

/-- Each task has the property. -/
def Each (P : T → Prop) (ts : List T) : Prop := ∀ (j : ℕ) (t : T), ts[j]? = some t → P t

/-- No two tasks have it. -/
def AtMostOne (P : T → Prop) (ts : List T) : Prop :=
  ∀ (i j : ℕ) (t u : T), ts[i]? = some t → ts[j]? = some u → P t → P u → i = j

variable {P Q : T → Prop} {ts ts' : List T} {i j : ℕ} {t t₀ u : T}

theorem replaced_set (h : ts[i]? = some t₀) (t : T) : Replaced ts (ts.set i t) i t := by
  obtain ⟨hi, _⟩ := List.getElem?_eq_some_iff.mp h
  refine ⟨by simp [hi], fun j hj => ?_⟩
  rw [List.getElem?_set_ne hj.symm]

theorem replaced_append (ts : List T) (t : T) : Replaced ts (ts ++ [t]) ts.length t := by
  refine ⟨by simp, fun j hj => ?_⟩
  rcases Nat.lt_or_gt_of_ne hj with hlt | hgt
  · rw [List.getElem?_append_left hlt]
  · rw [List.getElem?_eq_none (by simp; omega), List.getElem?_eq_none (by omega)]

/-- The tasks after a turn: the one that moved, and the others. -/
theorem Replaced.cases (h : Replaced ts ts' i t) (hj : ts'[j]? = some u) :
    (j = i ∧ u = t) ∨ (j ≠ i ∧ ts[j]? = some u) := by
  by_cases hji : j = i
  · subst hji
    exact Or.inl ⟨rfl, Option.some.inj (hj.symm.trans h.1)⟩
  · exact Or.inr ⟨hji, (h.2 j hji).symm.trans hj⟩

/-- Whoever is there afterwards is the new one, or was there before. -/
theorem Replaced.mem (h : Replaced ts ts' i t) (hu : u ∈ ts') : u = t ∨ u ∈ ts := by
  obtain ⟨j, hj⟩ := List.mem_iff_getElem?.mp hu
  rcases h.cases hj with ⟨-, hut⟩ | ⟨-, hts⟩
  · exact Or.inl hut
  · exact Or.inr (List.mem_of_getElem? hts)

/-- A new task comes after all others. -/
theorem Replaced.new (h : Replaced ts ts' i t) (hi : ts[i]? = none) :
    i = ts.length ∧ ts'.length = ts.length + 1 := by
  have hle : ts.length ≤ i := List.getElem?_eq_none_iff.mp hi
  have hlt : i < ts'.length := (List.getElem?_eq_some_iff.mp h.1).1
  have heq : i = ts.length := by
    by_cases hgt : i = ts.length
    · exact hgt
    · have hnone := h.2 ts.length (Ne.symm hgt)
      rw [List.getElem?_eq_none (Nat.le_refl _), List.getElem?_eq_none_iff] at hnone
      omega
  have hmore : ts[i + 1]? = none := List.getElem?_eq_none (by omega)
  have hnext := h.2 (i + 1) (Nat.succ_ne_self i)
  rw [hmore, List.getElem?_eq_none_iff] at hnext
  exact ⟨heq, by omega⟩

/-- A turn of a task that is there brings no new one. -/
theorem Replaced.length_eq (h : Replaced ts ts' i t) (hi : ts[i]? = some t₀) :
    ts'.length = ts.length := by
  have hlt : i < ts.length := (List.getElem?_eq_some_iff.mp hi).1
  have hlt' : i < ts'.length := (List.getElem?_eq_some_iff.mp h.1).1
  have hmore := h.2 ts.length (by omega)
  have hmore' := h.2 ts'.length (by omega)
  rw [List.getElem?_eq_none (Nat.le_refl _), List.getElem?_eq_none_iff] at hmore
  rw [List.getElem?_eq_none (Nat.le_refl _), eq_comm, List.getElem?_eq_none_iff] at hmore'
  exact Nat.le_antisymm hmore hmore'

theorem each_nil : Each P ([] : List T) := by
  intro j t h
  simp at h

/-- What follows for one task follows for each of them. -/
theorem Each.imp (hts : Each P ts) (h : ∀ t, P t → Q t) : Each Q ts :=
  fun j t hj => h t (hts j t hj)

/-- A turn that leaves the property true of the others, and establishes it of
the task that moves. -/
theorem Replaced.each (h : Replaced ts ts' i t) (hts : Each P ts)
    (hothers : ∀ j u, j ≠ i → ts[j]? = some u → P u → Q u) (ht : Q t) : Each Q ts' := by
  intro j u hj
  rcases h.cases hj with ⟨rfl, rfl⟩ | ⟨hji, hu⟩
  · exact ht
  · exact hothers j u hji hu (hts j u hu)

theorem atMostOne_nil : AtMostOne P ([] : List T) := by
  intro i j t u h
  simp at h

/-- A turn of a task that had the property, or after which it does not have it
or no other one has. -/
theorem Replaced.atMostOne (h : Replaced ts ts' i t) (hts : AtMostOne P ts)
    (ht : P t → (∃ t₀, ts[i]? = some t₀ ∧ P t₀) ∨ ∀ j u, j ≠ i → ts[j]? = some u → ¬ P u) :
    AtMostOne P ts' := by
  have hother : ∀ j u, j ≠ i → ts[j]? = some u → P t → ¬ P u := by
    intro j u hji hu hP hPu
    rcases ht hP with ⟨t₀, ht₀, hP₀⟩ | hnone
    · exact hji (hts j i u t₀ hu ht₀ hPu hP₀)
    · exact hnone j u hji hu hPu
  intro j k u v hj hk hu hv
  rcases h.cases hj with ⟨rfl, rfl⟩ | ⟨hji, hju⟩
  · rcases h.cases hk with ⟨rfl, rfl⟩ | ⟨hki, hkv⟩
    · rfl
    · exact absurd hv (hother k v hki hkv hu)
  · rcases h.cases hk with ⟨rfl, rfl⟩ | ⟨hki, hkv⟩
    · exact absurd hu (hother j u hji hju hv)
    · exact hts j k u v hju hkv hu hv

end TaskTurns
