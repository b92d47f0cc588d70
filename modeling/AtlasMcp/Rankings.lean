import Mathlib

/-!
# Rankings

The items of a list by falling score.  The sort is stable: items of equal score keep the
order of the list.

`top_eq_iff` says when the first items of the ranking do not depend on that order: two items
of equal score must both come after all the places that are looked at.
-/

namespace Rankings

variable {β α : Type*} [LinearOrder α] {f : β → α} {l : List β}

/-- The items by falling score. -/
def ranking (f : β → α) (l : List β) : List β := l.mergeSort fun a b => f b ≤ f a

theorem ranking_perm (f : β → α) (l : List β) : (ranking f l).Perm l := List.mergeSort_perm ..

theorem atLeast_trans (f : β → α) (a b c : β) (hab : decide (f b ≤ f a) = true)
    (hbc : decide (f c ≤ f b) = true) : decide (f c ≤ f a) = true := by
  rw [decide_eq_true_eq] at hab hbc ⊢
  exact hbc.trans hab

theorem atLeast_total (f : β → α) (a b : β) :
    (decide (f b ≤ f a) || decide (f a ≤ f b)) = true := by
  rw [Bool.or_eq_true, decide_eq_true_eq, decide_eq_true_eq]
  exact le_total _ _

theorem ranking_sorted (f : β → α) (l : List β) :
    (ranking f l).Pairwise fun a b => f b ≤ f a := by
  have hsorted : (ranking f l).Pairwise fun a b => decide (f b ≤ f a) = true :=
    List.pairwise_mergeSort (atLeast_trans f) (atLeast_total f) l
  simpa using hsorted

/-- Items made of others are ranked as these. -/
theorem ranking_map {γ : Type*} (f : β → α) (g : γ → β) (l : List γ) :
    ranking f (l.map g) = (ranking (f ∘ g) l).map g :=
  (List.map_mergeSort (s := fun a b => decide (f b ≤ f a)) fun _ _ _ _ => rfl).symm

/-- No item that is left out has a higher score than one that is not. -/
theorem le_of_left_out {k : ℕ} {a b : β} (ha : a ∈ (ranking f l).take k) (hb : b ∈ l)
    (hout : b ∉ (ranking f l).take k) : f b ≤ f a := by
  have hmem : b ∈ (ranking f l).take k ++ (ranking f l).drop k := by
    rw [List.take_append_drop]
    exact (ranking_perm f l).mem_iff.mpr hb
  have hdrop := (List.mem_append.mp hmem).resolve_left hout
  exact (ranking_sorted f l).rel_of_mem_take_of_mem_drop ha hdrop

/-- An item of higher score stands before. -/
theorem higher_before {a b : β} {j : ℕ} (ha : a ∈ l) (hb : (ranking f l)[j]? = some b)
    (hlt : f b < f a) : ∃ i < j, (ranking f l)[i]? = some a := by
  obtain ⟨i, ha⟩ := List.mem_iff_getElem?.mp ((ranking_perm f l).mem_iff.mpr ha)
  refine ⟨i, ?_, ha⟩
  by_contra hji
  rcases (Nat.not_lt.mp hji).eq_or_lt with rfl | hji
  · obtain rfl : b = a := Option.some.inj (hb.symm.trans ha)
    exact lt_irrefl _ hlt
  · obtain ⟨hi, rfl⟩ := List.getElem?_eq_some_iff.mp ha
    obtain ⟨hj, rfl⟩ := List.getElem?_eq_some_iff.mp hb
    exact absurd (List.pairwise_iff_getElem.mp (ranking_sorted f l) j i hj hi hji) (not_le.mpr hlt)

/-- The first item of the list stands before all others of its score. -/
theorem ranking_cons (f : β → α) (a : β) (l : List β) :
    ∃ before after, ranking f (a :: l) = before ++ a :: after ∧ ∀ b ∈ before, f a < f b := by
  obtain ⟨before, after, heq, -, hbefore⟩ :=
    List.mergeSort_cons (atLeast_trans f) (atLeast_total f) a l
  exact ⟨before, after, heq, fun b hb => by simpa using hbefore b hb⟩

/-- What stands at a place has at most that many items above it. -/
theorem countP_higher_le {i : ℕ} {a : β} (ha : (ranking f l)[i]? = some a) :
    l.countP (f a < f ·) ≤ i := by
  have hrest : ((ranking f l).drop i).countP (f a < f ·) = 0 := by
    rw [List.countP_eq_zero]
    intro b hb
    obtain ⟨hi, rfl⟩ := List.getElem?_eq_some_iff.mp ha
    obtain ⟨j, hj, rfl⟩ := List.mem_drop_iff_getElem.mp hb
    rw [decide_eq_true_eq, not_lt]
    rcases Nat.eq_zero_or_pos j with rfl | hpos
    · exact le_rfl
    · exact List.pairwise_iff_getElem.mp (ranking_sorted f l) i (i + j) hi (by omega) (by omega)
  calc l.countP (f a < f ·)
      = ((ranking f l).take i ++ (ranking f l).drop i).countP (f a < f ·) := by
        rw [List.take_append_drop, (ranking_perm f l).countP_eq]
    _ = ((ranking f l).take i).countP (f a < f ·) := by
        rw [List.countP_append, hrest, Nat.add_zero]
    _ ≤ ((ranking f l).take i).length := List.countP_le_length
    _ ≤ i := List.length_take_le ..

/-- The items above the first of its score are all that stand before it. -/
theorem length_le_countP {before after : List β} {a : β}
    (hperm : (before ++ a :: after).Perm l) (hbefore : ∀ b ∈ before, f a < f b) :
    before.length ≤ l.countP (f a < f ·) := by
  rw [← hperm.countP_eq, List.countP_append]
  have hall : before.countP (f a < f ·) = before.length :=
    List.countP_eq_length.mpr fun b hb => decide_eq_true (hbefore b hb)
  omega

/-- Another item of the same score stands behind. -/
theorem length_lt_of_getElem? {before after : List β} {a b : β} {i : ℕ}
    (hbefore : ∀ c ∈ before, f a < f c) (hb : (before ++ a :: after)[i]? = some b) (hne : b ≠ a)
    (heq : f b = f a) : before.length < i := by
  by_contra hle
  rcases (Nat.not_lt.mp hle).eq_or_lt with rfl | hlt
  · simp at hb
    exact hne hb.symm
  · rw [List.getElem?_append_left hlt] at hb
    exact absurd heq (hbefore b (List.mem_of_getElem? hb)).ne'

/-- The scores of a ranking do not depend on the order of the list. -/
theorem map_ranking_eq {l₁ l₂ : List β} (h : l₁.Perm l₂) :
    (ranking f l₁).map f = (ranking f l₂).map f := by
  refine List.Perm.eq_of_pairwise
    (fun x y _ _ (hxy : y ≤ x) (hyx : x ≤ y) => le_antisymm hyx hxy) ?_ ?_ ?_
  · exact List.pairwise_map.mpr (ranking_sorted f l₁)
  · exact List.pairwise_map.mpr (ranking_sorted f l₂)
  · exact (((ranking_perm f l₁).trans h).trans (ranking_perm f l₂).symm).map f

/-- Items with one score, of which the first `k` places hold at least one,
make the order of the list matter: each of them is the first of its score in
some order. -/
theorem countP_higher_of_top_eq {k : ℕ}
    (hsame : ∀ l₁ l₂ : List β, l₁.Perm l → l₂.Perm l →
      (ranking f l₁).take k = (ranking f l₂).take k)
    {a b : β} (ha : a ∈ l) (hb : b ∈ l) (hne : a ≠ b) (heq : f a = f b) :
    k ≤ l.countP (f a < f ·) := by
  classical
  by_contra hk
  have hperm := List.perm_cons_erase ha
  have hperm' := List.perm_cons_erase hb
  obtain ⟨before, after, hranking, hbefore⟩ := ranking_cons f a (l.erase a)
  obtain ⟨before', after', hranking', hbefore'⟩ := ranking_cons f b (l.erase b)
  have hplace : before.length < k := by
    have hle := length_le_countP (hranking ▸ (ranking_perm f _).trans hperm.symm) hbefore
    omega
  have hplace' : before'.length < k := by
    have hle := length_le_countP (hranking' ▸ (ranking_perm f _).trans hperm'.symm) hbefore'
    rw [← heq] at hle
    omega
  have htop := hsame _ _ hperm.symm hperm'.symm
  rw [hranking, hranking'] at htop
  -- so each of the two stands behind the other
  have hb' : (before ++ a :: after)[before'.length]? = some b := by
    have hentry := congrArg (·[before'.length]?) htop
    simpa [List.getElem?_take_of_lt hplace'] using hentry
  have ha' : (before' ++ b :: after')[before.length]? = some a := by
    have hentry := congrArg (·[before.length]?) htop
    simpa [List.getElem?_take_of_lt hplace] using hentry.symm
  have hlt := length_lt_of_getElem? hbefore hb' hne.symm heq.symm
  have hlt' := length_lt_of_getElem? hbefore' ha' hne heq
  omega

/-- **When the order of the list does not matter** for the first `k` items: of
two items with equal score, at least `k` others have a higher one. -/
theorem top_eq_iff (f : β → α) (l : List β) (k : ℕ) :
    (∀ l₁ l₂ : List β, l₁.Perm l → l₂.Perm l →
        (ranking f l₁).take k = (ranking f l₂).take k) ↔
      ∀ a ∈ l, ∀ b ∈ l, a ≠ b → f a = f b → k ≤ l.countP (f a < f ·) := by
  constructor
  · intro hsame a ha b hb hne heq
    exact countP_higher_of_top_eq hsame ha hb hne heq
  · intro hties l₁ l₂ hperm₁ hperm₂
    have hmem : ∀ {l' : List β} {i : ℕ} {c : β}, l'.Perm l → (ranking f l')[i]? = some c →
        c ∈ l := fun hperm hc =>
      hperm.mem_iff.mp ((ranking_perm f _).mem_iff.mp (List.mem_of_getElem? hc))
    apply List.ext_getElem?
    intro i
    rcases Nat.lt_or_ge i k with hi | hi
    · rw [List.getElem?_take_of_lt hi, List.getElem?_take_of_lt hi]
      have hscore := congrArg (·[i]?) (map_ranking_eq (f := f) (hperm₁.trans hperm₂.symm))
      simp only [List.getElem?_map] at hscore
      cases h₁ : (ranking f l₁)[i]? with
      | none =>
          cases h₂ : (ranking f l₂)[i]? with
          | none => rfl
          | some b => simp [h₁, h₂] at hscore
      | some a =>
          cases h₂ : (ranking f l₂)[i]? with
          | none => simp [h₁, h₂] at hscore
          | some b =>
              have heq : f a = f b := by simpa [h₁, h₂] using hscore
              by_contra hne
              have hk := hties a (hmem hperm₁ h₁) b (hmem hperm₂ h₂)
                (fun hab => hne (congrArg some hab)) heq
              have hplace := countP_higher_le h₁
              rw [hperm₁.countP_eq] at hplace
              omega
    · simp [List.getElem?_take_eq_none hi]

end Rankings
