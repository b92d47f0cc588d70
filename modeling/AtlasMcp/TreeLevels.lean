import Mathlib.Data.List.Basic

/-!
# Levels of a tree

A tree is a type with a list of children for each node.  `Below children n v w` says that `w`
lies `n` levels below `v`, with `v` itself at level zero.

A check that goes down a tree with its depth, and gives up past a limit, is the same as a
condition on all that lies below the root (`accepts_iff`): the limit is what ends it, so that
nothing need be known of the tree.
-/

namespace TreeLevels

variable {T : Type*}

/-- A node is so many levels below another one: each level takes a step to one
of the children. -/
inductive Below (children : T → List T) : ℕ → T → T → Prop
  | self (v : T) : Below children 0 v v
  | child {n : ℕ} {v u w : T} : u ∈ children v → Below children n u w →
      Below children (n + 1) v w

variable {children : T → List T} {v w : T}

/-- Only itself lies below a node without children. -/
theorem level_eq_zero {n : ℕ} (hleaf : children v = []) (h : Below children n v w) : n = 0 := by
  cases h with
  | self => rfl
  | child hu _ =>
      rw [hleaf] at hu
      cases hu

/-- What holds of all that lies below a node holds of the node, and below its
children. -/
theorem forall_below_iff {P : ℕ → T → Prop} :
    (∀ n w, Below children n v w → P n w) ↔
      P 0 v ∧ ∀ u ∈ children v, ∀ n w, Below children n u w → P (n + 1) w := by
  constructor
  · intro h
    exact ⟨h 0 v (.self v), fun u hu n w hw => h (n + 1) w (.child hu hw)⟩
  · rintro ⟨hv, hbelow⟩ n w hw
    cases hw with
    | self => exact hv
    | child hu hw => exact hbelow _ hu _ _ hw

/-- **Checks with a depth.**  A check that accepts a node if it is not past
the limit, has the property and has accepted children accepts exactly the
trees that do not reach past the limit and in which every node has the
property. -/
theorem accepts_iff {accepts : T → ℕ → Prop} {limit : ℕ} {Q : T → Prop}
    (hstep : ∀ v depth, accepts v depth ↔
      depth ≤ limit ∧ Q v ∧ ∀ u ∈ children v, accepts u (depth + 1)) (v : T) (depth : ℕ) :
    accepts v depth ↔ ∀ n w, Below children n v w → depth + n ≤ limit ∧ Q w := by
  -- by induction on the levels that are left
  induction hleft : limit + 1 - depth generalizing v depth with
  | zero =>
      have hpast : ¬ depth ≤ limit := by omega
      rw [hstep]
      exact iff_of_false (fun h => hpast h.1) fun h => hpast (h 0 v (.self v)).1
  | succ left ih =>
      rw [hstep, forall_below_iff, Nat.add_zero, and_assoc]
      refine and_congr_right fun _ => and_congr_right fun _ => forall₂_congr fun u _ => ?_
      rw [ih u (depth + 1) (by omega)]
      refine forall₃_congr fun n w _ => ?_
      rw [Nat.add_assoc, Nat.add_comm 1 n]

end TreeLevels
