import Mathlib.Data.List.Basic

/-!
# Runs with some of their actions deleted

A machine answers each action and moves on.  `answers` lists the actions of a run with
their answers.  `answers_purged` is the unwinding rule: if two states may be alike, the
actions to be deleted lead to a state that is alike, all others keep like states alike,
and an action that is watched is answered alike in like states, then deleting actions
changes no answer to a watched one.
-/

namespace PurgedRuns

variable {S A O : Type*}

/-- The actions of a run, each with its answer. -/
def answers (step : S → A → O × S) : S → List A → List (A × O)
  | _, [] => []
  | s, a :: rest => (a, (step s a).1) :: answers step (step s a).2 rest

variable {step : S → A → O × S} {alike : S → S → Prop} {deleted watched : A → Bool}

/-- **Deleting actions changes no answer to a watched one.** -/
theorem answers_purged (hdeleted : ∀ s t a, deleted a = true → alike s t →
      alike (step s a).2 t)
    (hkept : ∀ s t a, deleted a = false → alike s t → alike (step s a).2 (step t a).2)
    (hwatched : ∀ s t a, watched a = true → alike s t →
      deleted a = false ∧ (step s a).1 = (step t a).1)
    {s t : S} (h : alike s t) (actions : List A) :
    (answers step s actions).filter (fun x => watched x.1) =
      (answers step t (actions.filter fun a => !deleted a)).filter fun x => watched x.1 := by
  induction actions generalizing s t with
  | nil => rfl
  | cons a rest ih =>
      cases hseen : watched a with
      | true =>
          obtain ⟨ha, hanswer⟩ := hwatched s t a hseen h
          have hrest := ih (hkept s t a ha h)
          simp [answers, ha, hseen, hanswer, hrest]
      | false =>
          cases ha : deleted a with
          | true =>
              have hrest := ih (hdeleted s t a ha h)
              simp [answers, ha, hseen, hrest]
          | false =>
              have hrest := ih (hkept s t a ha h)
              simp [answers, ha, hseen, hrest]

end PurgedRuns
