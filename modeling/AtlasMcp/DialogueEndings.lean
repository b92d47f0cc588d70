import AtlasMcp.Dialogues

/-!
# How a program ended, told from its exchanges

Some exceptions are worth telling apart from the others; `bad` says which.  A program is
`Told` when its exchanges show whether it ended with one of them: it did exactly if the last
exchange, except for those of clean-ups that went well, is one that raises it.  The rules
follow the ways to build a program, so that the fact about a whole program is put together
from its questions.
-/

namespace Dialogues

variable {Q : Type} {R : Q → Type} {E α β : Type}

/-- The last exchange, except for those that clean up, is one that raises.  What
comes before it does not matter. -/
def EndsIn (raises cleans : Exchange Q R → Prop) (l : List (Exchange Q R)) : Prop :=
  ∃ front x after, l = front ++ x :: after ∧ raises x ∧ ∀ y ∈ after, cleans y

variable {raises cleans : Exchange Q R → Prop} {l l' : List (Exchange Q R)}
  {x : Exchange Q R}

/-- A dialogue without exchanges ends with no exchange. -/
@[simp]
theorem not_endsIn_nil : ¬ EndsIn raises cleans [] := by
  rintro ⟨front, x, after, hl, -⟩
  simp at hl

/-- Either its second part shows it, or that only cleans up after the
first. -/
theorem endsIn_append_iff :
    EndsIn raises cleans (l ++ l') ↔
      EndsIn raises cleans l' ∨ EndsIn raises cleans l ∧ ∀ y ∈ l', cleans y := by
  constructor
  · rintro ⟨front, x, after, heq, hx, hafter⟩
    rcases List.append_eq_append_iff.mp heq with ⟨more, rfl, rfl⟩ | ⟨more, rfl, hmore⟩
    · exact Or.inl ⟨more, x, after, rfl, hx, hafter⟩
    · cases more with
      | nil =>
          rw [List.nil_append] at hmore
          exact Or.inl ⟨[], x, after, hmore.symm, hx, hafter⟩
      | cons y more =>
          obtain ⟨rfl, rfl⟩ := List.cons.inj hmore
          refine Or.inr ⟨⟨front, x, more, rfl, hx, fun y hy => hafter y ?_⟩, fun y hy =>
            hafter y ?_⟩
          · exact List.mem_append_left _ hy
          · exact List.mem_append_right _ hy
  · rintro (⟨front, x, after, rfl, hx, hafter⟩ | ⟨⟨front, x, after, rfl, hx, hafter⟩, hclean⟩)
    · exact ⟨l ++ front, x, after, by rw [List.append_assoc], hx, hafter⟩
    · refine ⟨front, x, after ++ l', by simp, hx, ?_⟩
      exact List.forall_mem_append.mpr ⟨hafter, hclean⟩

theorem endsIn_singleton_iff : EndsIn raises cleans [x] ↔ raises x := by
  constructor
  · rintro ⟨front, y, after, heq, hy, -⟩
    cases front with
    | nil =>
        obtain ⟨rfl, -⟩ := List.cons.inj heq
        exact hy
    | cons z front => simp at heq
  · exact fun hx => ⟨[], x, [], rfl, hx, List.forall_mem_nil _⟩

/-- It ended with an exception that is told apart from the others, and from
every result. -/
def EndedBad (bad : E → Prop) (r : Except E α) : Prop := ∃ e, r = .error e ∧ bad e

variable {bad : E → Prop}

@[simp]
theorem not_endedBad_ok {a : α} : ¬ EndedBad bad (.ok a : Except E α) := by
  rintro ⟨e, he, -⟩
  cases he

@[simp]
theorem endedBad_error_iff {e : E} : EndedBad bad (.error e : Except E α) ↔ bad e := by
  constructor
  · rintro ⟨e', he, hbad⟩
    cases he
    exact hbad
  · exact fun hbad => ⟨e, rfl, hbad⟩

/-- The exchanges show whether the program ended with such an exception, so that
the program itself need not be looked at. -/
def Told (raises cleans : Exchange Q R → Prop) (bad : E → Prop) (p : Program Q R E α) : Prop :=
  ∀ l r, Program.Talk p l r → (EndedBad bad r ↔ EndsIn raises cleans l)

namespace Told

variable {p : Program Q R E α} {f : α → Program Q R E β}

/-- A program that returns at once has nothing to tell. -/
theorem pure (a : α) : Told raises cleans bad (Pure.pure a : Program Q R E α) := by
  intro l r h
  obtain ⟨rfl, rfl⟩ := Program.talk_pure_iff.mp h
  simp

/-- Neither has one that raises an error which is not bad. -/
theorem throw {e : E} (he : ¬ bad e) :
    Told raises cleans bad (MonadExcept.throw e : Program Q R E α) := by
  intro l r h
  obtain ⟨rfl, rfl⟩ := Program.talk_throw_iff.mp h
  simpa using he

/-- A question whose answers say whether they raise. -/
theorem asking {q : Q} {read : R q → Except E α}
    (h : ∀ answer, raises ⟨q, answer⟩ ↔ EndedBad bad (read answer)) :
    Told raises cleans bad (Program.asking q read) := by
  intro l r htalk
  obtain ⟨answer, rfl, rfl⟩ := Program.talk_asking_iff.mp htalk
  rw [endsIn_singleton_iff, h]

/-- What raised nothing leaves the rest to tell. -/
theorem bind (hp : Told raises cleans bad p) (hf : ∀ a, Told raises cleans bad (f a)) :
    Told raises cleans bad (p >>= f) := by
  intro l r h
  rcases Program.talk_bind_iff.mp h with ⟨e, hfirst, rfl⟩ | ⟨a, first, rest, rfl, hfirst, hrest⟩
  · rw [← hp l _ hfirst, endedBad_error_iff, endedBad_error_iff]
  · have hnot : ¬ EndsIn raises cleans first := fun hends =>
      not_endedBad_ok ((hp first _ hfirst).mpr hends)
    rw [hf a rest r hrest, endsIn_append_iff]
    exact ⟨Or.inl, fun hends => hends.resolve_right fun hright => hnot hright.1⟩

/-- A handler that raises such an exception again, if another one, and deals
with the rest. -/
theorem catching {bad' : E → Prop} {handler : E → Program Q R E α}
    (hp : Told raises cleans bad p)
    (hbad : ∀ e, bad e → ∃ e', handler e = MonadExcept.throw e' ∧ bad' e')
    (hgood : ∀ e, ¬ bad e → Told raises cleans bad' (handler e)) :
    Told raises cleans bad' (Program.catching p handler) := by
  intro l r h
  rcases Program.talk_catching_iff.mp h with ⟨a, hfirst, rfl⟩ | ⟨e, first, rest, rfl, hfirst, hrest⟩
  · rw [← hp l _ hfirst]
    simp
  have hends := hp first _ hfirst
  rw [endedBad_error_iff] at hends
  by_cases he : bad e
  · obtain ⟨e', hhandler, he'⟩ := hbad e he
    rw [hhandler] at hrest
    obtain ⟨rfl, rfl⟩ := Program.talk_throw_iff.mp hrest
    rw [List.append_nil, ← hends, endedBad_error_iff]
    exact iff_of_true he' he
  · rw [hgood e he rest r hrest, endsIn_append_iff]
    exact ⟨Or.inl, fun hright => hright.resolve_right fun hfirst => he (hends.mpr hfirst.1)⟩

/-- A clean-up of one question, which raises for itself or leaves things as
they are. -/
theorem ensuring {q : Q} {read : R q → Except E Unit} (hp : Told raises cleans bad p)
    (hok : ∀ answer, read answer = .ok () → cleans ⟨q, answer⟩ ∧ ¬ raises ⟨q, answer⟩)
    (herror : ∀ answer e, read answer = .error e →
      ¬ cleans ⟨q, answer⟩ ∧ (raises ⟨q, answer⟩ ↔ bad e)) :
    Told raises cleans bad (Program.ensuring p (Program.asking q read)) := by
  intro l r h
  obtain ⟨result, first, rest, rfl, hfirst, hrest⟩ := Program.talk_ensuring_iff.mp h
  rw [endsIn_append_iff, ← hp first _ hfirst]
  rcases hrest with ⟨hcleanup, rfl⟩ | ⟨e, hcleanup, rfl⟩
  · obtain ⟨answer, rfl, hread⟩ := Program.talk_asking_iff.mp hcleanup
    obtain ⟨hcleans, hraises⟩ := hok answer hread.symm
    rw [endsIn_singleton_iff]
    simp [hcleans, hraises]
  · obtain ⟨answer, rfl, hread⟩ := Program.talk_asking_iff.mp hcleanup
    obtain ⟨hcleans, hraises⟩ := herror answer e hread.symm
    rw [endsIn_singleton_iff, endedBad_error_iff, hraises]
    simp [hcleans]

end Told

end Dialogues
