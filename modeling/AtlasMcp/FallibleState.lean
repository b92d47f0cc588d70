import Mathlib.Tactic.TypeStar

/-!
# Computations that update a state and may fail

`Fallible E S α` runs from a state of `S` to a state and either a result or an error
of `E`; what was done to the state before an error stays done.

`run_bind_ok` takes a sequence that succeeds apart into its parts, and
`run_bind_ofExcept_ok` does so where the first part only computes.
`untouched_bind` is for sequences of such parts that cannot all succeed.  `Keeps` is
the frame rule: what no part changes, the sequence does not change; `Moves` is the same
for a sequence with one part that does.
-/

namespace FallibleState

/-- A computation with a state and errors. -/
abbrev Fallible (E S : Type) (α : Type) : Type := ExceptT E (StateM S) α

variable {E S α β : Type}

namespace Fallible

/-- The outcome and the state after it. -/
def run (x : Fallible E S α) (s : S) : Except E α × S := StateT.run (ExceptT.run x) s

/-- A computation that does not touch the state. -/
def ofExcept (r : Except E α) : Fallible E S α := ExceptT.mk fun s => (r, s)

/-- A computation given by what it does to the state. -/
def ofUpdate (f : S → Except E α × S) : Fallible E S α := ExceptT.mk f

@[simp]
theorem run_pure (a : α) (s : S) : (pure a : Fallible E S α).run s = (.ok a, s) := rfl

@[simp]
theorem run_ofExcept (r : Except E α) (s : S) :
    (ofExcept r : Fallible E S α).run s = (r, s) := rfl

@[simp]
theorem run_ofUpdate (f : S → Except E α × S) (s : S) : (ofUpdate f).run s = f s := rfl

/-- One computation after the other: an error ends it, with the state in which
it was raised. -/
theorem run_bind (x : Fallible E S α) (f : α → Fallible E S β) (s : S) :
    (x >>= f).run s =
      match x.run s with
      | (.ok a, t) => (f a).run t
      | (.error e, t) => (.error e, t) := by
  simp only [run, ExceptT.run_bind, StateT.run_bind]
  rcases h : (ExceptT.run x).run s with ⟨r, t⟩
  cases r <;> rfl

/-- A sequence succeeds if and only if both parts do. -/
theorem run_bind_ok {x : Fallible E S α} {f : α → Fallible E S β} {s u : S} {b : β} :
    (x >>= f).run s = (.ok b, u) ↔
      ∃ a t, x.run s = (.ok a, t) ∧ (f a).run t = (.ok b, u) := by
  rw [run_bind]
  rcases h : x.run s with ⟨r, t⟩
  cases r with
  | ok a =>
      constructor
      · intro hf
        exact ⟨a, t, rfl, hf⟩
      · intro hparts
        obtain ⟨a', t', hfirst, hf⟩ := hparts
        cases hfirst
        exact hf
  | error e => simp

/-- A sequence whose first part only computes fails and leaves the state as it
was if its rest does so after every result of the first part. -/
theorem untouched_bind {r : Except E α} {f : α → Fallible E S β} {s : S}
    (hrest : ∀ a, r = .ok a → ∃ e, (f a).run s = (.error e, s)) :
    ∃ e, (ofExcept r >>= f).run s = (.error e, s) := by
  rw [run_bind]
  cases r with
  | ok a => exact hrest a rfl
  | error e => exact ⟨e, rfl⟩

/-- It succeeds with the rest if its own result is there. -/
theorem run_bind_ofExcept_ok {r : Except E α} {f : α → Fallible E S β} {s u : S} {b : β} :
    (ofExcept r >>= f).run s = (.ok b, u) ↔
      ∃ a, r = .ok a ∧ (f a).run s = (.ok b, u) := by
  rw [run_bind]
  cases r <;> simp

/-- What is true of the rest, and where the first part fails, is true of the
sequence if its first part only computes. -/
theorem run_bind_ofExcept_of {P : Except E β × S → Prop} {r : Except E α}
    {f : α → Fallible E S β} {s : S} (herror : ∀ e, P (.error e, s))
    (hrest : ∀ a, r = .ok a → P ((f a).run s)) : P ((ofExcept r >>= f).run s) := by
  rw [run_bind]
  cases r with
  | ok a => exact hrest a rfl
  | error e => exact herror e

/-- A sequence depends on its rest only after the results its first part can
have. -/
theorem run_bind_congr {x : Fallible E S α} {f g : α → Fallible E S β} {s : S}
    (h : ∀ a t, x.run s = (.ok a, t) → (f a).run t = (g a).run t) :
    (x >>= f).run s = (x >>= g).run s := by
  rw [run_bind, run_bind]
  rcases hx : x.run s with ⟨r, t⟩
  cases r with
  | ok a => exact h a t hx
  | error e => rfl

/-- What follows a check matters only where the check passes. -/
theorem run_bind_ofExcept_congr {r : Except E α} {f g : α → Fallible E S β} {s : S}
    (h : ∀ a, r = .ok a → (f a).run s = (g a).run s) :
    (ofExcept r >>= f).run s = (ofExcept r >>= g).run s := by
  apply run_bind_congr
  intro a t hx
  obtain ⟨rfl, rfl⟩ := Prod.mk.inj hx
  exact h a rfl

/-- The computation never changes the part `g` of the state, whether it returns
or raises. -/
def Keeps {γ : Type} (g : S → γ) (x : Fallible E S α) : Prop := ∀ s, g (x.run s).2 = g s

theorem keeps_ofExcept {γ : Type} (g : S → γ) (r : Except E α) :
    Keeps g (ofExcept r : Fallible E S α) := fun _ => rfl

theorem keeps_pure {γ : Type} (g : S → γ) (a : α) :
    Keeps g (pure a : Fallible E S α) := fun _ => rfl

/-- Two computations one after the other keep what each of them does. -/
theorem Keeps.bind {γ : Type} {g : S → γ} {x : Fallible E S α}
    {f : α → Fallible E S β} (hx : Keeps g x) (hf : ∀ a, Keeps g (f a)) :
    Keeps g (x >>= f) := by
  intro s
  have hfirst := hx s
  rw [run_bind]
  rcases h : x.run s with ⟨r, t⟩
  rw [h] at hfirst
  cases r with
  | ok a => exact (hf a t).trans hfirst
  | error e => exact hfirst

/-- The computation changes the part `g` of the state only as `R` permits,
whether it returns or raises. -/
def Moves {γ : Type} (g : S → γ) (R : γ → γ → Prop) (x : Fallible E S α) : Prop :=
  ∀ s, R (g s) (g (x.run s).2)

/-- A first part that keeps it leaves the change to the rest. -/
theorem Keeps.bind_moves {γ : Type} {g : S → γ} {R : γ → γ → Prop} (hrefl : ∀ c, R c c)
    {x : Fallible E S α} {f : α → Fallible E S β} (hx : Keeps g x)
    (hf : ∀ a, Moves g R (f a)) : Moves g R (x >>= f) := by
  intro s
  have hfirst := hx s
  rw [run_bind]
  rcases h : x.run s with ⟨r, t⟩
  rw [h] at hfirst
  cases r with
  | ok a => exact hfirst ▸ hf a t
  | error e => exact hfirst ▸ hrefl (g s)

/-- A rest that keeps it leaves the change to the first part. -/
theorem Moves.bind_keeps {γ : Type} {g : S → γ} {R : γ → γ → Prop}
    {x : Fallible E S α} {f : α → Fallible E S β} (hx : Moves g R x)
    (hf : ∀ a, Keeps g (f a)) : Moves g R (x >>= f) := by
  intro s
  have hfirst := hx s
  rw [run_bind]
  rcases h : x.run s with ⟨r, t⟩
  rw [h] at hfirst
  cases r with
  | ok a => exact (hf a t).symm ▸ hfirst
  | error e => exact hfirst

end Fallible

end FallibleState
