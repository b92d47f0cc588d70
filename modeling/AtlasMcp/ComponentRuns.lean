import AtlasMcp.GuardedRuns
import Mathlib.Order.Defs.LinearOrder

/-!
# Components of a system

A component is a smaller system that a larger one moves along: each step of the system,
from a state that is related to one of the component, is matched by a run of the component,
which may be empty (`Matched`).  So a run of the system is matched by a run of the component
(`Matched.run`), and what all steps of the component keep holds of it throughout
(`Matched.invariant`).  Where each step is one of the component, `Run.map` is enough.

Labels may come with readings of a clock; `Clocked` are the steps at readings that never go
back.

A system whose steps spend a potential that only some labels earn takes few of the others
(`Run.spent_le`), and where it can always spend it comes to have none left (`exists_spent`).
-/

namespace GuardedRuns

variable {S L A M T : Type*}

/-- A run of one label is a step. -/
theorem run_singleton {R : S → L → S → Prop} {s t : S} {l : L} : Run R s [l] t ↔ R s l t := by
  constructor
  · intro h
    obtain ⟨u, hnil, hstep⟩ := run_snoc.mp (List.nil_append [l] ▸ h)
    obtain rfl := run_nil.mp hnil
    exact hstep
  · intro h
    exact Run.nil.snoc h

/-- Every step of the system is matched by a run of the component, from any
state of the component that the state of the system is related to. -/
def Matched (R : S → L → S → Prop) (Q : A → M → A → Prop) (Rel : S → A → Prop) : Prop :=
  ∀ s l t a, Rel s a → R s l t → ∃ ms b, Run Q a ms b ∧ Rel t b

section Components

variable {R : S → L → S → Prop} {Q : A → M → A → Prop} {Rel : S → A → Prop} {s t : S}
  {ls : List L} {a : A}

/-- So is every run of it. -/
theorem Matched.run (h : Matched R Q Rel) (hrun : Run R s ls t) (hstart : Rel s a) :
    ∃ ms b, Run Q a ms b ∧ Rel t b := by
  induction hrun with
  | nil => exact ⟨[], a, .nil, hstart⟩
  | snoc _ hlast ih =>
      obtain ⟨ms, b, hms, hb⟩ := ih
      obtain ⟨ms', c, hms', hc⟩ := h _ _ _ b hb hlast
      exact ⟨ms ++ ms', c, hms.append hms', hc⟩

/-- What the steps of the component keep holds of it after every run of the
system. -/
theorem Matched.invariant (h : Matched R Q Rel) {I : A → Prop}
    (hkeep : ∀ a m b, I a → Q a m b → I b) (hrun : Run R s ls t) (hstart : Rel s a)
    (hI : I a) : ∃ b, Rel t b ∧ I b := by
  obtain ⟨ms, b, hms, hb⟩ := h.run hrun hstart
  exact ⟨b, hb, hms.invariant hI hkeep⟩

end Components

/-- A run of a system whose steps are those of another is a run of that
one. -/
theorem Run.map {R : S → L → S → Prop} {Q : A → M → A → Prop} {s t : S} {ls : List L} (f : S → A)
    (g : L → M) (h : ∀ s l t, R s l t → Q (f s) (g l) (f t)) (hrun : Run R s ls t) :
    Run Q (f s) (ls.map g) (f t) := by
  induction hrun with
  | nil => exact .nil
  | snoc _ hlast ih =>
      rw [List.map_append]
      exact ih.snoc (h _ _ _ hlast)

section Clocks

variable [Preorder T] {R : S → L → S → Prop} {reading : L → Option T} {s t : S × T}
  {ls : List L}

/-- The steps of `R`, with the clock at readings that never go back.  A label
without a reading leaves the clock where it was. -/
def Clocked (R : S → L → S → Prop) (reading : L → Option T) (s : S × T) (l : L)
    (t : S × T) : Prop :=
  R s.1 l t.1 ∧ s.2 ≤ t.2 ∧ t.2 = (reading l).getD s.2

theorem Run.unclocked (hrun : Run (Clocked R reading) s ls t) : Run R s.1 ls t.1 := by
  induction hrun with
  | nil => exact .nil
  | snoc _ hlast ih => exact ih.snoc hlast.1

/-- The clock of a run never goes back. -/
theorem Run.clock_le (hrun : Run (Clocked R reading) s ls t) : s.2 ≤ t.2 := by
  induction hrun with
  | nil => exact le_refl _
  | snoc _ hlast ih => exact le_trans ih hlast.2.1

/-- A step with the clock, stopping where it would go back. -/
def clockedStep [DecidableLE T] (step : S → L → Option S) (reading : L → Option T)
    (s : S × T) (l : L) : Option (S × T) :=
  let now := (reading l).getD s.2
  if s.2 ≤ now then (step s.1 l).map fun t => (t, now) else none

/-- Executing labels with the clock gives a run with it. -/
theorem Run.of_exec_clocked [DecidableLE T] {step : S → L → Option S}
    (h : exec (clockedStep step reading) s ls = some t) :
    Run (Clocked (fun s l t => step s l = some t) reading) s ls t := by
  refine (Run.of_exec h).transfer (I := fun _ => True) trivial fun s l t _ hstep => ⟨trivial, ?_⟩
  simp only [clockedStep] at hstep
  split at hstep
  next hle =>
      obtain ⟨u, hu, rfl⟩ := Option.map_eq_some_iff.mp hstep
      exact ⟨hu, hle, rfl⟩
  next => cases hstep

end Clocks

section Potentials

variable {R : S → L → S → Prop} {I : S → Prop} {potential : S → ℕ} {s t : S} {ls : List L}

/-- What is spent along a run, with what is left, was there at the start or
was earned. -/
theorem Run.spent_le {spends earns : L → Bool} {gain : ℕ} (hstart : I s)
    (hkeep : ∀ s l t, I s → R s l t → I t)
    (hstep : ∀ s l t, I s → R s l t →
      (spends l).toNat + potential t ≤ potential s + gain * (earns l).toNat)
    (hrun : Run R s ls t) :
    ls.countP spends + potential t ≤ potential s + gain * ls.countP earns := by
  have hcount : ∀ (p : L → Bool) (l : L), [l].countP p = (p l).toNat := by
    intro p l
    cases h : p l <;> simp [h]
  have hinv : I t ∧ ls.countP spends + potential t ≤ potential s + gain * ls.countP earns := by
    induction hrun with
    | nil => exact ⟨hstart, by simp⟩
    | @snoc ls l t u _ hlast ih =>
        obtain ⟨ht, hle⟩ := ih
        have hspent := hstep t l u ht hlast
        refine ⟨hkeep t l u ht hlast, ?_⟩
        rw [List.countP_append, List.countP_append, hcount, hcount, Nat.mul_add]
        omega
  exact hinv.2

/-- A system that can spend wherever it has something left can spend it all,
with such labels only. -/
theorem exists_spent {P : L → Prop}
    (hspend : ∀ s, I s → potential s ≠ 0 →
      ∃ l t, P l ∧ R s l t ∧ I t ∧ potential t < potential s) (hstart : I s) :
    ∃ ls t, Run R s ls t ∧ (∀ l ∈ ls, P l) ∧ ls.length ≤ potential s ∧ I t ∧
      potential t = 0 := by
  induction hn : potential s using Nat.strongRecOn generalizing s with
  | _ n ih =>
      by_cases hzero : potential s = 0
      · exact ⟨[], s, .nil, by simp, by simp, hstart, hzero⟩
      · obtain ⟨l, u, hl, hstep, hu, hless⟩ := hspend s hstart hzero
        obtain ⟨ls, t, hrun, hls, hlength, ht, hdone⟩ := ih (potential u) (hn ▸ hless) hu rfl
        refine ⟨[l] ++ ls, t, (run_singleton.mpr hstep).append hrun, ?_, ?_, ht, hdone⟩
        · intro l' hl'
          rcases List.mem_append.mp hl' with hl' | hl'
          · obtain rfl := List.mem_singleton.mp hl'
            exact hl
          · exact hls l' hl'
        · rw [List.length_append, List.length_singleton]
          omega

end Potentials

end GuardedRuns
