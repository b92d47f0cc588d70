import Mathlib.Data.List.Induction

/-!
# Guarded runs of a step relation

A system is a type of states, a type of labels, and a relation `R s l t`: from
`s` the label `l` may lead to `t`.  `Run R s ls t` says that the labels `ls` can
lead from `s` to `t`, the last label last.

A condition on steps is a relation of the same type, and `Guarded R P` keeps the
steps of `R` that meet `P`; a run of it is a run all of whose steps meet the
condition.  `run_guarded_iff` is the rule for exact conditions: if two conditions
agree on the steps from states with an invariant, and that invariant is kept by
the steps that meet the first, then the same runs meet both.

`Did` and `LastDid` look back: a run did `l` in the state `s`, and since then did
nothing of a kind.
-/

namespace GuardedRuns

variable {S L : Type*}

/-- The labels `ls` lead from the first state to the last one.  A run grows at
its end, so that an induction on it follows the order of the steps. -/
inductive Run (R : S → L → S → Prop) (start : S) : List L → S → Prop
  | nil : Run R start [] start
  | snoc {ls l s t} : Run R start ls s → R s l t → Run R start (ls ++ [l]) t

/-- The steps of `R` that meet `P`.  A run of these is a run all of whose steps
meet the condition. -/
def Guarded (R P : S → L → S → Prop) (s : S) (l : L) (t : S) : Prop :=
  R s l t ∧ P s l t

variable {R P Q : S → L → S → Prop} {start s t : S} {ls : List L}

theorem run_nil : Run R start [] t ↔ t = start := by
  constructor
  · intro h
    generalize hls : ([] : List L) = ls at h
    cases h with
    | nil => rfl
    | snoc _ _ => simp at hls
  · intro h
    exact h ▸ .nil

/-- The last label of a run is done last. -/
theorem run_snoc {l : L} : Run R start (ls ++ [l]) t ↔ ∃ s, Run R start ls s ∧ R s l t := by
  constructor
  · intro h
    generalize hall : ls ++ [l] = all at h
    cases h with
    | nil => simp at hall
    | snoc hrun hlast =>
        obtain ⟨rfl, rfl⟩ := List.append_singleton_inj.mp hall
        exact ⟨_, hrun, hlast⟩
  · intro h
    obtain ⟨s, hrun, hlast⟩ := h
    exact hrun.snoc hlast

/-- A run goes on with a run from its end. -/
theorem Run.append {ls' : List L} (h : Run R start ls s) (h' : Run R s ls' t) :
    Run R start (ls ++ ls') t := by
  induction h' with
  | nil => simpa using h
  | snoc _ hlast ih =>
      rw [← List.append_assoc]
      exact ih.snoc hlast

/-- What every step keeps holds at the end of a run. -/
theorem Run.invariant {I : S → Prop} (hstart : I start)
    (hstep : ∀ s l t, I s → R s l t → I t) (hrun : Run R start ls t) : I t := by
  induction hrun with
  | nil => exact hstart
  | snoc _ hlast ih => exact hstep _ _ _ ih hlast

/-- Under an invariant, steps may be exchanged for others one by one. -/
theorem Run.transfer {I : S → Prop} (hstart : I start)
    (hstep : ∀ s l t, I s → R s l t → I t ∧ Q s l t) (hrun : Run R start ls t) :
    Run Q start ls t := by
  have hboth : I t ∧ Run Q start ls t := by
    induction hrun with
    | nil => exact ⟨hstart, .nil⟩
    | snoc _ hlast ih =>
        obtain ⟨hI, hQ⟩ := hstep _ _ _ ih.1 hlast
        exact ⟨hI, ih.2.snoc hQ⟩
  exact hboth.2

/-- **Exact conditions.**  Two conditions that agree on the steps from states
with the invariant `I`, which the steps meeting the first condition keep, are
met by the same runs. -/
theorem run_guarded_iff {I : S → Prop} (hstart : I start)
    (hkeep : ∀ s l t, I s → R s l t → P s l t → I t)
    (hiff : ∀ s l t, I s → R s l t → (P s l t ↔ Q s l t)) :
    Run (Guarded R P) start ls t ↔ Run (Guarded R Q) start ls t := by
  constructor
  · apply Run.transfer hstart
    intro s l t hI hstep
    have hQ : Q s l t := (hiff s l t hI hstep.1).mp hstep.2
    exact ⟨hkeep s l t hI hstep.1 hstep.2, hstep.1, hQ⟩
  · apply Run.transfer hstart
    intro s l t hI hstep
    have hP : P s l t := (hiff s l t hI hstep.1).mpr hstep.2
    exact ⟨hkeep s l t hI hstep.1 hP, hstep.1, hP⟩

/-- The run of `ls` did `l` in the state `s`, at some point on its way. -/
def Did (R : S → L → S → Prop) (start : S) (ls : List L) (l : L) (s : S) : Prop :=
  ∃ before after, ls = before ++ l :: after ∧ Run R start before s

/-- Besides, nothing it did after that has the property `p`. -/
def LastDid (R : S → L → S → Prop) (start : S) (p : L → Prop) (ls : List L) (l : L)
    (s : S) : Prop :=
  ∃ before after, ls = before ++ l :: after ∧ Run R start before s ∧ ∀ l' ∈ after, ¬ p l'

theorem Did.last {l : L} (hrun : Run R start ls s) : Did R start (ls ++ [l]) l s :=
  ⟨ls, [], rfl, hrun⟩

/-- What a run did it also did in every longer one. -/
theorem Did.snoc {l : L} (h : Did R start ls l s) (l' : L) : Did R start (ls ++ [l']) l s := by
  obtain ⟨before, after, rfl, hrun⟩ := h
  exact ⟨before, after ++ [l'], by simp, hrun⟩

theorem Did.mem {l : L} (h : Did R start ls l s) : l ∈ ls := by
  obtain ⟨before, after, rfl, _⟩ := h
  simp

/-- A run meets a condition that each of its steps meets where it was done. -/
theorem Run.guarded (hrun : Run R start ls t)
    (h : ∀ l s t, Did R start ls l s → R s l t → P s l t) :
    Run (Guarded R P) start ls t := by
  induction hrun with
  | nil => exact .nil
  | snoc hbefore hlast ih =>
      have hrest := ih fun l s t hdid => h l s t (hdid.snoc _)
      exact hrest.snoc ⟨hlast, h _ _ _ (Did.last hbefore) hlast⟩

/-- What was done last of its kind is the last label, if that is of the
kind. -/
theorem LastDid.last {p : L → Prop} {l : L} (hrun : Run R start ls s) :
    LastDid R start p (ls ++ [l]) l s :=
  ⟨ls, [], rfl, hrun, by simp⟩

theorem LastDid.did {p : L → Prop} {l : L} (h : LastDid R start p ls l s) :
    Did R start ls l s := by
  obtain ⟨before, after, hls, hrun, _⟩ := h
  exact ⟨before, after, hls, hrun⟩

/-- It stays the last of its kind until another one is done. -/
theorem LastDid.snoc {p : L → Prop} {l l' : L} (h : LastDid R start p ls l s)
    (hl : ¬ p l') : LastDid R start p (ls ++ [l']) l s := by
  obtain ⟨before, after, rfl, hrun, hnone⟩ := h
  refine ⟨before, after ++ [l'], by simp, hrun, fun x hx => ?_⟩
  rcases List.mem_append.mp hx with hx | hx
  · exact hnone x hx
  · obtain rfl : x = l' := by simpa using hx
    exact hl

/-- Do the labels one by one, stopping where a step is not possible. -/
def exec (step : S → L → Option S) (s : S) (ls : List L) : Option S :=
  ls.foldlM step s

/-- Executing labels gives a run of the steps. -/
theorem Run.of_exec {step : S → L → Option S} (h : exec step s ls = some t) :
    Run (fun s l t => step s l = some t) s ls t := by
  induction ls using List.reverseRecOn generalizing t with
  | nil =>
      obtain rfl : s = t := by simpa [exec] using h
      exact .nil
  | append_singleton ls l ih =>
      obtain ⟨u, hu, hlast⟩ : ∃ u, exec step s ls = some u ∧ step u l = some t := by
        simpa [exec, Option.bind_eq_some_iff] using h
      exact (ih hu).snoc hlast

/-- Do the labels one by one, stopping where a step is not possible or does
not meet the condition. -/
def execGuarded (step : S → L → Option S) (P : S → L → S → Prop)
    [∀ s l t, Decidable (P s l t)] (s : S) (ls : List L) : Option S :=
  exec (fun s l => (step s l).filter fun t => P s l t) s ls

/-- A run of the steps that pass a check is a run that is guarded by it. -/
theorem Run.of_filter {step : S → L → Option S} {P : S → L → S → Prop}
    [∀ s l t, Decidable (P s l t)]
    (hrun : Run (fun s l t => (step s l).filter (fun t => P s l t) = some t) s ls t) :
    Run (Guarded (fun s l t => step s l = some t) P) s ls t := by
  refine hrun.transfer (I := fun _ => True) trivial fun s l t _ hstep => ?_
  obtain ⟨hsome, hP⟩ := Option.filter_eq_some_iff.mp hstep
  exact ⟨trivial, hsome, by simpa using hP⟩

/-- That gives a run of the steps that meet the condition. -/
theorem Run.of_execGuarded {step : S → L → Option S} {P : S → L → S → Prop}
    [∀ s l t, Decidable (P s l t)] (h : execGuarded step P s ls = some t) :
    Run (Guarded (fun s l t => step s l = some t) P) s ls t :=
  (Run.of_exec h).of_filter

end GuardedRuns
