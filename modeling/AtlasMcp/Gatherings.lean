import AtlasMcp.Dialogues

/-!
# Programs at once

Programs that run at once have exchanges that interleave.  `Gathered` runs each to its end
and keeps how it ended, a result or an exception.  `Joined` waits for two results and raises
the first exception, wherever the other program is by then.

A program heeds a property if it only returns when all its exchanges have it: it does not go
on from an answer that is not as it should be.  Which questions it asks at all, however it ends,
is said by `AsksOnly`.
-/

namespace Dialogues

variable {Q : Type} {R : Q → Type} {E α β : Type}

section Interleaving

variable {X : Type} {first second l : List X}

/-- The last list has the members of the other two, those of each in their
order. -/
inductive Interleaves : List X → List X → List X → Prop
  | nil : Interleaves [] [] []
  | left {x : X} {first second l : List X} (h : Interleaves first second l) :
      Interleaves (x :: first) second (x :: l)
  | right {x : X} {first second l : List X} (h : Interleaves first second l) :
      Interleaves first (x :: second) (x :: l)

/-- Everything in an interleaving is from the one or the other, and all of
that is in it. -/
theorem Interleaves.mem_iff (h : Interleaves first second l) {x : X} :
    x ∈ l ↔ x ∈ first ∨ x ∈ second := by
  induction h with
  | nil => simp
  | left h ih => rw [List.mem_cons, List.mem_cons, ih, or_assoc]
  | right h ih => rw [List.mem_cons, List.mem_cons, ih, or_left_comm]

/-- One after the other is one of the ways. -/
theorem interleaves_append (first second : List X) :
    Interleaves first second (first ++ second) := by
  induction first with
  | nil =>
      induction second with
      | nil => exact .nil
      | cons x second ih => exact .right ih
  | cons x first ih => exact .left ih

end Interleaving

namespace Program

variable {l : List (Exchange Q R)}

/-- The programs run at once, each to its end.  Their exchanges can come in
between each other in any way. -/
inductive Gathered : List (Program Q R E α) → List (Exchange Q R) → List (Except E α) → Prop
  | nil : Gathered [] [] []
  | cons {x : Program Q R E α} {xs : List (Program Q R E α)}
      {part rest l : List (Exchange Q R)} {r : Except E α} {rs : List (Except E α)}
      (hx : Talk x part r) (hrest : Gathered xs rest rs) (hmix : Interleaves part rest l) :
      Gathered (x :: xs) l (r :: rs)

/-- Run the programs one after the other, each against the environment. -/
def playAll (env : (q : Q) → R q) :
    List (Program Q R E α) → List (Exchange Q R) × List (Except E α)
  | [] => ([], [])
  | x :: xs =>
      let (part, r) := (ExceptT.run x).play (fun _ => env) []
      let (rest, rs) := playAll env xs
      (part ++ rest, r :: rs)

/-- That is one of the ways to run them at once. -/
theorem gathered_playAll (env : (q : Q) → R q) (xs : List (Program Q R E α)) :
    Gathered xs (playAll env xs).1 (playAll env xs).2 := by
  induction xs with
  | nil => exact .nil
  | cons x xs ih => exact .cons (Dialogue.talk_play (fun _ => env) _) ih (interleaves_append _ _)

/-- The program can have these exchanges and go on from there, or end.  This is
what is left of a program when nobody waits for it any more. -/
def Begun (x : Program Q R E α) (l : List (Exchange Q R)) : Prop :=
  ∃ rest r, Talk x (l ++ rest) r

/-- The programs run at once until both have returned or one has raised.  What
the other one does after that is not looked at. -/
inductive Joined (x : Program Q R E α) (y : Program Q R E β) :
    List (Exchange Q R) → Except E (α × β) → Prop
  | both {first second l : List (Exchange Q R)} {a : α} {b : β} (hx : Talk x first (.ok a))
      (hy : Talk y second (.ok b)) (hmix : Interleaves first second l) : Joined x y l (.ok (a, b))
  | left {first second l : List (Exchange Q R)} {e : E} (hx : Talk x first (.error e))
      (hy : Begun y second) (hmix : Interleaves first second l) : Joined x y l (.error e)
  | right {first second l : List (Exchange Q R)} {e : E} (hx : Begun x first)
      (hy : Talk y second (.error e)) (hmix : Interleaves first second l) :
      Joined x y l (.error e)

/-- The program returns only if all its exchanges are good.  Of a program that
raises nothing is said. -/
def Heeds (good : Exchange Q R → Prop) (x : Program Q R E α) : Prop :=
  ∀ l a, Talk x l (.ok a) → ∀ e ∈ l, good e

variable {good : Exchange Q R → Prop}

theorem heeds_pure (a : α) : Heeds good (pure a : Program Q R E α) := by
  intro l b h e he
  obtain ⟨rfl, -⟩ := talk_pure_iff.mp h
  cases he

/-- A result that is there already has nothing to heed. -/
theorem heeds_ofExcept (r : Except E α) : Heeds good (ofExcept r : Program Q R E α) := by
  intro l b h e he
  obtain ⟨rfl, -⟩ := talk_ofExcept_iff.mp h
  cases he

/-- A program that asks once heeds its answer if it succeeds on good answers
only. -/
theorem heeds_asking {q : Q} {f : R q → Except E α}
    (h : ∀ answer a, f answer = .ok a → good ⟨q, answer⟩) :
    Heeds good (asking q f : Program Q R E α) := by
  intro l a htalk e he
  obtain ⟨answer, rfl, hr⟩ := talk_asking_iff.mp htalk
  obtain rfl := List.mem_singleton.mp he
  exact h answer a hr.symm

/-- Two programs one after the other heed what each of them does. -/
theorem Heeds.bind {x : Program Q R E α} {f : α → Program Q R E β} (hx : Heeds good x)
    (hf : ∀ a, Heeds good (f a)) : Heeds good (x >>= f) := by
  intro l b h e he
  obtain ⟨a, first, rest, rfl, hfirst, hrest⟩ := exists_of_talk_bind_ok h
  rcases List.mem_append.mp he with he | he
  · exact hx first a hfirst e he
  · exact hf a rest b hrest e he

/-- Two programs beside each other heed what each of them does. -/
theorem Heeds.joined {x : Program Q R E α} {y : Program Q R E β} (hx : Heeds good x)
    (hy : Heeds good y) {c : α × β} (h : Joined x y l (.ok c)) : ∀ e ∈ l, good e := by
  intro e he
  cases h with
  | both hfirst hsecond hmix =>
      rcases hmix.mem_iff.mp he with he | he
      · exact hx _ _ hfirst e he
      · exact hy _ _ hsecond e he

/-- Each program has one end. -/
theorem Gathered.length_eq {xs : List (Program Q R E α)} {rs : List (Except E α)}
    (h : Gathered xs l rs) : rs.length = xs.length := by
  induction h with
  | nil => rfl
  | cons hx hrest hmix ih => rw [List.length_cons, List.length_cons, ih]

/-- If none has raised an exception, all exchanges are good. -/
theorem Gathered.good_of_returned {xs : List (Program Q R E α)} {rs : List (Except E α)}
    (h : Gathered xs l rs) (hheeds : ∀ x ∈ xs, Heeds good x) (hrs : ∀ e, .error e ∉ rs) :
    ∀ e ∈ l, good e := by
  induction h with
  | nil =>
      intro e he
      cases he
  | @cons x xs part rest l r rs hx hrest hmix ih =>
      intro e he
      rcases hmix.mem_iff.mp he with he | he
      · cases r with
        | error exc => exact absurd (List.mem_cons_self ..) (hrs exc)
        | ok a => exact hheeds x (List.mem_cons_self ..) part a hx e he
      · refine ih (fun y hy => hheeds y (List.mem_cons_of_mem _ hy)) ?_ e he
        exact fun exc hexc => hrs exc (List.mem_cons_of_mem _ hexc)

/-- However it ends, the program asks questions of this kind only, whatever it
is answered. -/
def AsksOnly (kind : Q → Prop) (x : Program Q R E α) : Prop :=
  ∀ l r, Talk x l r → ∀ e ∈ l, kind e.1

variable {kind : Q → Prop}

/-- A program that asks nothing asks nothing of another kind. -/
theorem asksOnly_pure (a : α) : AsksOnly kind (pure a : Program Q R E α) := by
  intro l r h e he
  obtain ⟨rfl, -⟩ := talk_pure_iff.mp h
  cases he

theorem asksOnly_ofExcept (x : Except E α) : AsksOnly kind (ofExcept x : Program Q R E α) := by
  intro l r h e he
  obtain ⟨rfl, -⟩ := talk_ofExcept_iff.mp h
  cases he

theorem asksOnly_asking {q : Q} {f : R q → Except E α} (hq : kind q) :
    AsksOnly kind (asking q f : Program Q R E α) := by
  intro l r h e he
  obtain ⟨answer, rfl, -⟩ := talk_asking_iff.mp h
  obtain rfl := List.mem_singleton.mp he
  exact hq

/-- Two programs one after the other ask what each of them does. -/
theorem AsksOnly.bind {x : Program Q R E α} {f : α → Program Q R E β} (hx : AsksOnly kind x)
    (hf : ∀ a, AsksOnly kind (f a)) : AsksOnly kind (x >>= f) := by
  intro l r h e he
  rcases talk_bind_iff.mp h with ⟨exc, hfirst, -⟩ | ⟨a, first, rest, rfl, hfirst, hrest⟩
  · exact hx l _ hfirst e he
  · rcases List.mem_append.mp he with he | he
    · exact hx first _ hfirst e he
    · exact hf a rest r hrest e he

/-- What is taken from a result may depend on it. -/
theorem asksOnly_ofExcept_bind {x : Except E α} {f : α → Program Q R E β}
    (hf : ∀ a, x = .ok a → AsksOnly kind (f a)) : AsksOnly kind (ofExcept x >>= f) := by
  intro l r h e he
  rcases talk_bind_iff.mp h with ⟨exc, hfirst, -⟩ | ⟨a, first, rest, rfl, hfirst, hrest⟩
  · exact asksOnly_ofExcept x l _ hfirst e he
  · obtain ⟨rfl, ha⟩ := talk_ofExcept_iff.mp hfirst
    exact hf a ha.symm rest r hrest e he

/-- A program that was begun has asked nothing else so far. -/
theorem AsksOnly.of_begun {x : Program Q R E α} (hx : AsksOnly kind x) (h : Begun x l) :
    ∀ e ∈ l, kind e.1 := by
  obtain ⟨rest, r, htalk⟩ := h
  exact fun e he => hx _ r htalk e (List.mem_append_left rest he)

/-- Two programs beside each other ask what each of them does. -/
theorem AsksOnly.joined {x : Program Q R E α} {y : Program Q R E β} (hx : AsksOnly kind x)
    (hy : AsksOnly kind y) {r : Except E (α × β)} (h : Joined x y l r) : ∀ e ∈ l, kind e.1 := by
  intro e he
  cases h with
  | both hfirst hsecond hmix =>
      exact (hmix.mem_iff.mp he).elim (hx _ _ hfirst e) (hy _ _ hsecond e)
  | left hfirst hsecond hmix =>
      exact (hmix.mem_iff.mp he).elim (hx _ _ hfirst e) (hy.of_begun hsecond e)
  | right hfirst hsecond hmix =>
      exact (hmix.mem_iff.mp he).elim (hx.of_begun hfirst e) (hy _ _ hsecond e)

/-- Programs that are gathered ask what each of them does. -/
theorem Gathered.asksOnly {xs : List (Program Q R E α)} {rs : List (Except E α)}
    (h : Gathered xs l rs) (hxs : ∀ x ∈ xs, AsksOnly kind x) : ∀ e ∈ l, kind e.1 := by
  induction h with
  | nil => simp
  | @cons x xs part rest l r rs hx hrest hmix ih =>
      obtain ⟨hfirst, hothers⟩ := List.forall_mem_cons.mp hxs
      exact fun e he => (hmix.mem_iff.mp he).elim (hfirst _ _ hx e) (ih hothers e)

end Program

end Dialogues
