import Mathlib.Data.List.Basic

/-!
# Programs that ask their environment

A `Dialogue` either is done, with a result, or asks a question and goes on with the answer.
The answers are not part of it: `Talk d l a` says that the program can have the exchanges
`l`, in this order, and then end with `a`, whatever the environment is.  A statement about
all talks is a statement about every behaviour of the environment.

A `Program` may also raise an exception, and a `Routine` besides updates a state.
`talk_bind_iff` takes the talk of a sequence apart, and `talk_catching_iff` that of a
handler; `play` runs a program against an environment that answers by the exchanges so far.
-/

namespace Dialogues

/-- A computation that asks questions, each with its own type of answers, and
goes on with what was answered until it is done. -/
inductive Dialogue (Q : Type) (R : Q → Type) (α : Type)
  | done (a : α)
  | ask (q : Q) (next : R q → Dialogue Q R α)

/-- A question and its answer. -/
abbrev Exchange (Q : Type) (R : Q → Type) : Type := (q : Q) × R q

variable {Q : Type} {R : Q → Type} {E α β : Type}

namespace Dialogue

/-- One dialogue after the other. -/
def bind (d : Dialogue Q R α) (f : α → Dialogue Q R β) : Dialogue Q R β :=
  match d with
  | done a => f a
  | ask q next => ask q fun r => (next r).bind f

instance : Monad (Dialogue Q R) where
  pure := done
  bind := bind

/-- The program can have these exchanges and end with this result.  Any answer
is possible that has the type of its question. -/
inductive Talk : Dialogue Q R α → List (Exchange Q R) → α → Prop
  | done (a : α) : Talk (done a) [] a
  | ask {q : Q} {next : R q → Dialogue Q R α} {r : R q} {l : List (Exchange Q R)} {a : α}
      (h : Talk (next r) l a) : Talk (ask q next) (⟨q, r⟩ :: l) a

theorem talk_done_iff {a b : α} {l : List (Exchange Q R)} :
    Talk (done a : Dialogue Q R α) l b ↔ l = [] ∧ b = a := by
  constructor
  · intro h
    cases h
    exact ⟨rfl, rfl⟩
  · rintro ⟨rfl, rfl⟩
    exact .done b

/-- A dialogue that asks goes on with the answer that it is given. -/
theorem talk_ask_iff {q : Q} {next : R q → Dialogue Q R α} {l : List (Exchange Q R)} {a : α} :
    Talk (ask q next) l a ↔ ∃ r rest, l = ⟨q, r⟩ :: rest ∧ Talk (next r) rest a := by
  constructor
  · intro h
    cases h with
    | ask h => exact ⟨_, _, rfl, h⟩
  · rintro ⟨r, rest, rfl, h⟩
    exact .ask h

/-- The talk of a sequence is one of its first part and then one of the
rest. -/
theorem talk_bind_iff {d : Dialogue Q R α} {f : α → Dialogue Q R β} {l : List (Exchange Q R)}
    {b : β} :
    Talk (d.bind f) l b ↔ ∃ a first rest, l = first ++ rest ∧ Talk d first a ∧
      Talk (f a) rest b := by
  induction d generalizing l with
  | done a =>
      constructor
      · exact fun h => ⟨a, [], l, rfl, .done a, h⟩
      · rintro ⟨a', first, rest, rfl, hfirst, hrest⟩
        obtain ⟨rfl, rfl⟩ := talk_done_iff.mp hfirst
        exact hrest
  | ask q next ih =>
      rw [bind, talk_ask_iff]
      constructor
      · rintro ⟨r, tail, rfl, htail⟩
        obtain ⟨a, first, rest, rfl, hfirst, hrest⟩ := (ih r).mp htail
        exact ⟨a, ⟨q, r⟩ :: first, rest, rfl, .ask hfirst, hrest⟩
      · rintro ⟨a, first, rest, rfl, hfirst, hrest⟩
        obtain ⟨r, tail, rfl, htail⟩ := talk_ask_iff.mp hfirst
        exact ⟨r, tail ++ rest, rfl, (ih r).mpr ⟨a, tail, rest, rfl, htail, hrest⟩⟩

/-- Run the program against an environment that is given the exchanges so far
and the question. -/
def play (env : List (Exchange Q R) → (q : Q) → R q) :
    Dialogue Q R α → List (Exchange Q R) → List (Exchange Q R) × α
  | done a, past => (past, a)
  | ask q next, past => (next (env past q)).play env (past ++ [⟨q, env past q⟩])

/-- What it did is one of its talks. -/
theorem exists_talk_of_play (env : List (Exchange Q R) → (q : Q) → R q) (d : Dialogue Q R α)
    (past : List (Exchange Q R)) :
    ∃ l, (d.play env past).1 = past ++ l ∧ Talk d l (d.play env past).2 := by
  induction d generalizing past with
  | done a => exact ⟨[], by simp [play], .done a⟩
  | ask q next ih =>
      obtain ⟨l, hl, htalk⟩ := ih (env past q) (past ++ [⟨q, env past q⟩])
      exact ⟨⟨q, env past q⟩ :: l, by simpa [play] using hl, .ask htalk⟩

/-- A dialogue that is played against an environment talks like that. -/
theorem talk_play (env : List (Exchange Q R) → (q : Q) → R q) (d : Dialogue Q R α) :
    Talk d (d.play env []).1 (d.play env []).2 := by
  obtain ⟨l, hl, htalk⟩ := exists_talk_of_play env d []
  rw [List.nil_append] at hl
  rwa [hl]

end Dialogue

/-- A dialogue that may raise an exception. -/
abbrev Program (Q : Type) (R : Q → Type) (E α : Type) : Type := ExceptT E (Dialogue Q R) α

namespace Program

/-- The program can have these exchanges and end like this. -/
def Talk (x : Program Q R E α) (l : List (Exchange Q R)) (r : Except E α) : Prop :=
  Dialogue.Talk (ExceptT.run x) l r

/-- A question whose answer is read by `f`. -/
def asking (q : Q) (f : R q → Except E α) : Program Q R E α :=
  ExceptT.mk (.ask q fun r => .done (f r))

/-- A result or an exception without any question. -/
def ofExcept (r : Except E α) : Program Q R E α := ExceptT.mk (.done r)

/-- `try: x except ..: handler`. -/
def catching (x : Program Q R E α) (handler : E → Program Q R E α) : Program Q R E α :=
  ExceptT.mk (Dialogue.bind (ExceptT.run x) fun
    | .ok a => .done (.ok a)
    | .error e => ExceptT.run (handler e))

/-- `try: x finally: cleanup`. -/
def ensuring (x : Program Q R E α) (cleanup : Program Q R E Unit) : Program Q R E α :=
  ExceptT.mk (Dialogue.bind (ExceptT.run x) fun r =>
    Dialogue.bind (ExceptT.run cleanup) fun
      | .ok () => .done r
      | .error e => .done (.error e))

variable {l : List (Exchange Q R)}

theorem talk_pure_iff {a : α} {r : Except E α} :
    Talk (pure a : Program Q R E α) l r ↔ l = [] ∧ r = .ok a :=
  Dialogue.talk_done_iff

theorem talk_throw_iff {e : E} {r : Except E α} :
    Talk (throw e : Program Q R E α) l r ↔ l = [] ∧ r = .error e :=
  Dialogue.talk_done_iff

theorem talk_ofExcept_iff {x r : Except E α} :
    Talk (ofExcept x : Program Q R E α) l r ↔ l = [] ∧ r = x :=
  Dialogue.talk_done_iff

/-- A program that asks once makes its result of the answer. -/
theorem talk_asking_iff {q : Q} {f : R q → Except E α} {r : Except E α} :
    Talk (asking q f) l r ↔ ∃ answer, l = [⟨q, answer⟩] ∧ r = f answer := by
  simp only [Talk, asking, ExceptT.run_mk, Dialogue.talk_ask_iff, Dialogue.talk_done_iff]
  constructor
  · rintro ⟨answer, rest, rfl, rfl, rfl⟩
    exact ⟨answer, rfl, rfl⟩
  · rintro ⟨answer, rfl, rfl⟩
    exact ⟨answer, [], rfl, rfl, rfl⟩

/-- A sequence ends with the exception of its first part, or goes on from its
result. -/
theorem talk_bind_iff {x : Program Q R E α} {f : α → Program Q R E β} {r : Except E β} :
    Talk (x >>= f) l r ↔ (∃ e, Talk x l (.error e) ∧ r = .error e) ∨
      ∃ a first rest, l = first ++ rest ∧ Talk x first (.ok a) ∧ Talk (f a) rest r := by
  have hbind : Talk (x >>= f) l r ↔ ∃ res first rest, l = first ++ rest ∧ Talk x first res ∧
      Dialogue.Talk (match res with
        | .ok a => ExceptT.run (f a)
        | .error e => Dialogue.done (.error e)) rest r :=
    Dialogue.talk_bind_iff
  rw [hbind]
  constructor
  · rintro ⟨e | a, first, rest, rfl, hfirst, hrest⟩
    · obtain ⟨rfl, rfl⟩ := Dialogue.talk_done_iff.mp hrest
      exact Or.inl ⟨e, by simpa using hfirst, rfl⟩
    · exact Or.inr ⟨a, first, rest, rfl, hfirst, hrest⟩
  · rintro (⟨e, hfirst, rfl⟩ | ⟨a, first, rest, rfl, hfirst, hrest⟩)
    · exact ⟨.error e, l, [], by simp, hfirst, .done _⟩
    · exact ⟨.ok a, first, rest, rfl, hfirst, hrest⟩

/-- A sequence that returns has gone through both of its parts. -/
theorem exists_of_talk_bind_ok {x : Program Q R E α} {f : α → Program Q R E β} {b : β}
    (h : Talk (x >>= f) l (.ok b)) :
    ∃ a first rest, l = first ++ rest ∧ Talk x first (.ok a) ∧ Talk (f a) rest (.ok b) := by
  rcases talk_bind_iff.mp h with ⟨e, -, hb⟩ | hparts
  · cases hb
  · exact hparts

/-- A handler takes over from the exception. -/
theorem talk_catching_iff {x : Program Q R E α} {handler : E → Program Q R E α}
    {r : Except E α} :
    Talk (catching x handler) l r ↔ (∃ a, Talk x l (.ok a) ∧ r = .ok a) ∨
      ∃ e first rest, l = first ++ rest ∧ Talk x first (.error e) ∧
        Talk (handler e) rest r := by
  rw [Talk, catching, ExceptT.run_mk, Dialogue.talk_bind_iff]
  constructor
  · rintro ⟨e | a, first, rest, rfl, hfirst, hrest⟩
    · exact Or.inr ⟨e, first, rest, rfl, hfirst, hrest⟩
    · obtain ⟨rfl, rfl⟩ := Dialogue.talk_done_iff.mp hrest
      exact Or.inl ⟨a, by rwa [List.append_nil], rfl⟩
  · rintro (⟨a, hfirst, rfl⟩ | ⟨e, first, rest, rfl, hfirst, hrest⟩)
    · exact ⟨.ok a, l, [], by rw [List.append_nil], hfirst, .done _⟩
    · exact ⟨.error e, first, rest, rfl, hfirst, hrest⟩

/-- The clean-up is always done, and its exception is the one that is
raised. -/
theorem talk_ensuring_iff {x : Program Q R E α} {cleanup : Program Q R E Unit}
    {r : Except E α} :
    Talk (ensuring x cleanup) l r ↔ ∃ result first rest, l = first ++ rest ∧
      Talk x first result ∧ ((Talk cleanup rest (.ok ()) ∧ r = result) ∨
        ∃ e, Talk cleanup rest (.error e) ∧ r = .error e) := by
  rw [Talk, ensuring, ExceptT.run_mk, Dialogue.talk_bind_iff]
  refine exists_congr fun result => exists_congr fun first => exists_congr fun rest =>
    and_congr_right fun _ => and_congr_right fun _ => ?_
  rw [Dialogue.talk_bind_iff]
  constructor
  · rintro ⟨e | ⟨⟩, before, after, rfl, hcleanup, hdone⟩
    · obtain ⟨rfl, rfl⟩ := Dialogue.talk_done_iff.mp hdone
      exact Or.inr ⟨e, by rwa [List.append_nil], rfl⟩
    · obtain ⟨rfl, rfl⟩ := Dialogue.talk_done_iff.mp hdone
      exact Or.inl ⟨by rwa [List.append_nil], rfl⟩
  · rintro (⟨hcleanup, rfl⟩ | ⟨e, hcleanup, rfl⟩)
    · exact ⟨.ok (), rest, [], by rw [List.append_nil], hcleanup, .done _⟩
    · exact ⟨.error e, rest, [], by rw [List.append_nil], hcleanup, .done _⟩

end Program

/-- A program that updates a state; what it did to the state before an
exception stays done. -/
abbrev Routine (S Q : Type) (R : Q → Type) (E α : Type) : Type :=
  ExceptT E (StateT S (Dialogue Q R)) α

namespace Routine

variable {S : Type} {s t : S} {l : List (Exchange Q R)}

/-- From the state `s` the routine can have these exchanges and end like this,
in the state `t`. -/
def Talk (x : Routine S Q R E α) (s : S) (l : List (Exchange Q R)) (r : Except E α) (t : S) :
    Prop :=
  Dialogue.Talk ((ExceptT.run x).run s) l (r, t)

/-- A question whose answer is read by `f`. -/
def asking (q : Q) (f : R q → Except E α) : Routine S Q R E α :=
  ExceptT.mk fun s => .ask q fun r => .done (f r, s)

/-- A result or an exception without any question. -/
def ofExcept (r : Except E α) : Routine S Q R E α := ExceptT.mk fun s => .done (r, s)

/-- A change of the state. -/
def update (f : S → S) : Routine S Q R E Unit := ExceptT.mk fun s => .done (.ok (), f s)

/-- The state. -/
def current : Routine S Q R E S := ExceptT.mk fun s => .done (.ok s, s)

/-- A routine that returns at once asks nothing, and leaves the state. -/
theorem talk_pure_iff {a : α} {r : Except E α} :
    Talk (pure a : Routine S Q R E α) s l r t ↔ l = [] ∧ r = .ok a ∧ t = s := by
  refine Dialogue.talk_done_iff.trans (and_congr_right fun _ => ?_)
  rw [Prod.mk.injEq]

/-- A routine with a result already asks nothing, and leaves the state. -/
theorem talk_ofExcept_iff {x r : Except E α} :
    Talk (ofExcept x : Routine S Q R E α) s l r t ↔ l = [] ∧ r = x ∧ t = s := by
  refine Dialogue.talk_done_iff.trans (and_congr_right fun _ => ?_)
  rw [Prod.mk.injEq]

theorem talk_update_iff {f : S → S} {r : Except E Unit} :
    Talk (update f : Routine S Q R E Unit) s l r t ↔ l = [] ∧ r = .ok () ∧ t = f s := by
  refine Dialogue.talk_done_iff.trans (and_congr_right fun _ => ?_)
  rw [Prod.mk.injEq]

theorem talk_current_iff {r : Except E S} :
    Talk (current : Routine S Q R E S) s l r t ↔ l = [] ∧ r = .ok s ∧ t = s := by
  refine Dialogue.talk_done_iff.trans (and_congr_right fun _ => ?_)
  rw [Prod.mk.injEq]

/-- A routine that asks once makes its result of the answer, and leaves the
state. -/
theorem talk_asking_iff {q : Q} {f : R q → Except E α} {r : Except E α} :
    Talk (asking q f : Routine S Q R E α) s l r t ↔
      ∃ answer, l = [⟨q, answer⟩] ∧ r = f answer ∧ t = s := by
  refine Dialogue.talk_ask_iff.trans ⟨?_, ?_⟩
  · rintro ⟨answer, rest, rfl, hdone⟩
    obtain ⟨rfl, hpair⟩ := Dialogue.talk_done_iff.mp hdone
    exact ⟨answer, rfl, Prod.mk.inj hpair⟩
  · rintro ⟨answer, rfl, rfl, rfl⟩
    exact ⟨answer, [], rfl, .done _⟩

/-- A sequence ends with the exception of its first part, or goes on from its
result. -/
theorem talk_bind_iff {x : Routine S Q R E α} {f : α → Routine S Q R E β} {r : Except E β} :
    Talk (x >>= f) s l r t ↔ (∃ e, Talk x s l (.error e) t ∧ r = .error e) ∨
      ∃ a first rest u, l = first ++ rest ∧ Talk x s first (.ok a) u ∧
        Talk (f a) u rest r t := by
  have hbind : Talk (x >>= f) s l r t ↔ ∃ res first rest, l = first ++ rest ∧
      Dialogue.Talk ((ExceptT.run x).run s) first res ∧
      Dialogue.Talk ((match res.1 with
        | .ok a => ExceptT.run (f a)
        | .error e => pure (.error e) : StateT S (Dialogue Q R) (Except E β)).run res.2)
        rest (r, t) :=
    Dialogue.talk_bind_iff
  rw [hbind]
  constructor
  · rintro ⟨⟨e | a, u⟩, first, rest, rfl, hfirst, hrest⟩
    · obtain ⟨rfl, hpair⟩ := Dialogue.talk_done_iff.mp hrest
      obtain ⟨rfl, rfl⟩ := Prod.mk.inj hpair
      exact Or.inl ⟨e, by rwa [List.append_nil], rfl⟩
    · exact Or.inr ⟨a, first, rest, u, rfl, hfirst, hrest⟩
  · rintro (⟨e, hfirst, rfl⟩ | ⟨a, first, rest, u, rfl, hfirst, hrest⟩)
    · exact ⟨(.error e, t), l, [], by rw [List.append_nil], hfirst, .done _⟩
    · exact ⟨(.ok a, u), first, rest, rfl, hfirst, hrest⟩

end Routine

end Dialogues
