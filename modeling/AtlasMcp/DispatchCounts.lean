import AtlasMcp.DispatchGates

/-!
# How often a dispatch runs its tool

A `Ledger` is a system with a count, for each of its dispatches, of the starts of
`tool.run`; it also keeps the dispatches that have ended, with what they returned or
raised.  It takes the steps of its system and only adds to the record, so that a run of
a ledger is a run of its system (`Ledger.run_system`).

`Ledger.Holds` is the invariant rule: what holds of a dispatch with its count, wherever
it waits and when it ends, follows from what one move of one dispatch does.
-/

namespace Server

open PyJson PyText Errors Tools Auth Governance RateLimit Reliability Cache FallibleState
open GuardedRuns

variable {F : Type}

/-- What an event moves on: the dispatch, its place among those in flight
unless it arrives with the event, and what it does next. -/
structure Move (F : Type) where
  place : Option ℕ
  flight : Flight F
  next : Progress F × ServerState F

/-- A dispatch in flight that has started its tool so often.  The server does
not keep the number. -/
structure Waiting (F : Type) where
  flight : Flight F
  phase : Phase F
  starts : ℕ

/-- A dispatch that has ended, and had started its tool so often.  Nothing of it
is left in the server. -/
structure Ended (F : Type) where
  flight : Flight F
  result : Except (Exc F) (Value F)
  starts : ℕ

/-- A system, with what is counted of each dispatch: for those under way how
often their tool has started so far, and for those that have ended how often
it has. -/
structure Ledger (F : Type) where
  system : System F
  waiting : List (Waiting F) := []
  ended : List (Ended F) := []

/-- To go on to run the tool is to start it. -/
def Progress.starts : Progress F → ℕ
  | .suspended (.running _) => 1
  | _ => 0

/-- Where a dispatch is suspended, unless it has ended. -/
def Progress.phase? : Progress F → Option (Phase F)
  | .suspended phase => some phase
  | .ended _ => none

/-- A dispatch arrives with the event. -/
def Event.isDispatch : Event F → Bool
  | .dispatch .. => true
  | _ => false

/-- The others, when the one at the place moves on. -/
def leftBy {α : Type} (xs : List α) : Option ℕ → List α
  | none => xs
  | some i => xs.eraseIdx i

section Moves

variable [PyFloat F] [UnicodeDb]

/-- The dispatch an event moves on, if any. -/
def System.moved (srv : AtlasServer F) (t : System F) : Event F → Option (Move F)
  | .dispatch ctx env clock =>
      match (gates srv ctx env clock).run t.server with
      | (.error _, _) => none
      | (.ok (tool, args), server) =>
          let f := flightOf srv ctx env clock t.server tool args
          some ⟨none, f, runObserved srv server f clock.now⟩
  | .ran i outcome now =>
      match t.inFlight[i]? with
      | some (f, .running a) => some ⟨some i, f, afterRun srv t.server f a outcome now⟩
      | _ => none
  | .woke i now => do
      let (f, phase) ← t.inFlight[i]?
      let next ← afterSleep srv t.server f now phase
      return ⟨some i, f, next⟩
  | .interrupt i timedOut now => do
      let (f, phase) ← t.inFlight[i]?
      let next ← afterInterrupt srv t.server f timedOut now phase
      return ⟨some i, f, next⟩
  | _ => none

/-- The dispatch at place `i` goes on: its tool ended, its wait ended, or the
wait was interrupted. -/
def GoesOn (srv : AtlasServer F) (t : System F) (i : ℕ) (f : Flight F) (phase : Phase F)
    (e : Event F) (next : Progress F × ServerState F) : Prop :=
  t.inFlight[i]? = some (f, phase) ∧
  ((∃ a outcome now, e = .ran i outcome now ∧ phase = .running a ∧
    next = afterRun srv t.server f a outcome now) ∨
  (∃ now, e = .woke i now ∧ afterSleep srv t.server f now phase = some next) ∨
  (∃ timedOut now, e = .interrupt i timedOut now ∧
    afterInterrupt srv t.server f timedOut now phase = some next))

/-- A dispatch arrives and passes its gates, which leave the server in the
state `s'`. -/
def Arrives (srv : AtlasServer F) (s : ServerState F) (e : Event F) (f : Flight F)
    (s' : ServerState F) : Prop :=
  ∃ ctx env clock tool args, e = .dispatch ctx env clock ∧
    (gates srv ctx env clock).run s = (.ok (tool, args), s') ∧
    f = flightOf srv ctx env clock s tool args

/-- Where a dispatch may be after its next move, by where it waits. -/
def Flows (srv : AtlasServer F) (i : ℕ) (f : Flight F) (e : Event F) (next : Progress F) :
    Phase F → Prop
  | .polling _ => (∃ waits, next = .suspended (.polling waits)) ∨
      (∃ c, next = .suspended (.starting c)) ∨ ∃ result, next = .ended result
  | .starting _ => (∃ a, next = .suspended (.running a)) ∨
      ∃ c result, next = .suspended (.ending c result)
  | .running a => (∃ outcome now, e = .ran i outcome now ∧
      retries srv f a (normalised f.envelope outcome) ∧ next = .suspended (.backoff a)) ∨
      ∃ c result, next = .suspended (.ending c result)
  | .backoff _ => (∃ a now, e = .woke i now ∧ next = .suspended (.running a)) ∨
      ∃ c result, next = .suspended (.ending c result)
  | .ending _ _ => ∃ result, next = .ended result

section Flow

variable {srv : AtlasServer F} {s : ServerState F} {f : Flight F} {now : ℚ}

omit [UnicodeDb] in
/-- A read of the cache ends the dispatch, or it goes on as on a miss. -/
theorem readCache_flow (srv : AtlasServer F) (s : ServerState F) (f : Flight F)
    (key : String) (now : ℚ) (miss : ServerState F → Progress F × ServerState F) :
    (∃ result, (readCache srv s f key now miss).1 = .ended result) ∨
      ∃ s', readCache srv s f key now miss = miss s' := by
  rcases hread : s.cache.get key now with ⟨exc | v, cache⟩
  · exact Or.inl ⟨.error exc, by simp only [readCache, hread, conclude]⟩
  · cases v <;> simp only [readCache, hread]
    case none => exact Or.inr ⟨_, rfl⟩
    all_goals exact Or.inl ⟨_, rfl⟩

omit [UnicodeDb] in
/-- A dispatch that has arrived waits for the cache or for its task, or has
ended. -/
theorem runObserved_flow (srv : AtlasServer F) (s : ServerState F) (f : Flight F) (now : ℚ) :
    (∃ waits, (runObserved srv s f now).1 = .suspended (.polling waits)) ∨
      (∃ c, (runObserved srv s f now).1 = .suspended (.starting c)) ∨
      ∃ result, (runObserved srv s f now).1 = .ended result := by
  unfold runObserved
  split
  · exact Or.inr (Or.inl ⟨_, rfl⟩)
  · rename_i key _
    rcases readCache_flow srv s f key now _ with hend | ⟨s', hs'⟩
    · exact Or.inr (Or.inr hend)
    · rw [hs']
      simp only
      split
      · exact Or.inr (Or.inl ⟨_, rfl⟩)
      · exact Or.inl ⟨_, rfl⟩

omit [UnicodeDb] in
/-- What a dispatch is resumed with, it returns or raises. -/
theorem resume_progress (srv : AtlasServer F) (s : ServerState F) (f : Flight F)
    (c : Budgeted) (result : Except (Exc F) (ToolResult F)) (now : ℚ) :
    (resume srv s f c result now).1 = .ended (result.map fun r => .dict r.val) := by
  unfold resume settle
  split <;> rfl

/-- **The course of a dispatch.** -/
theorem flows_of_goesOn {t : System F} {i : ℕ} {phase : Phase F} {e : Event F}
    {next : Progress F × ServerState F} (h : GoesOn srv t i f phase e next) :
    Flows srv i f e next.1 phase := by
  obtain ⟨-, ⟨a, outcome, now, rfl, rfl, rfl⟩ | ⟨now, rfl, hnext⟩ |
    ⟨timedOut, now, rfl, hnext⟩⟩ := h
  · by_cases hretry : retries srv f a (normalised f.envelope outcome)
    · exact Or.inl ⟨outcome, now, rfl, hretry, by simp only [afterRun, hretry, if_true]⟩
    · have hend : afterRun srv t.server f a outcome now = finishAttempt srv t.server f a
          (normalised f.envelope outcome) (normalised f.envelope outcome) now := if_neg hretry
      exact Or.inr ⟨_, _, congrArg Prod.fst hend⟩
  · cases phase with
    | running a => simp [afterSleep] at hnext
    | backoff a =>
        obtain rfl := Option.some.inj hnext
        exact Or.inl ⟨_, now, rfl, rfl⟩
    | ending c result =>
        obtain rfl := Option.some.inj hnext
        unfold resume settle
        split <;> exact ⟨_, rfl⟩
    | starting c =>
        obtain rfl := Option.some.inj hnext
        obtain ⟨admission, b, -, ⟨-, hstart⟩ | ⟨admitted, -, ⟨-, -, hstart⟩ | hstart⟩⟩ :=
          startCall_cases srv t.server f c now <;> rw [hstart]
        · exact Or.inr ⟨_, _, rfl⟩
        · exact Or.inr ⟨_, _, rfl⟩
        · exact Or.inl ⟨_, rfl⟩
    | polling waits =>
        obtain ⟨key, hkey, rfl⟩ := Option.map_eq_some_iff.mp hnext
        rcases readCache_flow srv t.server f key now _ with hend | ⟨s', hs'⟩
        · exact Or.inr (Or.inr hend)
        · rw [hs']
          split
          · exact Or.inl ⟨_, rfl⟩
          · exact Or.inr (Or.inl ⟨_, rfl⟩)
  · cases phase with
    | ending c result => simp [afterInterrupt] at hnext
    | starting c =>
        obtain rfl := Option.some.inj hnext
        exact Or.inr ⟨_, _, rfl⟩
    | running a =>
        obtain rfl := Option.some.inj hnext
        exact Or.inr ⟨_, _, rfl⟩
    | backoff a =>
        obtain rfl := Option.some.inj hnext
        exact Or.inr ⟨_, _, rfl⟩
    | polling waits =>
        obtain rfl := eq_of_afterInterrupt_polling hnext
        exact Or.inr (Or.inr ⟨_, rfl⟩)

end Flow

namespace System

variable {srv : AtlasServer F} {t u : System F} {e : Event F}

/-- A move is that of a dispatch that arrives or of one that waits. -/
theorem moved_cases {m : Move F} (h : t.moved srv e = some m) :
    (m.place = none ∧ ∃ s, Arrives srv t.server e m.flight s ∧
      m.next = runObserved srv s m.flight m.flight.clock.now) ∨
    ∃ i phase, m.place = some i ∧ GoesOn srv t i m.flight phase e m.next := by
  cases e with
  | dispatch ctx env clock =>
      simp only [moved] at h
      split at h
      next => cases h
      next tool args s hgates =>
          obtain rfl := Option.some.inj h
          exact Or.inl ⟨rfl, s, ⟨ctx, env, clock, tool, args, rfl, hgates, rfl⟩, rfl⟩
  | ran i outcome now =>
      simp only [moved] at h
      split at h
      next f a hi =>
          obtain rfl := Option.some.inj h
          exact Or.inr ⟨i, _, rfl, hi, Or.inl ⟨a, outcome, now, rfl, rfl, rfl⟩⟩
      next => cases h
  | woke i now =>
      obtain ⟨f, phase, hi, next, hnext, rfl⟩ : ∃ f phase, t.inFlight[i]? = some (f, phase) ∧
          ∃ next, afterSleep srv t.server f now phase = some next ∧
            (⟨some i, f, next⟩ : Move F) = m := by
        simpa [moved, Option.bind_eq_some_iff] using h
      exact Or.inr ⟨i, phase, rfl, hi, Or.inr (Or.inl ⟨now, rfl, hnext⟩)⟩
  | interrupt i timedOut now =>
      obtain ⟨f, phase, hi, next, hnext, rfl⟩ : ∃ f phase, t.inFlight[i]? = some (f, phase) ∧
          ∃ next, afterInterrupt srv t.server f timedOut now phase = some next ∧
            (⟨some i, f, next⟩ : Move F) = m := by
        simpa [moved, Option.bind_eq_some_iff] using h
      exact Or.inr ⟨i, phase, rfl, hi, Or.inr (Or.inr ⟨timedOut, now, rfl, hnext⟩)⟩
  | _ => cases h

/-- The move of a dispatch that arrives: it is a new flight, and begins with
what comes before the cache. -/
theorem moved_of_arrives {f : Flight F} {s : ServerState F}
    (h : Arrives srv t.server e f s) :
    t.moved srv e = some ⟨none, f, runObserved srv s f f.clock.now⟩ := by
  obtain ⟨ctx, env, clock, tool, args, rfl, hgates, rfl⟩ := h
  simp only [moved, hgates]
  rfl

theorem moved_of_woke {i : ℕ} {now : ℚ} {f : Flight F} {phase : Phase F}
    {next : Progress F × ServerState F} (hi : t.inFlight[i]? = some (f, phase))
    (hnext : afterSleep srv t.server f now phase = some next) :
    t.moved srv (.woke i now) = some ⟨some i, f, next⟩ := by
  simp [moved, hi, hnext]

omit [PyFloat F] [UnicodeDb] in
/-- Going on with a dispatch leaves the server in the state that the move
says. -/
theorem server_advance (t : System F) (f : Flight F) (next : Progress F × ServerState F) :
    (t.advance f next).server = next.2 := by
  rcases next with ⟨phase | (exc | v), server⟩ <;> rfl

omit [PyFloat F] [UnicodeDb] in
/-- The dispatch is under way after the move unless it has ended with it. -/
theorem inFlight_advance (t : System F) (f : Flight F) (next : Progress F × ServerState F) :
    (t.advance f next).inFlight =
      t.inFlight ++ (next.1.phase?.map fun phase => (f, phase)).toList := by
  rcases next with ⟨phase | (exc | v), server⟩ <;> simp [advance, Progress.phase?]

omit [PyFloat F] [UnicodeDb] in
theorem started_advance (t : System F) (f : Flight F) (next : Progress F × ServerState F) :
    (t.advance f next).started = t.started ++ List.replicate next.1.starts f := by
  rcases next with ⟨phase | (exc | v), server⟩
  · cases phase <;> simp [advance, Progress.starts]
  · simp [advance, Progress.starts]
  · simp [advance, Progress.starts]

/-- What an event does to the dispatches in flight and to the starts. -/
theorem step_moved (h : t.Step srv e u) :
    (t.moved srv e = none ∧ u.inFlight = t.inFlight ∧ u.started = t.started) ∨
    ∃ m, t.moved srv e = some m ∧
      u.inFlight = leftBy t.inFlight m.place ++
        (m.next.1.phase?.map fun phase => (m.flight, phase)).toList ∧
      u.started = t.started ++ List.replicate m.next.1.starts m.flight := by
  cases e with
  | dispatch ctx env clock =>
      obtain rfl : t.arrive srv ctx env clock = u := Option.some.inj h
      rcases hgates : (gates srv ctx env clock).run t.server with ⟨exc | ⟨tool, args⟩, s⟩
      · exact Or.inl (by simp [moved, arrive, hgates])
      · right
        refine ⟨_, by simp only [moved, hgates]; rfl, ?_⟩
        simp only [arrive, hgates]
        exact ⟨inFlight_advance _ _ _, started_advance _ _ _⟩
  | ran i outcome now =>
      obtain ⟨f, a, hi, rfl⟩ := step_ran h
      right
      refine ⟨_, by simp only [moved, hi]; rfl, ?_⟩
      exact ⟨inFlight_advance _ _ _, started_advance _ _ _⟩
  | woke i now =>
      obtain ⟨f, phase, next, hi, hnext, rfl⟩ := step_woke h
      right
      refine ⟨⟨some i, f, next⟩, by simp [moved, hi, hnext], ?_⟩
      exact ⟨inFlight_advance _ _ _, started_advance _ _ _⟩
  | interrupt i timedOut now =>
      obtain ⟨f, phase, next, hi, hnext, rfl⟩ := step_interrupt h
      right
      refine ⟨⟨some i, f, next⟩, by simp [moved, hi, hnext], ?_⟩
      exact ⟨inFlight_advance _ _ _, started_advance _ _ _⟩
  | invalidateKey key =>
      obtain rfl := Option.some.inj h
      exact Or.inl ⟨rfl, rfl, rfl⟩
  | invalidateTool tenant tool =>
      obtain rfl := Option.some.inj h
      exact Or.inl ⟨rfl, rfl, rfl⟩
  | invalidateTenant tenant =>
      obtain rfl := Option.some.inj h
      exact Or.inl ⟨rfl, rfl, rfl⟩
  | judge approvalId verdict approver now =>
      obtain rfl := Option.some.inj h
      exact Or.inl ⟨rfl, rfl, rfl⟩

/-- An event that moves a dispatch. -/
theorem step_of_moved (h : t.Step srv e u) {m : Move F} (hm : t.moved srv e = some m) :
    u.inFlight = leftBy t.inFlight m.place ++
      (m.next.1.phase?.map fun phase => (m.flight, phase)).toList ∧
      u.started = t.started ++ List.replicate m.next.1.starts m.flight := by
  rcases step_moved h with ⟨hnone, -⟩ | ⟨m', hm', hkept⟩
  · rw [hm] at hnone
    cases hnone
  · obtain rfl : m = m' := Option.some.inj (hm.symm.trans hm')
    exact hkept

/-- An event that moves none. -/
theorem step_of_not_moved (h : t.Step srv e u) (hm : t.moved srv e = none) :
    u.inFlight = t.inFlight ∧ u.started = t.started := by
  rcases step_moved h with ⟨-, hkept⟩ | ⟨m, hm', -⟩
  · exact hkept
  · rw [hm] at hm'
    cases hm'

theorem moved_of_ran {i : ℕ} {outcome : Except (Exc F) (ToolResult F)} {now : ℚ}
    {f : Flight F} {a : Attempt} (hi : t.inFlight[i]? = some (f, .running a)) :
    t.moved srv (.ran i outcome now) =
      some ⟨some i, f, afterRun srv t.server f a outcome now⟩ := by
  simp only [moved, hi]

theorem moved_of_interrupt {i : ℕ} {timedOut : Bool} {now : ℚ} {f : Flight F}
    {phase : Phase F} {next : Progress F × ServerState F}
    (hi : t.inFlight[i]? = some (f, phase))
    (hnext : afterInterrupt srv t.server f timedOut now phase = some next) :
    t.moved srv (.interrupt i timedOut now) = some ⟨some i, f, next⟩ := by
  simp [moved, hi, hnext]

/-- The server after a move. -/
theorem server_of_moved (h : t.Step srv e u) {m : Move F} (hm : t.moved srv e = some m) :
    u.server = m.next.2 := by
  cases e with
  | dispatch ctx env clock =>
      obtain rfl : t.arrive srv ctx env clock = u := Option.some.inj h
      rcases hgates : (gates srv ctx env clock).run t.server with ⟨exc | ⟨tool, args⟩, s⟩
      · simp [moved, hgates] at hm
      · simp only [moved, hgates, Option.some.injEq] at hm
        simp only [arrive, hgates, server_advance, ← hm]
  | ran i outcome now =>
      obtain ⟨f, a, hi, rfl⟩ := step_ran h
      simp only [moved, hi, Option.some.injEq] at hm
      exact (server_advance _ _ _).trans (by rw [← hm]; rfl)
  | woke i now =>
      obtain ⟨f, phase, next, hi, hnext, rfl⟩ := step_woke h
      simp only [moved, hi, hnext, Option.bind_eq_bind, Option.bind_some, Option.pure_def,
        Option.some.injEq] at hm
      rw [server_advance, ← hm]
  | interrupt i timedOut now =>
      obtain ⟨f, phase, next, hi, hnext, rfl⟩ := step_interrupt h
      simp only [moved, hi, hnext, Option.bind_eq_bind, Option.bind_some, Option.pure_def,
        Option.some.injEq] at hm
      rw [server_advance, ← hm]
  | _ => cases hm

end System

namespace Ledger

/-- How often the dispatch that moves had started its tool before. -/
def before (l : Ledger F) (m : Move F) : ℕ :=
  (m.place.bind fun i => l.waiting[i]?).elim 0 Waiting.starts

/-- The record after a move. -/
def record (l : Ledger F) (u : System F) (m : Move F) : Ledger F :=
  let starts := l.before m + m.next.1.starts
  let waiting := leftBy l.waiting m.place
  match m.next.1 with
  | .suspended phase =>
      { l with system := u, waiting := waiting ++ [⟨m.flight, phase, starts⟩] }
  | .ended result =>
      { system := u, waiting, ended := l.ended ++ [⟨m.flight, result, starts⟩] }

/-- The system takes its step, and the ledger counts it. -/
def step (srv : AtlasServer F) (l : Ledger F) (e : Event F) : Option (Ledger F) :=
  (l.system.step srv e).map fun u =>
    match l.system.moved srv e with
    | none => { l with system := u }
    | some m => l.record u m

/-- One event. -/
def Step (srv : AtlasServer F) (l : Ledger F) (e : Event F) (l' : Ledger F) : Prop :=
  l.step srv e = some l'

/-- A server in any state, with nothing in flight. -/
def ofState (s : ServerState F) : Ledger F where
  system := { server := s }

variable {srv : AtlasServer F} {l l' : Ledger F} {e : Event F}

omit [PyFloat F] [UnicodeDb] in
theorem system_record (l : Ledger F) (u : System F) (m : Move F) :
    (l.record u m).system = u := by
  simp only [record]
  split <;> rfl

/-- What a step of the ledger does: the system takes its own, and if a
dispatch has moved, it is counted. -/
theorem step_cases (h : l.Step srv e l') :
    l.system.Step srv e l'.system ∧
    ((l.system.moved srv e = none ∧ l' = { l with system := l'.system }) ∨
      ∃ m, l.system.moved srv e = some m ∧ l' = l.record l'.system m) := by
  obtain ⟨u, hu, hl'⟩ := Option.map_eq_some_iff.mp h
  cases hmoved : l.system.moved srv e with
  | none =>
      simp only [hmoved] at hl'
      subst hl'
      exact ⟨hu, Or.inl ⟨rfl, rfl⟩⟩
  | some m =>
      simp only [hmoved] at hl'
      have hsystem : l'.system = u := hl' ▸ system_record l u m
      exact ⟨hsystem ▸ hu, Or.inr ⟨m, rfl, hsystem ▸ hl'.symm⟩⟩

/-- A run of a ledger is one of its system. -/
theorem run_system {start : Ledger F} {events : List (Event F)}
    (hrun : Run (Step srv) start events l) :
    Run (System.Step srv) start.system events l.system := by
  induction hrun with
  | nil => exact .nil
  | snoc _ hlast ih => exact ih.snoc (step_cases hlast).1

/-- Every run of a system is one of a ledger. -/
theorem run_of_system {start : Ledger F} {events : List (Event F)} {t : System F}
    (hrun : Run (System.Step srv) start.system events t) :
    ∃ l, Run (Step srv) start events l ∧ l.system = t := by
  induction hrun with
  | nil => exact ⟨start, .nil, rfl⟩
  | @snoc events e t u _ hlast ih =>
      obtain ⟨l, hl, rfl⟩ := ih
      have hstep : ∃ l', l.Step srv e l' := by
        simp only [Step, step, show l.system.step srv e = some u from hlast]
        exact ⟨_, rfl⟩
      obtain ⟨l', hl'⟩ := hstep
      have hu : some l'.system = some u := (step_cases hl').1.symm.trans hlast
      exact ⟨l', hl.snoc hl', Option.some.inj hu⟩

/-- The ledger counts for the dispatches in flight, and every dispatch on it
has the property, with its count. -/
structure Holds (P : Flight F → ℕ → Progress F → Prop) (l : Ledger F) : Prop where
  faithful : l.waiting.map (fun w => (w.flight, w.phase)) = l.system.inFlight
  waiting : ∀ w ∈ l.waiting, P w.flight w.starts (.suspended w.phase)
  ended : ∀ x ∈ l.ended, P x.flight x.starts (.ended x.result)

variable {P : Flight F → ℕ → Progress F → Prop}

omit [PyFloat F] [UnicodeDb] in
/-- At the start there is no dispatch, so that whatever is asked of all of
them holds. -/
theorem holds_ofState (s : ServerState F) : (ofState s).Holds P :=
  ⟨rfl, by simp [ofState], by simp [ofState]⟩

omit [PyFloat F] [UnicodeDb] in
/-- A dispatch in flight has its count. -/
theorem Holds.counted (hl : l.Holds P) {i : ℕ} {f : Flight F} {phase : Phase F}
    (hi : l.system.inFlight[i]? = some (f, phase)) :
    ∃ n, l.waiting[i]? = some ⟨f, phase, n⟩ := by
  rw [← hl.faithful, List.getElem?_map] at hi
  obtain ⟨w, hw, hpair⟩ := Option.map_eq_some_iff.mp hi
  obtain ⟨rfl, rfl⟩ : w.flight = f ∧ w.phase = phase := by simpa using hpair
  exact ⟨w.starts, hw⟩

omit [PyFloat F] [UnicodeDb] in
theorem mem_of_mem_leftBy {α : Type} {xs : List α} {place : Option ℕ} {x : α}
    (h : x ∈ leftBy xs place) : x ∈ xs := by
  cases place with
  | none => exact h
  | some i => exact List.mem_of_mem_eraseIdx h

omit [PyFloat F] [UnicodeDb] in
theorem map_leftBy {α β : Type} (g : α → β) (xs : List α) (place : Option ℕ) :
    (leftBy xs place).map g = leftBy (xs.map g) place := by
  cases place with
  | none => rfl
  | some i => exact (List.eraseIdx_map g xs i).symm

omit [PyFloat F] [UnicodeDb] in
/-- What holds of the dispatches holds after a move if it holds of the one
that has moved, with its starts added. -/
theorem Holds.record (hl : l.Holds P) {u : System F} {m : Move F}
    (hu : u.inFlight = leftBy l.system.inFlight m.place ++
      (m.next.1.phase?.map fun phase => (m.flight, phase)).toList)
    (hnext : P m.flight (l.before m + m.next.1.starts) m.next.1) :
    (l.record u m).Holds P := by
  have hleft := map_leftBy (fun w : Waiting F => (w.flight, w.phase)) l.waiting m.place
  rw [hl.faithful] at hleft
  have hkept : ∀ w ∈ leftBy l.waiting m.place, P w.flight w.starts (.suspended w.phase) :=
    fun w hw => hl.waiting w (mem_of_mem_leftBy hw)
  rcases hprogress : m.next.1 with phase | result
  · rw [hprogress] at hu hnext
    simp only [Ledger.record, hprogress]
    refine ⟨by simp [hleft, hu, Progress.phase?], fun w hw => ?_, hl.ended⟩
    rcases List.mem_append.mp hw with hw | hw
    · exact hkept w hw
    · obtain rfl := List.mem_singleton.mp hw
      exact hnext
  · rw [hprogress] at hu hnext
    simp only [Ledger.record, hprogress]
    refine ⟨by simp [hleft, hu, Progress.phase?], hkept, fun x hx => ?_⟩
    rcases List.mem_append.mp hx with hx | hx
    · exact hl.ended x hx
    · obtain rfl := List.mem_singleton.mp hx
      exact hnext

/-- A dispatch that ends with its move has ended with its count. -/
theorem ended_of_moved (h : l.Step srv e l') {m : Move F}
    (hm : l.system.moved srv e = some m) {result : Except (Exc F) (Value F)}
    (hend : m.next.1 = .ended result) : ⟨m.flight, result, l.before m⟩ ∈ l'.ended := by
  obtain ⟨-, ⟨hnone, -⟩ | ⟨m', hm', hl'⟩⟩ := step_cases h
  · rw [hm] at hnone
    cases hnone
  · obtain rfl : m = m' := Option.some.inj (hm.symm.trans hm')
    rw [hl']
    simp [Ledger.record, hend, Progress.starts]

/-- One that goes on to wait does so with its count. -/
theorem waiting_of_moved (h : l.Step srv e l') {m : Move F}
    (hm : l.system.moved srv e = some m) {phase : Phase F}
    (hnext : m.next.1 = .suspended phase) :
    ⟨m.flight, phase, l.before m + m.next.1.starts⟩ ∈ l'.waiting := by
  obtain ⟨-, ⟨hnone, -⟩ | ⟨m', hm', hl'⟩⟩ := step_cases h
  · rw [hm] at hnone
    cases hnone
  · obtain rfl : m = m' := Option.some.inj (hm.symm.trans hm')
    rw [hl']
    simp [Ledger.record, hnext]

/-- **The rule for counts.**  A property of dispatches with their counts is
kept by an event, if a dispatch that arrives has it after its first move, and
one that waits and has it still does after its next move. -/
theorem Holds.step (hl : l.Holds P) (h : l.Step srv e l')
    (harrives : ∀ f s, Arrives srv l.system.server e f s →
      P f (runObserved srv s f f.clock.now).1.starts (runObserved srv s f f.clock.now).1)
    (hgoes : ∀ i f n phase next, P f n (.suspended phase) →
      GoesOn srv l.system i f phase e next → P f (n + next.1.starts) next.1) :
    l'.Holds P := by
  obtain ⟨hstep, ⟨hnone, hl'⟩ | ⟨m, hm, hl'⟩⟩ := step_cases h
  · rw [hl']
    exact ⟨hl.faithful.trans (System.step_of_not_moved hstep hnone).1.symm, hl.waiting, hl.ended⟩
  · rw [hl']
    apply hl.record (System.step_of_moved hstep hm).1
    rcases System.moved_cases hm with ⟨hplace, s, harrive, hnext⟩ | ⟨i, phase, hplace, hgoesOn⟩
    · simpa [before, hplace, hnext] using harrives _ s harrive
    · obtain ⟨n, hn⟩ := hl.counted hgoesOn.1
      have hbefore : l.before m = n := by simp [before, hplace, hn]
      rw [hbefore]
      exact hgoes i _ n phase _ (hl.waiting _ (List.mem_of_getElem? hn)) hgoesOn

omit [PyFloat F] [UnicodeDb] in
/-- What holds of all dispatches may be weakened. -/
theorem Holds.imp {Q : Flight F → ℕ → Progress F → Prop} (hl : l.Holds P)
    (h : ∀ f n next, P f n next → Q f n next) : l.Holds Q :=
  ⟨hl.faithful, fun w hw => h _ _ _ (hl.waiting w hw), fun x hx => h _ _ _ (hl.ended x hx)⟩

/-- All dispatches past their gates, with their counts. -/
def dispatches (l : Ledger F) : List (Flight F × ℕ) :=
  l.waiting.map (fun w => (w.flight, w.starts)) ++ l.ended.map fun x => (x.flight, x.starts)

/-- The counts of the dispatches with the property, together. -/
def total (p : Flight F → Bool) (ds : List (Flight F × ℕ)) : ℕ :=
  (ds.map fun d => if p d.1 then d.2 else 0).sum

omit [PyFloat F] [UnicodeDb] in
/-- How many of them there are does not depend on their order. -/
theorem total_perm {p : Flight F → Bool} {ds ds' : List (Flight F × ℕ)} (h : ds.Perm ds') :
    total p ds = total p ds' :=
  (h.map _).sum_eq

omit [PyFloat F] [UnicodeDb] in
/-- A move adds to the count of its dispatch, and to no other. -/
theorem dispatches_record (l : Ledger F) (u : System F) (m : Move F) :
    (l.record u m).dispatches.Perm ((m.flight, l.before m + m.next.1.starts) ::
      ((leftBy l.waiting m.place).map (fun w => (w.flight, w.starts)) ++
        l.ended.map fun x => (x.flight, x.starts))) := by
  rcases hprogress : m.next.1 with phase | result
  · simp only [record, hprogress, dispatches, List.map_append, List.map_cons, List.map_nil,
      List.append_assoc, List.singleton_append]
    exact List.perm_middle
  · simp only [record, hprogress, dispatches, List.map_append, List.map_cons, List.map_nil]
    rw [← List.append_assoc]
    exact List.perm_append_singleton _ _

omit [PyFloat F] [UnicodeDb] in
/-- Before the move the dispatch was counted once, unless it is new. -/
theorem total_before (hl : l.Holds P) {m : Move F} (p : Flight F → Bool)
    (hplace : m.place = none ∨ ∃ i phase, m.place = some i ∧
      l.system.inFlight[i]? = some (m.flight, phase)) :
    total p l.dispatches = total p ((m.flight, l.before m) ::
      ((leftBy l.waiting m.place).map (fun w => (w.flight, w.starts)) ++
        l.ended.map fun x => (x.flight, x.starts))) := by
  rcases hplace with hnone | ⟨i, phase, hsome, hi⟩
  · simp [total, dispatches, before, leftBy, hnone]
  · obtain ⟨n, hn⟩ := hl.counted hi
    obtain ⟨hlt, hget⟩ := List.getElem?_eq_some_iff.mp hn
    have hperm := (List.getElem_cons_eraseIdx_perm hlt).symm
    rw [hget] at hperm
    apply total_perm
    simp only [dispatches, before, leftBy, hsome, Option.bind_some, hn, Option.elim_some]
    exact (hperm.map fun w => (w.flight, w.starts)).append_right _

/-- An event that keeps the count of all starts. -/
theorem started_step (hl : l.Holds P) {p : Flight F → Bool}
    (htotal : l.system.started.countP p = total p l.dispatches) (h : l.Step srv e l') :
    l'.system.started.countP p = total p l'.dispatches := by
  obtain ⟨hsystem, ⟨hnone, hl'⟩ | ⟨m, hm, hl'⟩⟩ := step_cases h
  · rw [(System.step_of_not_moved hsystem hnone).2, htotal, hl']
    rfl
  · have hplace : m.place = none ∨ ∃ i phase, m.place = some i ∧
        l.system.inFlight[i]? = some (m.flight, phase) := by
      rcases System.moved_cases hm with ⟨hplace, -⟩ | ⟨i, phase, hplace, hi, -⟩
      · exact Or.inl hplace
      · exact Or.inr ⟨i, phase, hplace, hi⟩
    have hbefore := total_before hl p hplace
    have hafter : total p l'.dispatches = _ :=
      (congrArg (total p ·.dispatches) hl').trans
        (total_perm (dispatches_record l l'.system m))
    rw [(System.step_of_moved hsystem hm).2, List.countP_append, htotal, hbefore, hafter]
    simp only [total, List.map_cons, List.sum_cons, List.countP_replicate]
    split <;> omega

/-- **Every start is counted.** -/
theorem started_eq_total {s : ServerState F} {events : List (Event F)}
    (hrun : Run (Step srv) (ofState s) events l) (p : Flight F → Bool) :
    l.system.started.countP p = total p l.dispatches := by
  have hinv : l.Holds (fun _ _ _ => True) ∧
      l.system.started.countP p = total p l.dispatches := by
    refine hrun.invariant (I := fun l => l.Holds (fun _ _ _ => True) ∧
      l.system.started.countP p = total p l.dispatches) ⟨holds_ofState s, rfl⟩ ?_
    intro l e l' hl hstep
    have hholds := hl.1.step hstep (fun _ _ _ => trivial) fun _ _ _ _ _ _ _ => trivial
    exact ⟨hholds, started_step hl.1 hl.2 hstep⟩
  exact hinv.2

omit [PyFloat F] [UnicodeDb] in
/-- What holds of all dispatches with their counts, whatever they do next. -/
theorem Holds.of_mem_dispatches {Q : Flight F → ℕ → Prop} (hl : l.Holds fun f n _ => Q f n)
    {d : Flight F × ℕ} (hd : d ∈ l.dispatches) : Q d.1 d.2 := by
  rcases List.mem_append.mp hd with hd | hd
  · obtain ⟨w, hw, rfl⟩ := List.mem_map.mp hd
    exact hl.waiting w hw
  · obtain ⟨x, hx, rfl⟩ := List.mem_map.mp hd
    exact hl.ended x hx

omit [PyFloat F] [UnicodeDb] in
/-- Dispatches that start their tool at most once start it at most as often as
there are dispatches. -/
theorem total_le_countP {p : Flight F → Bool} {ds : List (Flight F × ℕ)}
    (h : ∀ d ∈ ds, p d.1 → d.2 ≤ 1) : total p ds ≤ ds.countP fun d => p d.1 := by
  induction ds with
  | nil => simp [total]
  | cons d ds ih =>
      have hrest := ih fun d' hd' => h d' (List.mem_cons_of_mem d hd')
      have hfirst := h d List.mem_cons_self
      simp only [total, List.map_cons, List.sum_cons, List.countP_cons] at hrest ⊢
      by_cases hp : p d.1
      · have hone := hfirst hp
        simp only [hp, if_true]
        omega
      · simp only [hp, Bool.false_eq_true, if_false]
        omega

/-- Every dispatch has arrived in the course of the events. -/
theorem arrived_of_run {s : ServerState F} {events : List (Event F)}
    (hrun : Run (Step srv) (ofState s) events l) :
    l.Holds fun f _ _ => System.Arrived srv { server := s } events f := by
  induction hrun with
  | nil => exact holds_ofState s
  | @snoc events e l l' hbefore hlast ih =>
      have hold : l.Holds fun f _ _ =>
          System.Arrived srv { server := s } (events ++ [e]) f := by
        apply ih.imp
        intro f _ _ h
        obtain ⟨before, after, u, rfl, hu, harrival, hadmitted⟩ := h
        exact ⟨before, after ++ [e], u, by simp, hu, harrival, hadmitted⟩
      apply hold.step hlast
      · intro f s' harrives
        obtain ⟨ctx, env, clock, tool, args, rfl, hgates, rfl⟩ := harrives
        exact ⟨events, [], l.system, rfl, run_system hbefore, rfl, admitted_of_gates hgates⟩
      · intro i f n phase next h _
        exact h

end Ledger

end Moves

end Server
