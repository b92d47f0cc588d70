import AtlasMcp.BreakerRecovery
import AtlasMcp.ComponentRuns
import AtlasMcp.DispatchCounts

/-!
# The breakers of a server

The dispatches of a server share one circuit breaker for each tool.  `Hears` says what the
breaker of a tool hears when a dispatch moves: nothing, that a call arrives, or that a call
it admitted has ended.  A dispatch that retries, or that waits for its turn, stays admitted
(`Phase.admission?`).

So the breaker of a tool is a component of the server: every run of dispatches, of any
tools and in any order, moves it along one of its own runs, with the calls in flight that
the dispatches make (`breaker_of_run`).  What holds of runs of a breaker holds of the
server: an open breaker keeps its tool from being started
(`started_while_open`), and lets it start again when the recovery time is over
(`started_when_idle`).
-/

namespace Server

open PyJson PyText Errors Tools Auth Governance RateLimit Reliability Cache FallibleState
open GuardedRuns

variable {F : Type}

/-- The reading of the monotonic clock that comes with an event. -/
def Event.reading : Event F → Option ℚ
  | .dispatch _ _ clock => some clock.now
  | .ran _ _ now | .woke _ now | .interrupt _ _ now | .judge _ _ _ now => some now
  | .invalidateKey _ | .invalidateTool _ _ | .invalidateTenant _ => none

/-- How the breaker has admitted a dispatch whose call is under way. -/
def Phase.admission? : Phase F → Option Admission
  | .running a | .backoff a => some a.admission
  | .polling _ | .starting _ | .ending .. => none

/-- The call of a dispatch that is about to start. -/
def Phase.starting? : Phase F → Option Budgeted
  | .starting c => some c
  | .polling _ | .running _ | .backoff _ | .ending .. => none

/-- What a breaker hears of one move of a dispatch, by how it had admitted the
dispatch before the move and has admitted it after. -/
inductive Hears (F : Type) (now : ℚ) (b : CircuitBreaker) :
    Option Admission → CircuitBreaker → Option Admission → Prop
  | nothing (held : Option Admission) : Hears F now b held b held
  | arrival (admission : Option Admission) (b' : CircuitBreaker) :
      b.enter now = (admission, b') → Hears F now b none b' admission
  | ending (admission : Admission) (outcome : Except (Exc F) (ToolResult F)) :
      Hears F now b (some admission) (b.finish admission outcome now) none
  | unattempted (admission : Admission) (b' : CircuitBreaker) :
      b.enter now = (some admission, b') →
      Hears F now b none
        (b'.finish admission (.error (.other "AssertionError") : Except (Exc F) (ToolResult F))
          now) none

section Pieces

variable {srv : AtlasServer F} {s : ServerState F} {f : Flight F} {now : ℚ}

/-- The breaker that was put back for a tool is the one that it has. -/
@[simp]
theorem breakerFor_putBreaker_self (s : ServerState F) (name : String) (b : CircuitBreaker) :
    breakerFor srv (putBreaker s name b) name = b := by
  simp [breakerFor, putBreaker]

@[simp]
theorem breakerFor_putBreaker_of_ne {name other : String} (h : other ≠ name)
    (s : ServerState F) (b : CircuitBreaker) :
    breakerFor srv (putBreaker s name b) other = breakerFor srv s other := by
  simp [breakerFor, putBreaker, AList.lookup_insert_ne h]

/-- Where the breakers are the same, so is that of each tool. -/
theorem breakerFor_congr {s t : ServerState F} (h : s.breakers = t.breakers) (name : String) :
    breakerFor srv s name = breakerFor srv t name := by
  simp only [breakerFor, h]

/-- To look a breaker up is to leave it as it is. -/
@[simp]
theorem breakerFor_lookedUp (s : ServerState F) (name other : String) :
    breakerFor srv (putBreaker s name (breakerFor srv s name)) other = breakerFor srv s other := by
  by_cases h : other = name
  · subst h
    rw [breakerFor_putBreaker_self]
  · rw [breakerFor_putBreaker_of_ne h]

/-- One move of a dispatch: the breaker of its tool hears of it, and no other
does. -/
structure HeardOf (srv : AtlasServer F) (f : Flight F) (now : ℚ) (s : ServerState F)
    (held : Option Admission) (next : Progress F × ServerState F) : Prop where
  own : Hears F now (breakerFor srv s f.tool.metadata.name) held
    (breakerFor srv next.2 f.tool.metadata.name) (next.1.phase?.bind Phase.admission?)
  others : ∀ name, name ≠ f.tool.metadata.name →
    breakerFor srv next.2 name = breakerFor srv s name

/-- A move that leaves all breakers as they are. -/
theorem heardOf_of_eq {held : Option Admission} {next : Progress F × ServerState F}
    (h : ∀ name, breakerFor srv next.2 name = breakerFor srv s name)
    (hheld : next.1.phase?.bind Phase.admission? = held) : HeardOf srv f now s held next := by
  refine ⟨?_, fun name _ => h name⟩
  rw [h, hheld]
  exact .nothing held

/-- Nothing of how a dispatch ends once its call is over reaches the breaker
of its tool. -/
theorem heardOf_conclude {t : ServerState F} (h : t.breakers = s.breakers)
    (result : Except (Exc F) (Value F)) : HeardOf srv f now s none (conclude srv t f result) := by
  refine heardOf_of_eq (fun name => ?_) rfl
  rw [conclude, breakerFor_lookedUp]
  exact breakerFor_congr h name

theorem heardOf_finishAttempt (a : Attempt) (outcome result : Except (Exc F) (ToolResult F)) :
    HeardOf srv f now s (some a.admission) (finishAttempt srv s f a outcome result now) := by
  refine ⟨?_, fun name hne => ?_⟩
  · simp only [finishAttempt, breakerFor_putBreaker_self]
    exact .ending a.admission outcome
  · simp only [finishAttempt, breakerFor_putBreaker_of_ne hne]

/-- A call that starts is an arrival at the breaker, or nothing that it hears
of. -/
theorem heardOf_startCall [UnicodeDb] (c : Budgeted) :
    HeardOf srv f now s none (startCall srv s f c now) := by
  obtain ⟨admission, b, henter, ⟨rfl, hstart⟩ | ⟨admitted, rfl, ⟨-, -, hstart⟩ | hstart⟩⟩ :=
    startCall_cases srv s f c now <;> rw [hstart]
  · refine ⟨?_, fun name hne => breakerFor_putBreaker_of_ne hne s b⟩
    rw [breakerFor_putBreaker_self]
    exact .arrival none b henter
  · refine ⟨?_, fun name hne => ?_⟩
    · simp only [finishAttempt, breakerFor_putBreaker_self]
      exact .unattempted admitted b henter
    · simp only [finishAttempt, breakerFor_putBreaker_of_ne hne]
  · refine ⟨?_, fun name hne => breakerFor_putBreaker_of_ne hne s b⟩
    rw [breakerFor_putBreaker_self]
    exact .arrival (some admitted) b henter

/-- Neither does it hear of a dispatch before the call starts. -/
theorem heardOf_execute {t : ServerState F} (h : t.breakers = s.breakers) (locked : Bool) :
    HeardOf srv f now s none (execute srv t f locked now) := by
  refine heardOf_of_eq (fun name => ?_) rfl
  rw [execute, breakerFor_lookedUp]
  exact breakerFor_congr h name

/-- When the tool ends, the breaker hears of that attempt and of nothing
else. -/
theorem heardOf_afterRun (a : Attempt) (outcome : Except (Exc F) (ToolResult F)) :
    HeardOf srv f now s (some a.admission) (afterRun srv s f a outcome now) := by
  unfold afterRun
  simp only
  split
  · exact heardOf_of_eq (fun _ => rfl) rfl
  · exact heardOf_finishAttempt a _ _

/-- When the server interrupts a call, the breaker hears of the attempt that
was held, if there was one. -/
theorem heardOf_afterInterrupt [UnicodeDb] {timedOut : Bool} {phase : Phase F}
    {next : Progress F × ServerState F}
    (h : afterInterrupt srv s f timedOut now phase = some next) :
    HeardOf srv f now s phase.admission? next := by
  cases phase with
  | ending c result => simp [afterInterrupt] at h
  | polling waits =>
      obtain rfl := eq_of_afterInterrupt_polling h
      exact heardOf_conclude rfl _
  | starting c =>
      obtain rfl := Option.some.inj h
      exact heardOf_of_eq (fun _ => rfl) rfl
  | running a =>
      obtain rfl := Option.some.inj h
      exact heardOf_finishAttempt a _ _
  | backoff a =>
      obtain rfl := Option.some.inj h
      exact heardOf_finishAttempt a _ _

variable [PyFloat F]

/-- A read of the cache is no business of the breakers, if a miss is none. -/
theorem heardOf_readCache {key : String}
    {miss : ServerState F → Progress F × ServerState F}
    (hmiss : ∀ t, t.breakers = s.breakers → HeardOf srv f now s none (miss t)) :
    HeardOf srv f now s none (readCache srv s f key now miss) := by
  rcases hread : s.cache.get key now with ⟨exc | v, cache⟩
  · simp only [readCache, hread]
    apply heardOf_conclude
    rfl
  · cases v <;> simp only [readCache, hread]
    case none => exact hmiss _ rfl
    all_goals
      apply heardOf_conclude
      rfl

/-- What comes before the cache is asked is nothing for the breaker. -/
theorem heardOf_runObserved : HeardOf srv f now s none (runObserved srv s f now) := by
  unfold runObserved
  split
  · exact heardOf_execute rfl false
  · apply heardOf_readCache
    intro t ht
    simp only
    split
    · apply heardOf_execute
      exact ht
    · exact heardOf_of_eq (breakerFor_congr ht) rfl

/-- A call that goes on with its result has told the breaker already. -/
theorem heardOf_resume (c : Budgeted) (result : Except (Exc F) (ToolResult F)) :
    HeardOf srv f now s none (resume srv s f c result now) := by
  unfold resume settle
  split <;>
  · apply heardOf_conclude
    rfl

/-- A call that wakes up may try again, and that is an arrival. -/
theorem heardOf_afterSleep [UnicodeDb] {phase : Phase F} {next : Progress F × ServerState F}
    (h : afterSleep srv s f now phase = some next) :
    HeardOf srv f now s phase.admission? next := by
  cases phase with
  | running a => simp [afterSleep] at h
  | starting c =>
      obtain rfl := Option.some.inj h
      exact heardOf_startCall c
  | ending c result =>
      obtain rfl := Option.some.inj h
      exact heardOf_resume c result
  | backoff a =>
      obtain rfl := Option.some.inj h
      exact heardOf_of_eq (fun _ => rfl) rfl
  | polling waits =>
      obtain ⟨key, -, rfl⟩ := Option.map_eq_some_iff.mp h
      apply heardOf_readCache
      intro t ht
      split
      · exact heardOf_of_eq (breakerFor_congr ht) rfl
      · exact heardOf_execute ht false

end Pieces

namespace System

/-- How the breaker of the tool has admitted the dispatches whose calls are
under way. -/
def heldBy (name : String) (xs : List (Flight F × Phase F)) : List Admission :=
  xs.filterMap fun x => if x.1.tool.metadata.name = name then x.2.admission? else none

/-- The breaker of the tool is where the server has it, with the calls in
flight that dispatches make, and its clock does not run ahead. -/
structure HasBreaker (srv : AtlasServer F) (name : String) (t : System F × ℚ)
    (b : Reliability.System) : Prop where
  breaker : b.breaker = breakerFor srv t.1.server name
  held : (b.inFlight.map Reliability.Flight.admission).Perm (heldBy name t.1.inFlight)
  clock : b.clock ≤ t.2

/-- A call that arrives at a breaker. -/
theorem arrival_step {b : Reliability.System} {now : ℚ} (hclock : b.clock ≤ now) :
    b.Step (.call now : Reliability.Event F (ToolResult F)) (b.arrive now) :=
  if_pos hclock

/-- Those that are under way at the breaker after an arrival are those before,
and the new one if it was admitted. -/
theorem admissions_arrive (b : Reliability.System) (now : ℚ) :
    (b.arrive now).inFlight.map Reliability.Flight.admission =
      b.inFlight.map Reliability.Flight.admission ++ (b.breaker.enter now).1.toList := by
  rcases henter : (b.breaker.enter now).1 with _ | admission <;>
    simp [Reliability.System.arrive, Reliability.System.moveTo, henter]

/-- The end of a call that was admitted so. -/
theorem ending_step {b : Reliability.System} {admission : Admission} {now : ℚ}
    {rest : List Admission} (outcome : Except (Exc F) (ToolResult F)) (hclock : b.clock ≤ now)
    (hheld : (b.inFlight.map Reliability.Flight.admission).Perm (admission :: rest)) :
    ∃ (e : Reliability.Event F (ToolResult F)) (c : Reliability.System), b.Step e c ∧
      c.breaker = b.breaker.finish admission outcome now ∧
      (c.inFlight.map Reliability.Flight.admission).Perm rest ∧ c.clock = now := by
  obtain ⟨flight, hmem, rfl⟩ := List.mem_map.mp (hheld.mem_iff.mpr List.mem_cons_self)
  obtain ⟨i, hi⟩ := List.mem_iff_getElem?.mp hmem
  refine ⟨.finish i outcome now, b.leave i flight outcome now, ?_, rfl, ?_, rfl⟩
  · simp [Reliability.System.Step, Reliability.System.step, hclock, hi]
  · obtain ⟨hlt, hget⟩ := List.getElem?_eq_some_iff.mp hi
    have hperm := (List.getElem_cons_eraseIdx_perm hlt).map Reliability.Flight.admission
    rw [hget, List.map_cons] at hperm
    exact (List.perm_cons _).mp (hperm.trans hheld)

/-- **What a breaker hears is a run of it**, with the same calls in flight but
for the one that it hears of; a breaker that has changed has heard it now. -/
theorem run_of_hears {b : Reliability.System} {before after : Option Admission}
    {b' : CircuitBreaker} {now : ℚ} {rest : List Admission}
    (h : Hears F now b.breaker before b' after) (hclock : b.clock ≤ now)
    (hheld : (b.inFlight.map Reliability.Flight.admission).Perm (before.toList ++ rest)) :
    ∃ (ms : List (Reliability.Event F (ToolResult F))) (c : Reliability.System),
      Run Reliability.System.Step b ms c ∧ c.breaker = b' ∧
      (c.inFlight.map Reliability.Flight.admission).Perm (after.toList ++ rest) ∧
      c.clock ≤ now ∧ (b' = b.breaker ∨ c.clock = now) := by
  have harrived : (b.arrive now).clock = now :=
    (Reliability.System.clock_of_step (arrival_step (F := F) hclock)).2
  cases h with
  | nothing => exact ⟨[], b, .nil, rfl, hheld, hclock, Or.inl rfl⟩
  | arrival _ _ henter =>
      refine ⟨[.call now], b.arrive now, Run.nil.snoc (arrival_step hclock), ?_, ?_,
        harrived.le, Or.inr harrived⟩
      · rw [Reliability.System.breaker_arrive, henter]
      · rw [admissions_arrive, henter]
        exact (hheld.append_right _).trans List.perm_append_comm
  | ending admission outcome =>
      obtain ⟨e, c, hstep, hbreaker, hrest, hnow⟩ := ending_step outcome hclock hheld
      exact ⟨[e], c, Run.nil.snoc hstep, hbreaker, hrest, hnow.le, Or.inr hnow⟩
  | unattempted admission b₁ henter =>
      have hboth : ((b.arrive now).inFlight.map Reliability.Flight.admission).Perm
          (admission :: rest) := by
        rw [admissions_arrive, henter]
        exact (hheld.append_right _).trans List.perm_append_comm
      obtain ⟨e, c, hstep, hbreaker, hrest, hnow⟩ :=
        ending_step (.error (.other "AssertionError")) harrived.le hboth
      refine ⟨[.call now, e], c, (Run.nil.snoc (arrival_step hclock)).snoc hstep, ?_, hrest,
        hnow.le, Or.inr hnow⟩
      rw [hbreaker, Reliability.System.breaker_arrive, henter]

/-- The admissions that two groups of flights hold, together. -/
theorem heldBy_append (name : String) (xs ys : List (Flight F × Phase F)) :
    heldBy name (xs ++ ys) = heldBy name xs ++ heldBy name ys :=
  List.filterMap_append

/-- A flight of this tool holds its admission, and one of another tool holds
nothing here. -/
theorem heldBy_singleton (name : String) (f : Flight F) (phase : Phase F) :
    heldBy name [(f, phase)] =
      (if f.tool.metadata.name = name then phase.admission? else none).toList := by
  rcases h : (if f.tool.metadata.name = name then phase.admission? else none) with _ | a <;>
    simp [heldBy, h]

/-- A dispatch taken out of the list takes its admission along. -/
theorem heldBy_eraseIdx {name : String} {xs : List (Flight F × Phase F)} {i : ℕ}
    {f : Flight F} {phase : Phase F} (hi : xs[i]? = some (f, phase)) :
    (heldBy name xs).Perm
      ((if f.tool.metadata.name = name then phase.admission? else none).toList ++
        heldBy name (xs.eraseIdx i)) := by
  obtain ⟨hlt, hget⟩ := List.getElem?_eq_some_iff.mp hi
  have hperm := (List.getElem_cons_eraseIdx_perm hlt).filterMap
    fun x => if x.1.tool.metadata.name = name then x.2.admission? else none
  rw [hget, ← List.singleton_append] at hperm
  rw [← heldBy_singleton, ← heldBy_append]
  exact hperm.symm

variable [PyFloat F] [UnicodeDb] {srv : AtlasServer F} {t u : System F} {e : Event F}

/-- An event that moves no dispatch is none for the breakers. -/
theorem breakers_of_not_moved (h : t.Step srv e u) (hm : t.moved srv e = none) :
    u.server.breakers = t.server.breakers := by
  cases e with
  | dispatch ctx env clock =>
      obtain rfl : t.arrive srv ctx env clock = u := Option.some.inj h
      rcases hgates : (gates srv ctx env clock).run t.server with ⟨exc | ⟨tool, args⟩, s⟩
      · simp only [arrive, hgates]
        exact (reliability_of_gates hgates).1
      · simp [moved, hgates] at hm
  | ran i outcome now =>
      obtain ⟨f, a, hi, -⟩ := step_ran h
      simp [moved, hi] at hm
  | woke i now =>
      obtain ⟨f, phase, next, hi, hnext, -⟩ := step_woke h
      simp [moved, hi, hnext] at hm
  | interrupt i timedOut now =>
      obtain ⟨f, phase, next, hi, hnext, -⟩ := step_interrupt h
      simp [moved, hi, hnext] at hm
  | invalidateKey key | invalidateTool tenant tool | invalidateTenant tenant
  | judge approvalId verdict approver now =>
      obtain rfl := Option.some.inj h
      rfl

/-- How a dispatch that is about to move has been admitted: one that arrives
has not been. -/
def heldBefore (t : System F) (m : Move F) : Option Admission :=
  m.place.bind fun i => t.inFlight[i]?.bind fun x => x.2.admission?

/-- A dispatch that moves is heard of at the reading of the event. -/
theorem heardOf_of_moved {m : Move F} (hm : t.moved srv e = some m) :
    ∃ (now : ℚ) (s : ServerState F), e.reading = some now ∧
      s.breakers = t.server.breakers ∧ HeardOf srv m.flight now s (t.heldBefore m) m.next := by
  rcases moved_cases hm with ⟨hplace, s, ⟨ctx, env, clock, tool, args, rfl, hgates, hf⟩, hnext⟩ |
    ⟨i, phase, hplace, hi, hgoes⟩
  · refine ⟨clock.now, s, rfl, (reliability_of_gates hgates).1, ?_⟩
    have hnow : m.flight.clock = clock := by rw [hf]; rfl
    rw [hnext, hnow, heldBefore, hplace]
    exact heardOf_runObserved
  · have hbefore : t.heldBefore m = phase.admission? := by simp [heldBefore, hplace, hi]
    rw [hbefore]
    rcases hgoes with ⟨a, outcome, now, rfl, rfl, hnext⟩ | ⟨now, rfl, hnext⟩ |
      ⟨timedOut, now, rfl, hnext⟩
    · refine ⟨now, t.server, rfl, rfl, ?_⟩
      rw [hnext]
      exact heardOf_afterRun a outcome
    · exact ⟨now, t.server, rfl, rfl, heardOf_afterSleep hnext⟩
    · exact ⟨now, t.server, rfl, rfl, heardOf_afterInterrupt hnext⟩

/-- The dispatch that moves is taken out with its admission, and comes back
with that of where it waits next. -/
theorem heldBy_of_moved (name : String) (h : t.Step srv e u) {m : Move F}
    (hm : t.moved srv e = some m) :
    ∃ rest, (heldBy name t.inFlight).Perm
        ((if m.flight.tool.metadata.name = name then t.heldBefore m else none).toList ++ rest) ∧
      heldBy name u.inFlight = rest ++
        (if m.flight.tool.metadata.name = name then
          m.next.1.phase?.bind Phase.admission? else none).toList := by
  refine ⟨heldBy name (leftBy t.inFlight m.place), ?_, ?_⟩
  · rcases moved_cases hm with ⟨hplace, -⟩ | ⟨i, phase, hplace, hi, -⟩
    · simp [heldBefore, hplace, leftBy]
    · have hbefore : t.heldBefore m = phase.admission? := by simp [heldBefore, hplace, hi]
      rw [hbefore, hplace]
      exact heldBy_eraseIdx hi
  · rw [(step_of_moved h hm).1, heldBy_append]
    congr 1
    cases m.next.1.phase? with
    | none => simp [heldBy]
    | some phase => exact heldBy_singleton name m.flight phase

/-- **The breaker of a tool is moved along by the server.**  It stays as it
is, or hears of a dispatch of its tool at the time of the event. -/
theorem breaker_step {name : String} {t u : System F × ℚ} {b : Reliability.System}
    (hb : HasBreaker srv name t b) (h : Clocked (Step srv) Event.reading t e u) :
    ∃ (ms : List (Reliability.Event F (ToolResult F))) (c : Reliability.System),
      Run Reliability.System.Step b ms c ∧ HasBreaker srv name u c ∧
      (c.breaker = b.breaker ∨ c.clock = u.2 ∧
        ∃ before after, Hears F u.2 b.breaker before c.breaker after) := by
  obtain ⟨hstep, hle, hclock⟩ := h
  have hlater := hb.clock.trans hle
  cases hm : t.1.moved srv e with
  | none =>
      obtain ⟨hflight, -⟩ := step_of_not_moved hstep hm
      refine ⟨[], b, .nil, ⟨?_, ?_, hlater⟩, Or.inl rfl⟩
      · rw [hb.breaker]
        exact (breakerFor_congr (breakers_of_not_moved hstep hm) name).symm
      · rw [hflight]
        exact hb.held
  | some m =>
      obtain ⟨now, s, hreading, hsame, hheard⟩ := heardOf_of_moved hm
      obtain ⟨rest, hbefore, hafter⟩ := heldBy_of_moved name hstep hm
      obtain rfl : u.2 = now := by rw [hclock, hreading]; rfl
      by_cases hname : m.flight.tool.metadata.name = name
      · rw [if_pos hname] at hbefore hafter
        have hears := hheard.own
        rw [hname, breakerFor_congr hsame, ← hb.breaker] at hears
        obtain ⟨ms, c, hrun, hbreaker, hrest, hc, hheard⟩ :=
          run_of_hears hears hlater (hb.held.trans hbefore)
        refine ⟨ms, c, hrun, ⟨?_, ?_, hc⟩, ?_⟩
        · rw [hbreaker, server_of_moved hstep hm]
        · rw [hafter]
          exact hrest.trans List.perm_append_comm
        · rw [hbreaker]
          exact hheard.imp_right fun hnow => ⟨hnow, _, _, hears⟩
      · rw [if_neg hname, Option.toList_none] at hbefore hafter
        refine ⟨[], b, .nil, ⟨?_, ?_, hlater⟩, Or.inl rfl⟩
        · rw [server_of_moved hstep hm, hheard.others name (Ne.symm hname), hb.breaker]
          exact (breakerFor_congr hsame name).symm
        · rw [hafter, List.append_nil]
          exact hb.held.trans hbefore

/-- So it is a component of the server. -/
theorem matched_breaker (srv : AtlasServer F) (name : String) :
    Matched (Clocked (Step srv) Event.reading)
      (Reliability.System.Step (F := F) (α := ToolResult F)) (HasBreaker srv name) := by
  intro t e u b hb hstep
  obtain ⟨ms, c, hrun, hc, -⟩ := breaker_step hb hstep
  exact ⟨ms, c, hrun, hc⟩

/-- The breaker that a new server makes for a tool. -/
def newBreaker (srv : AtlasServer F) (name : String) (clock : ℚ) : Reliability.System :=
  .start name srv.settings.circuitBreakerFailureThreshold
    srv.settings.circuitBreakerRecoverySeconds 60 clock

omit [PyFloat F] [UnicodeDb] in
/-- At the start every tool has a new breaker, of which nothing is under
way. -/
theorem hasBreaker_start (srv : AtlasServer F) (name : String) (clock : ℚ) :
    HasBreaker srv name (start srv, clock) (newBreaker srv name clock) :=
  ⟨rfl, .refl _, le_refl _⟩

/-- **Dispatches run breakers.**  In every run of a new server, with any tools
and any interleaving, and for every tool: there is a run of a new breaker of
the tool that ends with the breaker as the server has it, and with the calls
in flight that dispatches of the tool make, each admitted as it was. -/
theorem breaker_of_run (srv : AtlasServer F) (name : String) (clock : ℚ)
    (events : List (Event F)) (t : System F × ℚ)
    (hrun : Run (Clocked (Step srv) Event.reading) (start srv, clock) events t) :
    ∃ (ms : List (Reliability.Event F (ToolResult F))) (b : Reliability.System),
      Run Reliability.System.Step (newBreaker srv name clock) ms b ∧
      b.breaker = breakerFor srv t.1.server name ∧
      (b.inFlight.map Reliability.Flight.admission).Perm (heldBy name t.1.inFlight) ∧
      b.clock ≤ t.2 := by
  obtain ⟨ms, b, hms, hb⟩ := (matched_breaker srv name).run hrun (hasBreaker_start srv name clock)
  exact ⟨ms, b, hms, hb.breaker, hb.held, hb.clock⟩

section Recovery

omit [PyFloat F] [UnicodeDb] in
/-- What opens a breaker starts its recovery time. -/
theorem openSince_of_hears {b c : Reliability.System} {now : ℚ} {before after : Option Admission}
    (h : Hears F now b.breaker before c.breaker after) (hbefore : b.breaker.state ≠ .opened)
    (hopened : c.breaker.state = .opened) :
    c.OpenSince now b.breaker.recoverySeconds := by
  have hsince : c.breaker.recoverySeconds = b.breaker.recoverySeconds ∧
      c.breaker.openedAt = now := by
    generalize c.breaker = b' at h hopened
    cases h with
    | nothing => exact absurd hopened hbefore
    | arrival admission _ henter =>
        have hopens := (b.breaker.enter_opens_nothing now).2.2.1
        rw [henter] at hopens
        exact absurd (hopens hopened) hbefore
    | ending admission outcome =>
        refine ⟨Reliability.System.finish_recoverySeconds _ _ _ _, ?_⟩
        have hfails := (CircuitBreaker.finish_opens_iff hbefore admission outcome now).mp hopened
        rcases b.breaker.finish_cases admission outcome now with
          ⟨-, -, heq⟩ | ⟨-, hnot, -⟩ | ⟨-, hret, -, -⟩ | ⟨hnot, -, -⟩
        · exact congrArg CircuitBreaker.openedAt heq
        · exact absurd hfails.2 hnot
        · exact absurd hret (not_returns_of_fails hfails.1)
        · exact absurd hfails.1 hnot
    | unattempted admission b₁ henter =>
        have hshut : b₁.state ≠ .opened := by
          intro hb₁
          have hopens := (b.breaker.enter_opens_nothing now).2.2.1
          rw [henter] at hopens
          exact hbefore (hopens hb₁)
        have hfails := (CircuitBreaker.finish_opens_iff hshut admission _ now).mp hopened
        exact absurd hfails.1 (by simp [Fails, Transient])
  exact ⟨hsince.1, fun _ => ⟨hopened, hsince.2.ge⟩⟩

omit [PyFloat F] [UnicodeDb] in
/-- A dispatch that an open breaker has admitted was admitted before. -/
theorem held_of_shut {b b' : CircuitBreaker} {now : ℚ} {before : Option Admission}
    {admission : Admission} (h : Hears F now b before b' (some admission))
    (hopened : b.state = .opened) (hearly : now < b.openedAt + b.recoverySeconds) :
    before = some admission := by
  cases h with
  | nothing => rfl
  | arrival _ _ henter =>
      rw [Reliability.System.enter_of_shut hopened hearly] at henter
      cases henter

/-- The call of the dispatch is under way: the breaker has admitted it, and has
not heard of its outcome yet. -/
def UnderWay (t : System F) (f : Flight F) : Prop :=
  ∃ phase admission, (f, phase) ∈ t.inFlight ∧ phase.admission? = some admission

omit [PyFloat F] [UnicodeDb] in
/-- To run the tool is to be under way. -/
theorem starts_eq_zero {next : Progress F} (h : next.phase?.bind Phase.admission? = none) :
    next.starts = 0 := by
  rcases next with phase | result
  · cases phase with
    | running a => cases h
    | _ => rfl
  · rfl

/-- A flight whose attempt is concluded was under way before. -/
theorem underWay_of_heldBefore {m : Move F} (hm : t.moved srv e = some m) {admission : Admission}
    (h : t.heldBefore m = some admission) : t.UnderWay m.flight := by
  rcases moved_cases hm with ⟨hplace, -⟩ | ⟨i, phase, hplace, hi, -⟩
  · simp [heldBefore, hplace] at h
  · have hphase : phase.admission? = some admission := by
      simpa [heldBefore, hplace, hi] using h
    exact ⟨phase, admission, List.mem_of_getElem? hi, hphase⟩

/-- While the breaker of the tool is open, no other dispatches of the tool
come to be under way, and no others run it. -/
theorem underWay_step {name : String} {t u : System F × ℚ} {b : Reliability.System}
    (hb : HasBreaker srv name t b) (h : Clocked (Step srv) Event.reading t e u)
    (hopened : b.breaker.state = .opened)
    (hearly : u.2 < b.breaker.openedAt + b.breaker.recoverySeconds) :
    (∀ f, f.tool.metadata.name = name → u.1.UnderWay f → t.1.UnderWay f) ∧
      ∃ more, u.1.started = t.1.started ++ more ∧
        ∀ f ∈ more, f.tool.metadata.name = name → t.1.UnderWay f := by
  obtain ⟨hstep, -, hclock⟩ := h
  cases hm : t.1.moved srv e with
  | none =>
      obtain ⟨hflight, hstarted⟩ := step_of_not_moved hstep hm
      refine ⟨fun f _ hf => ?_, [], by simp [hstarted], by simp⟩
      rwa [UnderWay, hflight] at hf
  | some m =>
      obtain ⟨now, s, hreading, hsame, hheard⟩ := heardOf_of_moved hm
      obtain ⟨hflight, hstarted⟩ := step_of_moved hstep hm
      obtain rfl : u.2 = now := by rw [hclock, hreading]; rfl
      -- what moves on and is under way, was so before
      have hown : ∀ admission, m.flight.tool.metadata.name = name →
          m.next.1.phase?.bind Phase.admission? = some admission → t.1.UnderWay m.flight := by
        intro admission hname hafter
        have hears := hheard.own
        rw [hafter, hname, breakerFor_congr hsame, ← hb.breaker] at hears
        exact underWay_of_heldBefore hm (held_of_shut hears hopened hearly)
      refine ⟨fun f hname hf => ?_, _, hstarted, fun f hf hname => ?_⟩
      · obtain ⟨phase, admission, hmem, hphase⟩ := hf
        rw [hflight] at hmem
        rcases List.mem_append.mp hmem with hmem | hmem
        · exact ⟨phase, admission, Ledger.mem_of_mem_leftBy hmem, hphase⟩
        · obtain ⟨phase', hnext, hsame⟩ : ∃ phase', m.next.1.phase? = some phase' ∧
              (m.flight, phase') = (f, phase) := by
            simpa using hmem
          obtain ⟨rfl, rfl⟩ := Prod.mk.inj hsame
          exact hown admission hname (by rw [hnext]; exact hphase)
      · obtain ⟨hruns, rfl⟩ := List.mem_replicate.mp hf
        cases hafter : m.next.1.phase?.bind Phase.admission? with
        | none => exact absurd (starts_eq_zero hafter) hruns
        | some admission => exact hown admission hname hafter

omit [PyFloat F] [UnicodeDb] in
/-- The recovery time of a breaker is that of the settings. -/
theorem recoverySeconds_of_run {name : String} {clock : ℚ} {b : Reliability.System}
    {ms : List (Reliability.Event F (ToolResult F))}
    (hrun : Run Reliability.System.Step (newBreaker srv name clock) ms b) :
    b.breaker.recoverySeconds = srv.settings.circuitBreakerRecoverySeconds := by
  apply hrun.invariant
    (I := fun b => b.breaker.recoverySeconds = srv.settings.circuitBreakerRecoverySeconds) rfl
  intro b m c hb hstep
  rcases Reliability.System.step_cases hstep with
    ⟨now, -, -, rfl⟩ | ⟨i, flight, outcome, now, -, -, -, rfl⟩
  · rw [Reliability.System.breaker_arrive, Reliability.System.enter_recoverySeconds, hb]
  · exact (Reliability.System.finish_recoverySeconds _ _ _ _).trans hb

omit [PyFloat F] [UnicodeDb] in
/-- A breaker that is open until its recovery time is over stays so. -/
theorem openSince_of_run {opening : ℚ} {recoverySeconds : ℤ} {b c : Reliability.System}
    {ms : List (Reliability.Event F (ToolResult F))}
    (hrun : Run Reliability.System.Step b ms c) (hopen : b.OpenSince opening recoverySeconds)
    (hclock : opening ≤ b.clock) : c.OpenSince opening recoverySeconds ∧ opening ≤ c.clock := by
  apply hrun.invariant (I := fun c => c.OpenSince opening recoverySeconds ∧ opening ≤ c.clock)
    ⟨hopen, hclock⟩
  intro b m c hb hstep
  obtain ⟨hle, hnow⟩ := Reliability.System.clock_of_step hstep
  exact ⟨Reliability.System.openSince_step hb.1 hb.2 hstep, hnow ▸ hb.2.trans hle⟩

/-- **An open breaker keeps its tool from being started.**  When an event of a
run opens the breaker of a tool, then in every continuation that ends before
the recovery time is over, the only dispatches that run the tool are those
whose call was under way when it opened. -/
theorem started_while_open {name : String} {clock : ℚ} {before events : List (Event F)}
    {s t u : System F × ℚ}
    (hreached : Run (Clocked (Step srv) Event.reading) (start srv, clock) before s)
    (hopening : Clocked (Step srv) Event.reading s e t)
    (hclosed : (breakerFor srv s.1.server name).state ≠ .opened)
    (hopened : (breakerFor srv t.1.server name).state = .opened)
    (hrun : Run (Clocked (Step srv) Event.reading) t events u)
    (hearly : u.2 < t.2 + srv.settings.circuitBreakerRecoverySeconds) :
    ∃ more, u.1.started = t.1.started ++ more ∧
      ∀ f ∈ more, f.tool.metadata.name = name → t.1.UnderWay f := by
  obtain ⟨ms, b, hms, hb⟩ :=
    (matched_breaker srv name).run hreached (hasBreaker_start srv name clock)
  have hrecovery := recoverySeconds_of_run hms
  obtain ⟨-, c, -, hc, hsame | ⟨hnow, before, after, hears⟩⟩ := breaker_step hb hopening
  · rw [← hb.breaker] at hclosed
    rw [← hc.breaker, hsame] at hopened
    exact absurd hopened hclosed
  have hsince : c.OpenSince t.2 srv.settings.circuitBreakerRecoverySeconds := by
    rw [← hrecovery]
    exact openSince_of_hears hears (hb.breaker ▸ hclosed) (hc.breaker ▸ hopened)
  -- the breaker stays open, and what is under way was so when it opened
  have hinv : (∃ c, HasBreaker srv name u c ∧
        c.OpenSince t.2 srv.settings.circuitBreakerRecoverySeconds ∧ t.2 ≤ c.clock) ∧
      (∀ f, f.tool.metadata.name = name → u.1.UnderWay f → t.1.UnderWay f) ∧
      ∃ more, u.1.started = t.1.started ++ more ∧
        ∀ f ∈ more, f.tool.metadata.name = name → t.1.UnderWay f := by
    induction hrun with
    | nil => exact ⟨⟨c, hc, hsince, hnow.ge⟩, fun _ _ hf => hf, [], by simp, by simp⟩
    | snoc _ hlast ih =>
        have hsooner := lt_of_le_of_lt hlast.2.1 hearly
        obtain ⟨⟨d, hd, hdsince, hdclock⟩, hunder, more, hmore, hmoreUnder⟩ := ih hsooner
        obtain ⟨hshut, hopening⟩ := hdsince.shut (lt_of_le_of_lt hd.clock hsooner)
        obtain ⟨ms, d', hms, hd', -⟩ := breaker_step hd hlast
        obtain ⟨hunder', more', hmore', hmoreUnder'⟩ := underWay_step hd hlast hshut (by
          rw [hdsince.window]
          linarith)
        refine ⟨⟨d', hd', openSince_of_run hms hdsince hdclock⟩,
          fun f hname hf => hunder f hname (hunder' f hname hf),
          more ++ more', by rw [hmore', hmore, List.append_assoc], fun f hf hname => ?_⟩
        rcases List.mem_append.mp hf with hf | hf
        · exact hmoreUnder f hf hname
        · exact hunder f hname (hmoreUnder' f hf hname)
  exact hinv.2.2

omit [PyFloat F] [UnicodeDb] in
/-- Without calls under way the breaker has none in flight. -/
theorem heldBy_eq_nil {name : String} {t : System F}
    (h : ∀ f, f.tool.metadata.name = name → ¬ t.UnderWay f) : heldBy name t.inFlight = [] := by
  apply List.filterMap_eq_nil_iff.mpr
  intro x hx
  split
  next hname =>
      cases hadmission : x.2.admission? with
      | none => rfl
      | some admission => exact absurd ⟨x.2, admission, hx, hadmission⟩ (h x.1 hname)
  next => rfl

/-- **A tool is not kept shut.**  When in a run no call of the tool is under
way, and the recovery time of its breaker is over if it is open, then the next
dispatch of the tool whose task starts runs it. -/
theorem started_when_idle {name : String} {clock now : ℚ} {events : List (Event F)}
    {t : System F × ℚ} {u : System F} {i : ℕ} {f : Flight F} {c : Budgeted}
    (hrun : Run (Clocked (Step srv) Event.reading) (start srv, clock) events t)
    (hidle : ∀ f, f.tool.metadata.name = name → ¬ t.1.UnderWay f)
    (hover : (breakerFor srv t.1.server name).state = .opened →
      (breakerFor srv t.1.server name).openedAt + srv.settings.circuitBreakerRecoverySeconds
        ≤ now)
    (hname : f.tool.metadata.name = name)
    (hattempts : f.tool.metadata.destructive = true ∨ 0 < srv.settings.retryMaxAttempts)
    (hwaits : t.1.inFlight[i]? = some (f, .starting c)) (hstep : t.1.Step srv (.woke i now) u) :
    u.started = t.1.started ++ [f] := by
  obtain ⟨ms, b, hms, hb⟩ := (matched_breaker srv name).run hrun (hasBreaker_start srv name clock)
  have hflagged : b.Flagged :=
    hms.invariant (I := Reliability.System.Flagged) (fun hflag => by cases hflag)
      fun _ _ _ hb hstep => Reliability.System.flagged_step hb hstep
  have hnone : b.inFlight = [] := by
    have hheld := hb.held
    rw [heldBy_eq_nil hidle] at hheld
    exact List.map_eq_nil_iff.mp hheld.eq_nil
  have hadmitted : ∃ admission, (b.breaker.enter now).1 = some admission := by
    rcases b.breaker.enter_cases now with ⟨-, heq⟩ | ⟨-, heq⟩ | ⟨⟨hopened, hnot⟩ | ⟨-, hflag⟩, -⟩
    · exact ⟨_, by rw [heq]⟩
    · exact ⟨_, by rw [heq]⟩
    · have hrecovery := recoverySeconds_of_run hms
      rw [← hb.breaker, ← hrecovery] at hover
      have hpassed := hover hopened
      exact absurd ⟨hopened, by linarith⟩ hnot
    · have hprobes := hflagged hflag
      simp [Reliability.System.probes, hnone] at hprobes
  obtain ⟨admission, hadmission⟩ := hadmitted
  obtain ⟨f', phase, next, hi, hnext, rfl⟩ := step_woke hstep
  obtain ⟨rfl, rfl⟩ : f = f' ∧ .starting c = phase := by
    simpa using hwaits.symm.trans hi
  obtain rfl := Option.some.inj hnext
  rw [started_advance]
  congr 1
  rw [hb.breaker, ← hname] at hadmission
  obtain ⟨admission', b', henter, ⟨rfl, -⟩ | ⟨admitted, -, ⟨hidempotent, hattempt, -⟩ | hstart⟩⟩ :=
    startCall_cases srv t.1.server f c now
  · rw [henter] at hadmission
    cases hadmission
  · rcases hattempts with hdestructive | hpositive
    · rw [hdestructive] at hidempotent
      cases hidempotent
    · omega
  · rw [hstart]
    rfl

end Recovery

end System

/-- A server that opens a breaker at the first failure. -/
def frailServer : AtlasServer WholeFloat :=
  { pingServer with settings := { circuitBreakerFailureThreshold := 1, retryMaxAttempts := 1 } }

/-- A ping that arrives at some time. -/
def pingAt (now : ℚ) : Event WholeFloat :=
  .dispatch pingContext (pingContext.buildEnvelope "server.ping" []) ⟨now, 0, ""⟩

/-- A ping that starts, -/
def pingStarts : List (Event WholeFloat) := [pingAt 0, .woke 0 0]

/-- and fails. -/
def pingFailing : Event WholeFloat :=
  .ran 0 (.error (.tool { cls := .upstreamError, code := "down", retryable := true })) 1

/-- A run of pings that fail: the breaker of the server has opened once, as
the breaker by itself does in the run that corresponds to it. -/
theorem ping_runs_breaker : ∃ t,
    Run (Clocked (System.Step frailServer) Event.reading) (System.start frailServer, 0)
      (pingStarts ++ [pingFailing]) t ∧
    (breakerFor frailServer t.1.server "server.ping").trips = 1 ∧
    ∃ (ms : List (Reliability.Event WholeFloat (ToolResult WholeFloat)))
      (b : Reliability.System),
      Run Reliability.System.Step (System.newBreaker frailServer "server.ping" 0) ms b ∧
      b.breaker = breakerFor frailServer t.1.server "server.ping" ∧
      (b.inFlight.map Reliability.Flight.admission).Perm
        (System.heldBy "server.ping" t.1.inFlight) ∧ b.clock ≤ t.2 := by
  obtain ⟨t, ht, htrips⟩ : ∃ t ∈ exec (clockedStep (System.step frailServer) Event.reading)
      (System.start frailServer, 0) (pingStarts ++ [pingFailing]),
      (breakerFor frailServer t.1.server "server.ping").trips = 1 := by decide +kernel
  have hrun := Run.of_exec_clocked ht
  exact ⟨t, hrun, htrips, System.breaker_of_run frailServer "server.ping" 0 _ t hrun⟩

/-- The next ping, while the breaker is open, starts nothing. -/
theorem next_ping_not_started : ∃ s t u,
    Run (Clocked (System.Step frailServer) Event.reading) (System.start frailServer, 0)
      pingStarts s ∧
    Clocked (System.Step frailServer) Event.reading s pingFailing t ∧
    Run (Clocked (System.Step frailServer) Event.reading) t [.woke 0 1, pingAt 2, .woke 0 2] u ∧
    u.1.inFlight.length = 1 ∧
    ∃ more, u.1.started = t.1.started ++ more ∧
      ∀ f ∈ more, f.tool.metadata.name = "server.ping" → t.1.UnderWay f := by
  obtain ⟨s, hs, t, ht, u, hu, hclosed, hopened, hearly, hwaits⟩ :
      ∃ s ∈ exec (clockedStep (System.step frailServer) Event.reading)
          (System.start frailServer, 0) pingStarts,
        ∃ t ∈ exec (clockedStep (System.step frailServer) Event.reading) s [pingFailing],
          ∃ u ∈ exec (clockedStep (System.step frailServer) Event.reading) t
              [.woke 0 1, pingAt 2, .woke 0 2],
            (breakerFor frailServer s.1.server "server.ping").state ≠ .opened ∧
            (breakerFor frailServer t.1.server "server.ping").state = .opened ∧
            u.2 < t.2 + frailServer.settings.circuitBreakerRecoverySeconds ∧
            u.1.inFlight.length = 1 := by
    decide +kernel
  have hopening : Clocked (System.Step frailServer) Event.reading s pingFailing t :=
    run_singleton.mp (Run.of_exec_clocked ht)
  exact ⟨s, t, u, Run.of_exec_clocked hs, hopening, Run.of_exec_clocked hu, hwaits,
    System.started_while_open (Run.of_exec_clocked hs) hopening hclosed hopened
      (Run.of_exec_clocked hu) hearly⟩

/-- When the recovery time is over, the next one starts. -/
theorem ping_started_again : ∃ t u f,
    Run (Clocked (System.Step frailServer) Event.reading) (System.start frailServer, 0)
      (pingStarts ++ [pingFailing, .woke 0 1, pingAt 31]) t ∧
    t.1.Step frailServer (.woke 0 31) u ∧ t.1.started.length = 1 ∧
    u.started = t.1.started ++ [f] := by
  obtain ⟨t, ht, x, hx, u, hu, hname, hphase, hidle, hover, hstarted⟩ :
      ∃ t ∈ exec (clockedStep (System.step frailServer) Event.reading)
          (System.start frailServer, 0) (pingStarts ++ [pingFailing, .woke 0 1, pingAt 31]),
        ∃ x ∈ t.1.inFlight[0]?, ∃ u ∈ t.1.step frailServer (.woke 0 31),
          x.1.tool.metadata.name = "server.ping" ∧
          x.2.starting?.isSome = true ∧
          (t.1.inFlight.map fun x => x.2.admission?.isSome) = [false] ∧
          (breakerFor frailServer t.1.server "server.ping").openedAt +
            frailServer.settings.circuitBreakerRecoverySeconds ≤ 31 ∧
          t.1.started.length = 1 := by
    decide +kernel
  obtain ⟨f, phase⟩ := x
  have hnone : ∀ g, g.tool.metadata.name = "server.ping" → ¬ t.1.UnderWay g := by
    intro g _ hg
    obtain ⟨phase', admission, hmem, hadmission⟩ := hg
    have hsome := List.mem_map_of_mem (f := fun x => x.2.admission?.isSome) hmem
    rw [hidle, hadmission] at hsome
    simp at hsome
  cases phase with
  | starting c =>
      exact ⟨t, u, f, Run.of_exec_clocked ht, hu, hstarted,
        System.started_when_idle (Run.of_exec_clocked ht) hnone (fun _ => hover) hname
          (Or.inr (by decide)) hx hu⟩
  | _ => cases hphase

end Server
