import AtlasMcp.DispatchCounts

/-!
# What a dispatch does to the latencies

`call_with_budget` takes the timeout of a call from the latencies when it starts, keeps
both with the call, and adds to the latencies when it is resumed.  Nothing else in a
dispatch reads or writes them (`latency_of_moved`), and nothing outside a dispatch does
(`server_step`).
-/

namespace Server

open PyJson PyText Errors Tools Auth Governance RateLimit Reliability Cache FallibleState
open GuardedRuns

variable {F : Type}

/-- The call that a dispatch makes under a timeout, while it does. -/
def Phase.budgeted? : Phase F → Option Budgeted
  | .polling _ => none
  | .starting c | .ending c _ => some c
  | .running a | .backoff a => some a.toBudgeted

/-- The call that begins with a move. -/
def Progress.begins : Progress F → Option Budgeted
  | .suspended (.starting c) => some c
  | _ => none

/-- The latencies stay, and a call that begins gets the timeout they give.  This
is all that most parts of the pipeline have to do with them. -/
structure ReadsLatency (s : ServerState F) (f : Flight F) (now : ℚ)
    (next : Progress F × ServerState F) : Prop where
  tracker : next.2.tracker = s.tracker
  begins : ∀ c, next.1.begins = some c →
    c.started = now ∧ c.timeoutS = s.tracker.timeoutFor f.tool.metadata.name

section Pieces

variable [PyFloat F] {srv : AtlasServer F} {s s' : ServerState F} {f : Flight F} {now : ℚ}

omit [PyFloat F] in
/-- What depends on the latencies only is the same where they are the same. -/
theorem ReadsLatency.congr {next : Progress F × ServerState F}
    (h : ReadsLatency s' f now next) (hs : s'.tracker = s.tracker) :
    ReadsLatency s f now next :=
  ⟨h.tracker.trans hs, fun c hc => hs ▸ h.begins c hc⟩

omit [PyFloat F] in
/-- A call that begins gets the timeout that the latencies give it. -/
theorem readsLatency_execute {locked : Bool} :
    ReadsLatency s f now (execute srv s f locked now) := by
  refine ⟨rfl, fun c hc => ?_⟩
  obtain rfl := Option.some.inj hc
  exact ⟨rfl, rfl⟩

omit [PyFloat F] in
theorem readsLatency_conclude {result : Except (Exc F) (Value F)} :
    ReadsLatency s f now (conclude srv s f result) :=
  ⟨rfl, fun c hc => by cases hc⟩

/-- Reading the cache leaves the latencies, if what follows a miss does. -/
theorem readsLatency_readCache {key : String}
    {miss : ServerState F → Progress F × ServerState F}
    (hmiss : ∀ s', s'.tracker = s.tracker → ReadsLatency s f now (miss s')) :
    ReadsLatency s f now (readCache srv s f key now miss) := by
  rcases hread : s.cache.get key now with ⟨exc | v, cache⟩
  · simp only [readCache, hread]
    exact readsLatency_conclude.congr rfl
  · cases v <;> simp only [readCache, hread]
    case none => exact hmiss _ rfl
    all_goals exact readsLatency_conclude.congr rfl

/-- A dispatch that comes through the gates reads the latencies as they
are. -/
theorem readsLatency_runObserved : ReadsLatency s f now (runObserved srv s f now) := by
  unfold runObserved
  split
  · exact readsLatency_execute
  · apply readsLatency_readCache
    intro s' hs'
    simp only
    split
    · exact readsLatency_execute.congr hs'
    · exact ⟨hs', fun c hc => by cases hc⟩

omit [PyFloat F] in
/-- An attempt that ends begins no call, and records nothing yet. -/
theorem readsLatency_finishAttempt {a : Attempt}
    {outcome result : Except (Exc F) (ToolResult F)} :
    ReadsLatency s f now (finishAttempt srv s f a outcome result now) :=
  ⟨rfl, fun c hc => by cases hc⟩

omit [PyFloat F] in
/-- The same for a tool that has ended, whether its attempt is the last one or
is followed by another one. -/
theorem readsLatency_afterRun {a : Attempt} {outcome : Except (Exc F) (ToolResult F)} :
    ReadsLatency s f now (afterRun srv s f a outcome now) := by
  unfold afterRun
  simp only
  split
  · exact ⟨rfl, fun c hc => by cases hc⟩
  · exact readsLatency_finishAttempt

variable [UnicodeDb]

omit [PyFloat F] in
theorem readsLatency_startCall {c : Budgeted} :
    ReadsLatency s f now (startCall srv s f c now) := by
  obtain ⟨admission, b, -, ⟨-, hstart⟩ | ⟨admitted, -, ⟨-, -, hstart⟩ | hstart⟩⟩ :=
    startCall_cases srv s f c now <;> rw [hstart]
  · exact ⟨rfl, fun c hc => by cases hc⟩
  · exact readsLatency_finishAttempt.congr rfl
  · exact ⟨rfl, fun c hc => by cases hc⟩

omit [PyFloat F] in
theorem readsLatency_afterInterrupt {timedOut : Bool} {phase : Phase F}
    {next : Progress F × ServerState F}
    (h : afterInterrupt srv s f timedOut now phase = some next) :
    ReadsLatency s f now next := by
  cases phase with
  | ending c result => simp [afterInterrupt] at h
  | starting c =>
      obtain rfl := Option.some.inj h
      exact ⟨rfl, fun c hc => by cases hc⟩
  | running a =>
      obtain rfl := Option.some.inj h
      exact readsLatency_finishAttempt
  | backoff a =>
      obtain rfl := Option.some.inj h
      exact readsLatency_finishAttempt
  | polling waits =>
      cases timedOut with
      | true => simp [afterInterrupt] at h
      | false =>
          obtain rfl : conclude srv s f (.error .cancelled) = next := by
            simpa [afterInterrupt] using h
          exact readsLatency_conclude

/-- A dispatch that wakes up leaves them, unless it is with a result: then its
duration is recorded. -/
theorem readsLatency_afterSleep {phase : Phase F} {next : Progress F × ServerState F}
    (h : afterSleep srv s f now phase = some next)
    (hphase : ∀ c result, phase ≠ .ending c result) : ReadsLatency s f now next := by
  cases phase with
  | running a => simp [afterSleep] at h
  | ending c result => exact absurd rfl (hphase c result)
  | starting c =>
      obtain rfl := Option.some.inj h
      exact readsLatency_startCall
  | backoff a =>
      obtain rfl := Option.some.inj h
      exact ⟨rfl, fun c hc => by cases hc⟩
  | polling waits =>
      obtain ⟨key, hkey, rfl⟩ := Option.map_eq_some_iff.mp h
      apply readsLatency_readCache
      intro s' hs'
      split
      · exact ⟨hs', fun c hc => by cases hc⟩
      · exact readsLatency_execute.congr hs'

omit [UnicodeDb] in
/-- A call that is resumed adds its duration. -/
theorem tracker_resume {c : Budgeted} {result : Except (Exc F) (ToolResult F)} :
    (resume srv s f c result now).2.tracker =
      s.tracker.record f.tool.metadata.name (now - c.started) := by
  unfold resume settle
  split <;> rfl

end Pieces

namespace System

variable [PyFloat F] [UnicodeDb] {srv : AtlasServer F} {t u : System F} {e : Event F}

/-- An event leaves the server as the dispatch that moves does; if none does,
the breakers and the latencies stay as they are. -/
theorem server_step (h : t.Step srv e u) :
    (∃ m, t.moved srv e = some m ∧ u.server = m.next.2) ∨
    (t.moved srv e = none ∧ u.server.breakers = t.server.breakers ∧
      u.server.tracker = t.server.tracker) := by
  cases hm : t.moved srv e with
  | some m => exact Or.inl ⟨m, rfl, server_of_moved h hm⟩
  | none =>
      refine Or.inr ⟨rfl, ?_⟩
      cases e with
      | dispatch ctx env clock =>
          obtain rfl : t.arrive srv ctx env clock = u := Option.some.inj h
          rcases hgates : (gates srv ctx env clock).run t.server with ⟨exc | ⟨tool, args⟩, s⟩
          · simp only [arrive, hgates]
            exact reliability_of_gates hgates
          · simp [moved, hgates] at hm
      | ran i outcome now =>
          obtain ⟨f, a, hi, -⟩ := step_ran h
          simp [moved, hi] at hm
      | woke i now =>
          obtain ⟨f, phase, next, hi, hnext, -⟩ := step_woke h
          simp [moved, hi, hnext] at hm
      | interrupt i timedOut now =>
          obtain ⟨f, phase, next, hi, hnext, -⟩ := step_interrupt h
          simp [moved, hi, hnext] at hm
      | _ =>
          obtain rfl := Option.some.inj h
          exact ⟨rfl, rfl⟩

/-- The event resumes the dispatch at place `i` after its call `c` ended.  This
is where the duration of the call is recorded. -/
def Resumes (t : System F) (e : Event F) (i : ℕ) (f : Flight F) (c : Budgeted)
    (result : Except (Exc F) (ToolResult F)) (now : ℚ) : Prop :=
  e = .woke i now ∧ t.inFlight[i]? = some (f, .ending c result)

/-- Where nothing moves, nothing goes on with a result. -/
theorem not_resumes_of_not_moved (hnone : t.moved srv e = none) (i : ℕ) (f : Flight F)
    (c : Budgeted) (result : Except (Exc F) (ToolResult F)) (now : ℚ) :
    ¬ t.Resumes e i f c result now := by
  intro hresumes
  obtain ⟨rfl, hi⟩ := hresumes
  rw [moved_of_woke hi rfl] at hnone
  cases hnone

/-- **Who reads and who writes.**  A dispatch that moves leaves the latencies
as they are, unless it is resumed: then it adds the duration of its call, and
ends. -/
theorem latency_of_moved {m : Move F} (hm : t.moved srv e = some m) :
    ((∀ i f c result now, ¬ t.Resumes e i f c result now) ∧
      ∃ now, ReadsLatency t.server m.flight now m.next) ∨
    ∃ i c result now, t.Resumes e i m.flight c result now ∧ m.place = some i ∧
      m.next.2.tracker =
        t.server.tracker.record m.flight.tool.metadata.name (now - c.started) ∧
      ∃ r, m.next.1 = .ended r := by
  rcases moved_cases hm with ⟨-, s, ⟨ctx, env, clock, tool, args, rfl, hgates, hf⟩, hnext⟩ |
    ⟨i, phase, hplace, hi, hgoes⟩
  · left
    refine ⟨fun i f c result now h => (by cases h.1), m.flight.clock.now, ?_⟩
    rw [hnext]
    exact readsLatency_runObserved.congr (reliability_of_gates hgates).2
  · rcases hgoes with ⟨a, outcome, now, rfl, rfl, hnext⟩ | ⟨now, rfl, hnext⟩ |
      ⟨timedOut, now, rfl, hnext⟩
    · left
      exact ⟨fun i f c result now h => (by cases h.1), now, hnext ▸ readsLatency_afterRun⟩
    · by_cases hphase : ∃ c result, phase = .ending c result
      · obtain ⟨c, result, rfl⟩ := hphase
        have heq := Option.some.inj hnext
        right
        refine ⟨i, c, result, now, ⟨rfl, hi⟩, hplace, ?_, ?_⟩
        · rw [← heq]
          exact tracker_resume
        · rw [← heq]
          exact ⟨_, resume_progress _ _ _ _ _ _⟩
      · left
        refine ⟨fun j f c result now' h => ?_, now,
          readsLatency_afterSleep hnext fun c result heq => hphase ⟨c, result, heq⟩⟩
        obtain ⟨hevent, hj⟩ := h
        cases hevent
        rw [hi] at hj
        cases hj
        exact hphase ⟨c, result, rfl⟩
    · left
      exact ⟨fun i f c result now h => (by cases h.1), now, readsLatency_afterInterrupt hnext⟩

end System

/-- The call under a timeout stays the same until it is resumed. -/
theorem budgeted_of_goesOn [PyFloat F] [UnicodeDb] {srv : AtlasServer F} {t : System F}
    {i : ℕ} {f : Flight F} {phase phase' : Phase F} {e : Event F}
    {next : Progress F × ServerState F} (h : GoesOn srv t i f phase e next) {c : Budgeted}
    (hc : phase.budgeted? = some c) (hnext : next.1 = .suspended phase') :
    phase'.budgeted? = some c := by
  obtain ⟨-, ⟨a, outcome, now, rfl, rfl, rfl⟩ | ⟨now, rfl, hgoes⟩ |
    ⟨timedOut, now, rfl, hgoes⟩⟩ := h
  · unfold afterRun at hnext
    simp only at hnext
    split at hnext <;>
    · cases hnext
      exact hc
  · cases phase with
    | polling waits => cases hc
    | running a => simp [afterSleep] at hgoes
    | backoff a =>
        obtain rfl := Option.some.inj hgoes
        cases hnext
        exact hc
    | ending c result =>
        obtain rfl := Option.some.inj hgoes
        rw [resume_progress] at hnext
        cases hnext
    | starting c =>
        obtain rfl := Option.some.inj hgoes
        obtain ⟨admission, b, -, ⟨-, hstart⟩ | ⟨admitted, -, ⟨-, -, hstart⟩ | hstart⟩⟩ :=
          startCall_cases srv t.server f c now <;>
        · rw [hstart] at hnext
          cases hnext
          exact hc
  · cases phase with
    | polling waits => cases hc
    | ending c result => simp [afterInterrupt] at hgoes
    | starting c =>
        obtain rfl := Option.some.inj hgoes
        cases hnext
        exact hc
    | running a =>
        obtain rfl := Option.some.inj hgoes
        cases hnext
        exact hc
    | backoff a =>
        obtain rfl := Option.some.inj hgoes
        cases hnext
        exact hc

/-- A call under a timeout begins with the move, or was under it before. -/
theorem System.budgeted_of_moved [PyFloat F] [UnicodeDb] {srv : AtlasServer F} {t : System F}
    {e : Event F} {m : Move F} (hm : t.moved srv e = some m) {phase : Phase F}
    (hnext : m.next.1 = .suspended phase) {c : Budgeted} (hc : phase.budgeted? = some c) :
    m.next.1.begins = some c ∨
      ∃ i before, m.place = some i ∧ t.inFlight[i]? = some (m.flight, before) ∧
        before.budgeted? = some c := by
  rcases moved_cases hm with ⟨-, s, -, hs⟩ | ⟨i, before, hplace, hgoes⟩
  · rw [hs] at hnext ⊢
    rcases runObserved_flow srv s m.flight m.flight.clock.now with
      ⟨waits, h⟩ | ⟨c', h⟩ | ⟨result, h⟩
    all_goals
      rw [h] at hnext ⊢
      cases hnext
    · cases hc
    · exact Or.inl hc
  · cases hbefore : before.budgeted? with
    | some c' =>
        have hkept := budgeted_of_goesOn hgoes hbefore hnext
        obtain rfl : c' = c := Option.some.inj (hkept.symm.trans hc)
        exact Or.inr ⟨i, before, hplace, hgoes.1, hbefore⟩
    | none =>
        cases before with
        | polling waits =>
            rcases flows_of_goesOn hgoes with ⟨waits', h⟩ | ⟨c', h⟩ | ⟨result, h⟩
            all_goals
              rw [h] at hnext ⊢
              cases hnext
            · cases hc
            · exact Or.inl hc
        | _ => cases hbefore

end Server
