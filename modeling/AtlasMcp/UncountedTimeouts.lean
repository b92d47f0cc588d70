import AtlasMcp.TurnBudget

/-!
# Timeouts that the breaker does not count

A `TimeoutLog` is a system with the timeouts of its calls.  `call_with_budget` raises
`TimeoutError_` around the breaker, which only hears that the call inside was cancelled, so
that the breaker stays as it is (`breaker_of_timesOut`): after as many timeouts as its
threshold it is open if and only if it was open before the last one (`opens_iff`), and so a
breaker that is closed is never opened by one (`staysClosed_of_run`).
-/

namespace Server

open PyJson PyText Errors Tools Auth Governance RateLimit Reliability Cache FallibleState
open GuardedRuns

variable {F : Type}

/-- A call under a timeout that had no answer in time.  To the breaker it is a
cancelled call. -/
structure Timeout where
  tool : String
  time : ℚ

/-- A system with the timeouts of its calls, in the order in which they came. -/
structure TimeoutLog (F : Type) where
  system : System F
  timeouts : List Timeout := []

namespace TimeoutLog

/-- The timeout that an event is. -/
def timesOut (t : TimeoutLog F) : Event F → Option Timeout
  | .interrupt i true now =>
      t.system.inFlight[i]?.map fun x => ⟨x.1.tool.metadata.name, now⟩
  | _ => none

/-- What times out is under way, and its tool is the one that is noted. -/
theorem timesOut_eq_some {t : TimeoutLog F} {e : Event F} {x : Timeout}
    (h : t.timesOut e = some x) :
    ∃ i f phase, e = .interrupt i true x.time ∧ t.system.inFlight[i]? = some (f, phase) ∧
      f.tool.metadata.name = x.tool := by
  cases e with
  | interrupt i timedOut now =>
      cases timedOut with
      | false => cases h
      | true =>
          obtain ⟨⟨f, phase⟩, hi, rfl⟩ := Option.map_eq_some_iff.mp h
          exact ⟨i, f, phase, rfl, hi, rfl⟩
  | _ => cases h

/-- The timeouts of the tool within the window of the breaker that ends with
the last one. -/
def inWindow (b : CircuitBreaker) (timeouts : List Timeout) (last : Timeout) : List Timeout :=
  timeouts.filter fun x =>
    x.tool = last.tool ∧ last.time - b.windowSeconds ≤ x.time ∧ x.time ≤ last.time

/-- With the last timeout there are as many in the window as the breaker
allows failures. -/
def AtThreshold (b : CircuitBreaker) (timeouts : List Timeout) (last : Timeout) : Prop :=
  b.failureThreshold ≤ (inWindow b (timeouts ++ [last]) last).length

variable [PyFloat F] [UnicodeDb]

/-- The system takes its step, and what has timed out is noted. -/
def step (srv : AtlasServer F) (t : TimeoutLog F) (e : Event F) : Option (TimeoutLog F) :=
  (t.system.step srv e).map fun system =>
    { system, timeouts := t.timeouts ++ (t.timesOut e).toList }

/-- One event. -/
def Step (srv : AtlasServer F) (t : TimeoutLog F) (e : Event F) (u : TimeoutLog F) : Prop :=
  t.step srv e = some u

omit [PyFloat F] [UnicodeDb] in
/-- A server in any state, with nothing in flight. -/
def ofState (s : ServerState F) : TimeoutLog F where
  system := { server := s }

omit [PyFloat F] [UnicodeDb] in
/-- The breaker of a tool. -/
def breaker (srv : AtlasServer F) (t : TimeoutLog F) (tool : String) : CircuitBreaker :=
  breakerFor srv t.system.server tool

/-- After a timeout that brings them to the threshold, the breaker is open.
This is what the breaker is for, if timeouts are failures. -/
def OpensAtThreshold (srv : AtlasServer F) (t : TimeoutLog F) (e : Event F)
    (u : TimeoutLog F) : Prop :=
  ∀ last ∈ t.timesOut e, AtThreshold (u.breaker srv last.tool) t.timeouts last →
    (u.breaker srv last.tool).state = .opened

/-- A timeout that brings them to the threshold finds the breaker open.  Other
failures have opened it then. -/
def AlreadyOpen (srv : AtlasServer F) (t : TimeoutLog F) (e : Event F)
    (_ : TimeoutLog F) : Prop :=
  ∀ last ∈ t.timesOut e, AtThreshold (t.breaker srv last.tool) t.timeouts last →
    (t.breaker srv last.tool).state = .opened

/-- A timeout that finds the breaker closed leaves it closed, however many
have been counted. -/
def StaysClosed (srv : AtlasServer F) (t : TimeoutLog F) (e : Event F) (u : TimeoutLog F) :
    Prop :=
  ∀ last ∈ t.timesOut e, (t.breaker srv last.tool).state = .closed →
    (u.breaker srv last.tool).state = .closed

variable {srv : AtlasServer F} {t u : TimeoutLog F} {e : Event F}

omit [PyFloat F] [UnicodeDb] in
/-- A cancelled call leaves the breaker as it is, but for its probe flag. -/
theorem breaker_finishAttempt {s : ServerState F} {f : Flight F} {a : Attempt}
    {result : Except (Exc F) (ToolResult F)} {now : ℚ} :
    ∃ flag, breakerFor srv (finishAttempt srv s f a (.error .cancelled) result now).2
        f.tool.metadata.name =
      (breakerFor srv s f.tool.metadata.name).withFlag flag := by
  have hput : breakerFor srv (finishAttempt srv s f a (.error .cancelled) result now).2
      f.tool.metadata.name =
      (breakerFor srv s f.tool.metadata.name).finish a.admission
        (.error .cancelled : Except (Exc F) (ToolResult F)) now := by
    simp [finishAttempt, putBreaker, breakerFor]
  have hcancelled : ¬ Fails (.error .cancelled : Except (Exc F) (ToolResult F)) := by
    simp [Fails, Transient]
  rw [hput]
  rcases (breakerFor srv s f.tool.metadata.name).finish_cases a.admission
    (.error .cancelled : Except (Exc F) (ToolResult F)) now with
    ⟨hfails, -⟩ | ⟨hfails, -⟩ | ⟨-, hreturns, -⟩ | ⟨-, -, heq⟩
  · exact absurd hfails hcancelled
  · exact absurd hfails hcancelled
  · exact absurd hreturns id
  · exact ⟨_, heq⟩

/-- **The breaker does not hear of a timeout.** -/
theorem breaker_of_timesOut {x : Timeout} (h : t.Step srv e u) (hx : t.timesOut e = some x) :
    ∃ flag, u.breaker srv x.tool = (t.breaker srv x.tool).withFlag flag := by
  obtain ⟨system, hsystem, rfl⟩ := Option.map_eq_some_iff.mp h
  obtain ⟨i, f, phase, rfl, hi, hname⟩ := timesOut_eq_some hx
  obtain ⟨f', phase', next, hi', hnext, rfl⟩ := System.step_interrupt hsystem
  obtain ⟨rfl, rfl⟩ : f = f' ∧ phase = phase' := by
    have hsame := hi.symm.trans hi'
    simpa using hsame
  simp only [breaker, System.server_advance, ← hname]
  cases phase with
  | ending c result => simp [afterInterrupt] at hnext
  | polling waits => simp [afterInterrupt] at hnext
  | starting c =>
      obtain rfl := Option.some.inj hnext
      exact ⟨_, rfl⟩
  | running a =>
      obtain rfl := Option.some.inj hnext
      exact breaker_finishAttempt
  | backoff a =>
      obtain rfl := Option.some.inj hnext
      exact breaker_finishAttempt

/-- **Timeouts open nothing.**  In a run from any state of a server, every
timeout that brings the timeouts of its tool within the window up to the
threshold leaves the breaker of the tool open, if and only if each of them
finds it open already. -/
theorem opens_iff (srv : AtlasServer F) (s : ServerState F) (events : List (Event F))
    (t : TimeoutLog F) :
    Run (Guarded (Step srv) (OpensAtThreshold srv)) (ofState s) events t ↔
      Run (Guarded (Step srv) (AlreadyOpen srv)) (ofState s) events t := by
  apply run_guarded_iff (I := fun _ => True) trivial
  · intro t e u _ _ _
    trivial
  · intro t e u _ hstep
    have hsame : ∀ x ∈ t.timesOut e,
        (AtThreshold (u.breaker srv x.tool) t.timeouts x ↔
          AtThreshold (t.breaker srv x.tool) t.timeouts x) ∧
        (u.breaker srv x.tool).state = (t.breaker srv x.tool).state := by
      intro x hx
      obtain ⟨flag, hflag⟩ := breaker_of_timesOut hstep hx
      rw [hflag]
      exact ⟨Iff.rfl, rfl⟩
    constructor
    · intro hopens x hx hreached
      obtain ⟨hthreshold, hstate⟩ := hsame x hx
      rw [← hstate]
      exact hopens x hx (hthreshold.mpr hreached)
    · intro hopen x hx hreached
      obtain ⟨hthreshold, hstate⟩ := hsame x hx
      rw [hstate]
      exact hopen x hx (hthreshold.mp hreached)

/-- **Closed for good.**  In every run, no timeout opens a breaker that it
finds closed. -/
theorem staysClosed_of_run {s : ServerState F} {events : List (Event F)}
    (hrun : Run (Step srv) (ofState s) events t) :
    Run (Guarded (Step srv) (StaysClosed srv)) (ofState s) events t := by
  refine hrun.transfer (I := fun _ => True) trivial fun t e u _ hstep => ⟨trivial, hstep, ?_⟩
  intro last hlast hclosed
  obtain ⟨flag, hflag⟩ := breaker_of_timesOut hstep hlast
  rw [hflag]
  exact hclosed

end TimeoutLog

/-- The five timeouts of a hanging turn, but for the last. -/
def fourHanging : List (Event WholeFloat) :=
  (List.range 4).flatMap pingHangs ++ (pingHangs 4).take 2

/-- The last of them leaves the breaker closed. -/
theorem hanging_backend_leaves_breaker_closed : ∃ t u,
    Run (TimeoutLog.Step pingServer) (.ofState pingServer.initial) fourHanging t ∧
      t.Step pingServer (.interrupt 0 true (75 / 2)) u ∧
      (u.breaker pingServer "server.ping").state = .closed ∧
      ¬ TimeoutLog.OpensAtThreshold pingServer t (.interrupt 0 true (75 / 2)) u := by
  obtain ⟨t, ht, u, hu, hclosed, x, hx, htool, hcount⟩ :
      ∃ t ∈ exec (TimeoutLog.step pingServer) (.ofState pingServer.initial) fourHanging,
        ∃ u ∈ t.step pingServer (.interrupt 0 true (75 / 2)),
          (u.breaker pingServer "server.ping").state = .closed ∧
          ∃ x ∈ t.timesOut (.interrupt 0 true (75 / 2)), x.tool = "server.ping" ∧
            (u.breaker pingServer "server.ping").failureThreshold ≤
              (TimeoutLog.inWindow (u.breaker pingServer "server.ping") (t.timeouts ++ [x])
                x).length := by
    decide +kernel
  refine ⟨t, u, Run.of_exec ht, hu, hclosed, fun hopens => ?_⟩
  have hopened := hopens x hx (by rw [TimeoutLog.AtThreshold, htool]; exact hcount)
  rw [htool, hclosed] at hopened
  cases hopened

end Server
