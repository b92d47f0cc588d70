import AtlasMcp.DispatchEndings

/-!
# The counters of the reliability layer

`ReliabilityMetrics` counts the calls of `_execute_reliably` by tool, the retries, the calls
whose attempts are used up, and those that a breaker rejected.  A `Metered` server counts along
with the moves of its dispatches.

A call or a retry leads to one start of its tool, or the call is short-circuited, or its task
was interrupted before the start; and no call ends twice.  So the counters add up with the
starts of tools, up to what is still in flight (`counters_of_run`).
-/

namespace Server

open PyJson PyText Errors Tools Auth Governance RateLimit Reliability Cache FallibleState
open GuardedRuns

variable {F : Type}

/-! ## The counters -/

/-- Counters updated by the dispatch pipeline. -/
structure ReliabilityMetrics where
  retriesAttempted : ℕ := 0
  retriesExhausted : ℕ := 0
  breakerShortCircuits : ℕ := 0
  perToolCalls : AList fun _ : String => ℕ := ∅

namespace ReliabilityMetrics

/-- `record_call`. -/
def recordCall (m : ReliabilityMetrics) (tool : String) : ReliabilityMetrics :=
  { m with perToolCalls :=
      m.perToolCalls.insert tool ((m.perToolCalls.lookup tool).getD 0 + 1) }

/-- `record_retry`. -/
def recordRetry (m : ReliabilityMetrics) : ReliabilityMetrics :=
  { m with retriesAttempted := m.retriesAttempted + 1 }

/-- `record_retry_exhausted`. -/
def recordRetryExhausted (m : ReliabilityMetrics) : ReliabilityMetrics :=
  { m with retriesExhausted := m.retriesExhausted + 1 }

/-- `record_short_circuit`. -/
def recordShortCircuit (m : ReliabilityMetrics) : ReliabilityMetrics :=
  { m with breakerShortCircuits := m.breakerShortCircuits + 1 }

/-- The calls of all tools. -/
def calls (m : ReliabilityMetrics) : ℕ := (m.perToolCalls.entries.map Sigma.snd).sum

/-- The count of a tool is one of those that are summed up. -/
theorem sum_kerase (k : String) (l : List (Sigma fun _ : String => ℕ)) :
    ((l.kerase k).map Sigma.snd).sum + (l.dlookup k).getD 0 = (l.map Sigma.snd).sum := by
  induction l with
  | nil => simp
  | cons x l ih =>
      obtain ⟨k', n⟩ := x
      by_cases h : k = k'
      · subst h
        simp [Nat.add_comm]
      · rw [List.kerase_cons_ne h, List.dlookup_cons_ne _ _ h]
        simp only [List.map_cons, List.sum_cons]
        omega

@[simp]
theorem calls_recordCall (m : ReliabilityMetrics) (tool : String) :
    (m.recordCall tool).calls = m.calls + 1 := by
  have hsum := sum_kerase tool m.perToolCalls.entries
  have hlookup : m.perToolCalls.lookup tool = m.perToolCalls.entries.dlookup tool := rfl
  simp only [calls, recordCall, AList.entries_insert, List.map_cons, List.sum_cons,
    hlookup]
  omega

@[simp]
theorem recordCall_keeps (m : ReliabilityMetrics) (tool : String) :
    (m.recordCall tool).retriesAttempted = m.retriesAttempted ∧
      (m.recordCall tool).retriesExhausted = m.retriesExhausted ∧
      (m.recordCall tool).breakerShortCircuits = m.breakerShortCircuits := ⟨rfl, rfl, rfl⟩

@[simp]
theorem recordRetry_counts (m : ReliabilityMetrics) :
    m.recordRetry.calls = m.calls ∧
      m.recordRetry.retriesAttempted = m.retriesAttempted + 1 ∧
      m.recordRetry.retriesExhausted = m.retriesExhausted ∧
      m.recordRetry.breakerShortCircuits = m.breakerShortCircuits := ⟨rfl, rfl, rfl, rfl⟩

/-- Counting retries that are exhausted leaves the other counters. -/
@[simp]
theorem recordRetryExhausted_counts (m : ReliabilityMetrics) :
    m.recordRetryExhausted.calls = m.calls ∧
      m.recordRetryExhausted.retriesAttempted = m.retriesAttempted ∧
      m.recordRetryExhausted.retriesExhausted = m.retriesExhausted + 1 ∧
      m.recordRetryExhausted.breakerShortCircuits = m.breakerShortCircuits := ⟨rfl, rfl, rfl, rfl⟩

/-- Counting a short circuit leaves the other counters. -/
@[simp]
theorem recordShortCircuit_counts (m : ReliabilityMetrics) :
    m.recordShortCircuit.calls = m.calls ∧
      m.recordShortCircuit.retriesAttempted = m.retriesAttempted ∧
      m.recordShortCircuit.retriesExhausted = m.retriesExhausted ∧
      m.recordShortCircuit.breakerShortCircuits = m.breakerShortCircuits + 1 :=
  ⟨rfl, rfl, rfl, rfl⟩

end ReliabilityMetrics

/-! ## A server that counts -/

/-- A call that ended like this was short-circuited. -/
def isShortCircuit : Except (Exc F) (ToolResult F) → Bool
  | .error (.tool e) => e.cls = .circuitOpenError
  | _ => false

/-- The guarded call raised a `ToolError`. -/
def isToolError : Except (Exc F) (ToolResult F) → Bool
  | .error (.tool _) => true
  | _ => false

/-- What is counted when a dispatch moves on that waited in a phase, if it
did. -/
def ReliabilityMetrics.after (m : ReliabilityMetrics) (e : Event F) (phase : Option (Phase F))
    (move : Move F) : ReliabilityMetrics :=
  match e, phase, move.next.1 with
  -- `_execute_reliably` begins
  | _, _, .suspended (.starting _) => m.recordCall move.flight.tool.metadata.name
  -- `_on_retry_sleep`
  | .ran .., _, .suspended (.backoff _) => m.recordRetry
  -- `except ToolError` in `_guarded`, around the retries of an idempotent tool
  | .ran .., _, .suspended (.ending _ result) =>
      if isToolError result ∧ move.flight.tool.metadata.destructive = false then
        m.recordRetryExhausted
      else m
  -- `except CircuitOpenError`
  | .woke .., some (.ending _ result), _ =>
      if isShortCircuit result then m.recordShortCircuit else m
  | _, _, _ => m

/-- A server with its reliability counters. -/
structure Metered (F : Type) where
  system : System F
  metrics : ReliabilityMetrics := {}

namespace Metered

section Steps

variable [PyFloat F] [UnicodeDb]

/-- The system takes its step, and its metrics count it. -/
def step (srv : AtlasServer F) (x : Metered F) (e : Event F) : Option (Metered F) :=
  (x.system.step srv e).map fun system =>
    match x.system.moved srv e with
    | some move =>
        { system, metrics := x.metrics.after e (x.system.phaseAt move.place) move }
    | none => { system, metrics := x.metrics }

/-- One event. -/
def Step (srv : AtlasServer F) (x : Metered F) (e : Event F) (y : Metered F) : Prop :=
  x.step srv e = some y

/-- A new server. -/
def start (srv : AtlasServer F) : Metered F where
  system := System.start srv

variable {srv : AtlasServer F} {x y : Metered F} {e : Event F}

/-- What an event does to the server and to the counters. -/
theorem step_cases (h : x.Step srv e y) :
    x.system.Step srv e y.system ∧
      ((x.system.moved srv e = none ∧ y.metrics = x.metrics) ∨
        ∃ move, x.system.moved srv e = some move ∧
          y.metrics = x.metrics.after e (x.system.phaseAt move.place) move) := by
  obtain ⟨system, hsystem, rfl⟩ := Option.map_eq_some_iff.mp h
  rcases hmoved : x.system.moved srv e with _ | move
  · exact ⟨hsystem, Or.inl ⟨rfl, rfl⟩⟩
  · exact ⟨hsystem, Or.inr ⟨move, rfl, rfl⟩⟩

end Steps

end Metered

/-! ## What a move adds -/

namespace Phase

/-- The dispatch owes a start of its tool, or a short circuit. -/
def owed : Phase F → ℕ
  | .starting _ | .backoff _ => 1
  | .ending _ result => (isShortCircuit result).toNat
  | .polling _ | .running _ => 0

/-- The dispatch has been counted as a call and not yet at its end. -/
def unsettled : Phase F → ℕ
  | .starting _ | .running _ | .backoff _ => 1
  | .ending _ result => (isShortCircuit result).toNat
  | .polling _ => 0

end Phase

/-- The event interrupts a dispatch, so that its call ends without a
result. -/
def Event.isInterrupt : Event F → Bool
  | .interrupt .. => true
  | _ => false

/-- No tool raises the error of a breaker, which the metrics could not tell from
one of the breaker itself. -/
def Event.Plain (e : Event F) : Prop :=
  ∀ i outcome now, e = .ran i outcome now → isShortCircuit outcome = false

/-- A move keeps the balance of the counters: what they grow by, the dispatch
has started its tool for, or owes, or was interrupted; and it is counted at
its end once. -/
structure Balances (interrupts : ℕ) (m m' : ReliabilityMetrics) (phase : Option (Phase F))
    (next : Progress F) : Prop where
  starts : next.starts + m'.breakerShortCircuits + (next.phase?.elim 0 Phase.owed) +
      (m.calls + m.retriesAttempted) ≤
    m'.calls + m'.retriesAttempted + m.breakerShortCircuits + phase.elim 0 Phase.owed
  counted : m'.calls + m'.retriesAttempted + m.breakerShortCircuits + phase.elim 0 Phase.owed ≤
    next.starts + m'.breakerShortCircuits + (next.phase?.elim 0 Phase.owed) +
      (m.calls + m.retriesAttempted) + interrupts
  ends : m'.retriesExhausted + m'.breakerShortCircuits + (next.phase?.elim 0 Phase.unsettled) +
      m.calls ≤
    m'.calls + m.retriesExhausted + m.breakerShortCircuits + phase.elim 0 Phase.unsettled

section Moves

variable [PyFloat F] [UnicodeDb] {srv : AtlasServer F} {t : System F} {e : Event F}
  {m : ReliabilityMetrics}

omit [PyFloat F] [UnicodeDb] in
/-- What `_run` makes of an exception is not the error of a breaker. -/
theorem isShortCircuit_normalised {outcome : Except (Exc F) (ToolResult F)}
    (h : isShortCircuit outcome = false) (env : ToolCallEnvelope F) :
    isShortCircuit (normalised env outcome) = false := by
  unfold normalised
  split
  next typeName => rfl
  next => exact h

omit [PyFloat F] in
/-- The error with which an open breaker rejects a call is what the metrics
count as a short circuit. -/
theorem isShortCircuit_rejection (b : CircuitBreaker) :
    isShortCircuit (.error (.tool b.rejection) : Except (Exc F) (ToolResult F)) = true := rfl

omit [PyFloat F] [UnicodeDb] in
/-- A dispatch that asks the cache, and now waits for it, or goes on to its
call, or ends. -/
theorem balances_of_lookup {phase : Option (Phase F)} {move : Move F}
    (hphase : phase = none ∨ ∃ waits, phase = some (.polling waits))
    (hflow : (∃ waits, move.next.1 = .suspended (.polling waits)) ∨
      (∃ c, move.next.1 = .suspended (.starting c)) ∨ ∃ result, move.next.1 = .ended result) :
    Balances 0 m (m.after e phase move) phase move.next.1 := by
  rcases hphase with rfl | ⟨waits, rfl⟩ <;>
    rcases hflow with ⟨waits', h⟩ | ⟨c, h⟩ | ⟨result, h⟩ <;>
    constructor <;> simp [ReliabilityMetrics.after, h, Progress.starts, Progress.phase?,
      Phase.owed, Phase.unsettled] <;> omega

omit [PyFloat F] [UnicodeDb] in
/-- The tool ended: the call is retried, or ends, with its attempts used up or
not. -/
theorem balances_of_ran {i : ℕ} {f : Flight F} {a : Attempt}
    {outcome : Except (Exc F) (ToolResult F)} {now : ℚ}
    (hplain : isShortCircuit outcome = false) :
    Balances 0 m
      (m.after (.ran i outcome now) (some (.running a))
        ⟨some i, f, afterRun srv t.server f a outcome now⟩)
      (some (.running a)) (afterRun srv t.server f a outcome now).1 := by
  have hnormal := isShortCircuit_normalised hplain f.envelope
  unfold afterRun finishAttempt
  simp only
  generalize normalised f.envelope outcome = outcome at hnormal
  by_cases hretries : retries srv f a outcome
  · constructor <;> simp [ReliabilityMetrics.after, hretries, Progress.starts, Progress.phase?,
      Phase.owed, Phase.unsettled] <;> omega
  · by_cases hexhausted : isToolError outcome = true ∧ f.tool.metadata.destructive = false <;>
      constructor <;> simp [ReliabilityMetrics.after, hretries, hexhausted, hnormal,
        Progress.starts, Progress.phase?, Phase.owed, Phase.unsettled] <;> omega

/-- A wait ended. -/
theorem balances_of_woke {i : ℕ} {f : Flight F} {phase : Phase F} {now : ℚ}
    {next : Progress F × ServerState F} (hattempts : 0 < srv.settings.retryMaxAttempts)
    (hnext : afterSleep srv t.server f now phase = some next)
    (hflows : Flows srv i f (.woke i now) next.1 phase) :
    Balances 0 m (m.after (.woke i now) (some phase) ⟨some i, f, next⟩) (some phase) next.1 := by
  cases phase with
  | running a => simp [afterSleep] at hnext
  | ending c result =>
      obtain rfl := Option.some.inj hnext
      by_cases hshort : isShortCircuit result = true <;> constructor <;>
        simp [ReliabilityMetrics.after, resume_progress, hshort, Progress.starts,
          Progress.phase?, Phase.owed, Phase.unsettled] <;> omega
  | starting c =>
      obtain rfl := Option.some.inj hnext
      obtain ⟨admission, b, -, ⟨-, hstart⟩ | ⟨admitted, -, ⟨-, hnone, -⟩ | hstart⟩⟩ :=
        startCall_cases srv t.server f c now
      · constructor <;> simp [ReliabilityMetrics.after, hstart, Progress.starts,
          Progress.phase?, Phase.owed, Phase.unsettled, isShortCircuit_rejection] <;> omega
      · omega
      · constructor <;> simp [ReliabilityMetrics.after, hstart, Progress.starts,
          Progress.phase?, Phase.owed, Phase.unsettled] <;> omega
  | backoff a =>
      obtain rfl := Option.some.inj hnext
      constructor <;> simp [ReliabilityMetrics.after, Progress.starts, Progress.phase?,
        Phase.owed, Phase.unsettled] <;> omega
  | polling waits => exact balances_of_lookup (Or.inr ⟨waits, rfl⟩) hflows

omit [PyFloat F] in
/-- What is interrupted before its start does not start. -/
theorem balances_of_interrupt {i : ℕ} {f : Flight F} {phase : Phase F} {timedOut : Bool}
    {now : ℚ} {next : Progress F × ServerState F}
    (hnext : afterInterrupt srv t.server f timedOut now phase = some next) :
    Balances 1 m (m.after (.interrupt i timedOut now) (some phase) ⟨some i, f, next⟩)
      (some phase) next.1 := by
  have hshort (c : Budgeted) :
      isShortCircuit (.error (interruption f c timedOut) : Except (Exc F) (ToolResult F)) =
        false := by
    cases timedOut <;> rfl
  cases phase with
  | ending c result => simp [afterInterrupt] at hnext
  | polling waits =>
      obtain rfl := eq_of_afterInterrupt_polling hnext
      constructor <;> simp [ReliabilityMetrics.after, conclude, Progress.starts,
        Progress.phase?, Phase.owed, Phase.unsettled] <;> omega
  | starting c | running a | backoff a =>
      obtain rfl := Option.some.inj hnext
      constructor <;> simp [ReliabilityMetrics.after, finishAttempt, hshort, Progress.starts,
        Progress.phase?, Phase.owed, Phase.unsettled] <;> omega

/-- **A move keeps the balance**, whatever moves on. -/
theorem balances_of_moved (hattempts : 0 < srv.settings.retryMaxAttempts) (hplain : e.Plain)
    {move : Move F} (hm : t.moved srv e = some move) :
    Balances e.isInterrupt.toNat m (m.after e (t.phaseAt move.place) move)
      (t.phaseAt move.place) move.next.1 := by
  rcases System.moved_cases hm with
    ⟨hplace, s, ⟨ctx, env, clock, tool, args, rfl, -, -⟩, hnext⟩ | ⟨i, phase, hplace, hgoes⟩
  · rw [hplace]
    refine balances_of_lookup (Or.inl rfl) ?_
    rw [hnext]
    exact runObserved_flow srv s move.flight move.flight.clock.now
  · have hphase : t.phaseAt move.place = some phase := by
      simp [System.phaseAt, hplace, hgoes.1]
    have hflows := flows_of_goesOn hgoes
    rw [hphase]
    obtain ⟨place, f, next⟩ := move
    obtain rfl : place = some i := hplace
    dsimp only at hgoes hflows ⊢
    obtain ⟨-, ⟨a, outcome, now, rfl, rfl, rfl⟩ | ⟨now, rfl, hnext⟩ |
      ⟨timedOut, now, rfl, hnext⟩⟩ := hgoes
    · exact balances_of_ran (hplain i outcome now rfl)
    · exact balances_of_woke hattempts hnext hflows
    · exact balances_of_interrupt hnext

end Moves

/-! ## Runs -/

namespace Metered

variable [PyFloat F] [UnicodeDb] {srv : AtlasServer F} {x y : Metered F} {e : Event F}

/-- The starts that the dispatches in flight owe. -/
def owed (x : Metered F) : ℕ := x.system.total Phase.owed

/-- The dispatches in flight whose call has not been counted at its end. -/
def unsettled (x : Metered F) : ℕ := x.system.total Phase.unsettled

/-- The counters and the starts of tools add up, but for the interruptions. -/
structure AddsUp (x : Metered F) (interrupts : ℕ) : Prop where
  started : x.system.started.length + x.metrics.breakerShortCircuits + x.owed ≤
    x.metrics.calls + x.metrics.retriesAttempted
  counted : x.metrics.calls + x.metrics.retriesAttempted ≤
    x.system.started.length + x.metrics.breakerShortCircuits + x.owed + interrupts
  ended : x.metrics.retriesExhausted + x.metrics.breakerShortCircuits + x.unsettled ≤
    x.metrics.calls

/-- A step keeps the sum: what was started is what was called and tried again,
but for those that were rejected or interrupted. -/
theorem AddsUp.step {interrupts : ℕ} (hx : x.AddsUp interrupts)
    (hattempts : 0 < srv.settings.retryMaxAttempts) (hplain : e.Plain) (h : x.Step srv e y) :
    y.AddsUp (interrupts + e.isInterrupt.toNat) := by
  obtain ⟨hsystem, ⟨hnone, hmetrics⟩ | ⟨move, hm, hmetrics⟩⟩ := step_cases h
  · obtain ⟨hflight, hstarted⟩ := System.step_of_not_moved hsystem hnone
    obtain ⟨hle, hge, hends⟩ := hx
    constructor <;> simp only [owed, unsettled, System.total, hflight, hstarted, hmetrics] at * <;>
      omega
  · have howed := System.total_step Phase.owed hsystem hm
    have hunsettled := System.total_step Phase.unsettled hsystem hm
    obtain ⟨-, hstarted⟩ := System.step_of_moved hsystem hm
    obtain ⟨hbalance, hback, hends⟩ := balances_of_moved (m := x.metrics) hattempts hplain hm
    rw [← hmetrics] at hbalance hback hends
    obtain ⟨hle, hge, hended⟩ := hx
    constructor <;> simp only [owed, unsettled, hstarted, List.length_append,
      List.length_replicate] at * <;> omega

/-- **The counters add up.**  In every run of a new server that makes at least
one attempt, in which no tool raises the error of a breaker: the calls and the
retries that are counted are the starts of tools, the short circuits and the
starts that dispatches in flight owe, but for as many as there were
interruptions; and the calls whose attempts were used up, those that were
short-circuited and those not at their end are different calls. -/
theorem counters_of_run (hattempts : 0 < srv.settings.retryMaxAttempts)
    {events : List (Event F)} (hplain : ∀ e ∈ events, e.Plain)
    (hrun : Run (Step srv) (start srv) events x) :
    x.AddsUp (events.countP Event.isInterrupt) := by
  induction hrun with
  | nil => constructor <;> simp [start, System.start, owed, unsettled, System.total,
      ReliabilityMetrics.calls]
  | @snoc events e x y _ hlast ih =>
      have hx := ih fun e he => hplain e (List.mem_append_left _ he)
      have hy := hx.step hattempts (hplain e (by simp)) hlast
      have hcount : [e].countP Event.isInterrupt = e.isInterrupt.toNat := by
        cases h : e.isInterrupt <;> simp [h]
      rwa [List.countP_append, hcount]

end Metered

/-- A server whose breakers open at the first failure. -/
def touchyServer : AtlasServer WholeFloat :=
  { pingServer with settings := { circuitBreakerFailureThreshold := 1 } }

/-- A ping fails three times, and the next is rejected. -/
def pingedAndRejected : List (Event WholeFloat) :=
  let ping := .dispatch pingContext (pingContext.buildEnvelope "server.ping" []) ⟨0, 0, ""⟩
  let failed now := .ran 0 (.error (.tool
    { cls := .upstreamError, code := "down", retryable := true })) now
  [ping, .woke 0 0, failed 0, .woke 0 1, failed 1, .woke 0 2, failed 2, .woke 0 2,
    ping, .woke 0 3, .woke 0 3]

/-- Nothing is interrupted in this run, and no tool raises the error of a
breaker. -/
theorem plain_pingedAndRejected : ∀ e ∈ pingedAndRejected, e.Plain := by
  intro e he i outcome now h
  subst h
  simp only [pingedAndRejected, List.mem_cons, List.not_mem_nil, or_false, reduceCtorEq,
    Event.ran.injEq, false_or] at he
  rcases he with ⟨-, rfl, -⟩ | ⟨-, rfl, -⟩ | ⟨-, rfl, -⟩ <;> rfl

/-- A run of pings in which all the counters count something, and add up. -/
theorem pings_add_up : ∃ x,
    Run (Metered.Step touchyServer) (Metered.start touchyServer) pingedAndRejected x ∧
    x.metrics.calls = 2 ∧ x.metrics.retriesAttempted = 2 ∧ x.metrics.retriesExhausted = 1 ∧
    x.metrics.breakerShortCircuits = 1 ∧ x.system.started.length = 3 ∧ x.AddsUp 0 := by
  obtain ⟨x, hx, hcalls, hretries, hexhausted, hshort, hstarted⟩ :
      ∃ x ∈ exec (Metered.step touchyServer) (Metered.start touchyServer) pingedAndRejected,
        x.metrics.calls = 2 ∧ x.metrics.retriesAttempted = 2 ∧ x.metrics.retriesExhausted = 1 ∧
        x.metrics.breakerShortCircuits = 1 ∧ x.system.started.length = 3 := by
    decide +kernel
  have hrun := Run.of_exec hx
  exact ⟨x, hrun, hcalls, hretries, hexhausted, hshort, hstarted,
    Metered.counters_of_run (by decide) plain_pingedAndRejected hrun⟩

end Server
