import AtlasMcp.Dispatch
import AtlasMcp.GuardedRuns

/-!
# Dispatches in flight

Past its gates a dispatch suspends while `tool.run` runs, while a retry waits, and
while it waits for another caller's cache entry.  It also does so around the guarded
call, which `asyncio.wait_for` makes a task of its own: the dispatch waits for the task
to start, and once the task is done to be resumed.  A `System` is a server with its
dispatches in flight, and an `Event` is the arrival of a dispatch or the end of one
such wait; dispatches interleave at these in any way.  The cache may be invalidated and
approvals judged in between.

The backends of a tool are outside: `tool.run` ends with any outcome at any time, is
interrupted by its timeout or cancelled.
-/

namespace Server

open PyJson PyText Errors Tools Auth Governance RateLimit Reliability Cache FallibleState
open GuardedRuns

variable {F : Type}

/-- What `tool.run` returns: a dictionary. -/
abbrev ToolResult (F : Type) : Type :=
  { kvs : List (String × Value F) // (Value.dict kvs).Wf }

/-- A call under its timeout: whether the caller holds the cache lock, when
the call began, and the timeout. -/
structure Budgeted where
  locked : Bool
  started : ℚ
  timeoutS : ℚ

/-- Behind the breaker: how it admitted the call, and the attempt.  All the
attempts of a call are of the one admission. -/
structure Attempt extends Budgeted where
  admission : Admission
  attempt : ℕ

/-- Where a dispatch is suspended: it waits for another caller's entry and has
done so `waits` times before, waits for its task to start, runs the tool,
waits for a retry, or is to resume after its task ended. -/
inductive Phase (F : Type)
  | polling (waits : ℕ)
  | starting (c : Budgeted)
  | running (a : Attempt)
  | backoff (a : Attempt)
  | ending (c : Budgeted) (result : Except (Exc F) (ToolResult F))

/-- A dispatch past its gates: the call and what was found out about it, and
its cache key where it uses the cache.  The context, the clock and the state
it arrived in are kept for reference. -/
structure Flight (F : Type) where
  context : RequestContext
  envelope : ToolCallEnvelope F
  clock : Clock
  arrival : ServerState F
  tool : Tool F
  args : BaseModel F
  key : Option String

/-- A dispatch goes on to wait, or ends with what `dispatch` returns or
raises. -/
inductive Progress (F : Type)
  | suspended (phase : Phase F)
  | ended (result : Except (Exc F) (Value F))

section Pieces

variable [PyFloat F] [UnicodeDb]

/-- `breakers.for_tool(name)`. -/
def breakerFor (srv : AtlasServer F) (s : ServerState F) (name : String) :
    CircuitBreaker :=
  (s.breakers.lookup name).getD
    { name
      failureThreshold := srv.settings.circuitBreakerFailureThreshold
      recoverySeconds := srv.settings.circuitBreakerRecoverySeconds }

/-- The state with a breaker of the tool. -/
def putBreaker (s : ServerState F) (name : String) (b : CircuitBreaker) :
    ServerState F :=
  { s with breakers := s.breakers.insert name b }

/-- The end of a dispatch: its `finally` block looks the breaker up. -/
def conclude (srv : AtlasServer F) (s : ServerState F) (f : Flight F)
    (result : Except (Exc F) (Value F)) : Progress F × ServerState F :=
  let name := f.tool.metadata.name
  (.ended result, putBreaker s name (breakerFor srv s name))

/-- `get_or_compute` after `compute`: write the value and release the lock. -/
def settle (srv : AtlasServer F) (s : ServerState F) (f : Flight F) (locked : Bool)
    (result : Except (Exc F) (ToolResult F)) (now : ℚ) : Progress F × ServerState F :=
  match f.key with
  | none => conclude srv s f (result.map fun r => .dict r.val)
  | some key =>
      let cache := match result with
        | .ok r => s.cache.set key (.dict r.val) (some f.tool.metadata.cacheTtlSeconds) now
        | .error _ => s.cache
      let l2 := if locked then cache.l2.releaseLock (key ++ ":lock") else cache.l2
      conclude srv { s with cache := { cache with l2 } } f
        (result.map fun r => .dict r.val)

/-- `call_with_budget` after its task ended: the tracker hears the
duration. -/
def resume (srv : AtlasServer F) (s : ServerState F) (f : Flight F) (c : Budgeted)
    (result : Except (Exc F) (ToolResult F)) (now : ℚ) : Progress F × ServerState F :=
  let tracker := s.tracker.record f.tool.metadata.name (now - c.started)
  settle srv { s with tracker } f c.locked result now

/-- The guarded call ended with `outcome` and raised or returned `result`: the
breaker hears the outcome. -/
def finishAttempt (srv : AtlasServer F) (s : ServerState F) (f : Flight F) (a : Attempt)
    (outcome result : Except (Exc F) (ToolResult F)) (now : ℚ) :
    Progress F × ServerState F :=
  let name := f.tool.metadata.name
  let b := (breakerFor srv s name).finish a.admission outcome now
  (.suspended (.ending a.toBudgeted result), putBreaker s name b)

/-- The task of the call starts: the breaker admits the call or rejects it.
Without a single attempt allowed, the retry loop falls through to its
assertion. -/
def startCall (srv : AtlasServer F) (s : ServerState F) (f : Flight F) (c : Budgeted)
    (now : ℚ) : Progress F × ServerState F :=
  let name := f.tool.metadata.name
  let (admission, b) := (breakerFor srv s name).enter now
  let s := putBreaker s name b
  match admission with
  | none => (.suspended (.ending c (.error (.tool b.rejection))), s)
  | some admission =>
      let a : Attempt := { c with admission, attempt := 1 }
      if ¬ f.tool.metadata.destructive ∧ srv.settings.retryMaxAttempts ≤ 0 then
        let failed : Except (Exc F) (ToolResult F) := .error (.other "AssertionError")
        finishAttempt srv s f a failed failed now
      else (.suspended (.running a), s)

/-- `_execute_reliably` up to the start of its task. -/
def execute (srv : AtlasServer F) (s : ServerState F) (f : Flight F) (locked : Bool)
    (now : ℚ) : Progress F × ServerState F :=
  let name := f.tool.metadata.name
  (.suspended (.starting ⟨locked, now, s.tracker.timeoutFor name⟩),
    putBreaker s name (breakerFor srv s name))

/-- One read of the cache, with what to do on a miss. -/
def readCache (srv : AtlasServer F) (s : ServerState F) (f : Flight F) (key : String)
    (now : ℚ) (miss : ServerState F → Progress F × ServerState F) :
    Progress F × ServerState F :=
  let (hit, cache) := s.cache.get key now
  let s := { s with cache }
  match hit with
  | .ok .none => miss s
  | .ok v => conclude srv s f (.ok v)
  | .error exc => conclude srv s f (.error exc)

/-- `_run_observed` up to its first suspension. -/
def runObserved (srv : AtlasServer F) (s : ServerState F) (f : Flight F) (now : ℚ) :
    Progress F × ServerState F :=
  match f.key with
  | none => execute srv s f false now
  | some key => readCache srv s f key now fun s =>
      let (acquired, l2) := s.cache.l2.acquireLock (key ++ ":lock")
        CacheManager.stampedeLockTtlMs now
      let s := { s with cache := { s.cache with l2 } }
      if acquired then execute srv s f true now else (.suspended (.polling 0), s)

/-- The call a dispatch makes once its gates are passed. -/
def flightOf (srv : AtlasServer F) (ctx : RequestContext) (env : ToolCallEnvelope F)
    (clock : Clock) (arrival : ServerState F) (tool : Tool F) (args : BaseModel F) :
    Flight F where
  context := ctx
  envelope := env
  clock := clock
  arrival := arrival
  tool := tool
  args := args
  key := if srv.settings.cacheEnabled ∧ tool.metadata.cacheable then
    some (tool.cacheKey env.tenant args) else none

/-- `_run()`: what is not a `ToolError` becomes one, except a cancellation. -/
def normalised (env : ToolCallEnvelope F) (outcome : Except (Exc F) (ToolResult F)) :
    Except (Exc F) (ToolResult F) :=
  match outcome with
  | .error (.other typeName) =>
      .error (.tool (normaliseException (.other typeName) (some env.tool)))
  | outcome => outcome

/-- `with_retry` tries again after this outcome. -/
def retries (srv : AtlasServer F) (f : Flight F) (a : Attempt) :
    Except (Exc F) (ToolResult F) → Prop
  | .error (.tool e) => f.tool.metadata.destructive = false ∧ e.retryable ∧
      (a.attempt : ℤ) ≠ srv.settings.retryMaxAttempts
  | _ => False

instance (srv : AtlasServer F) (f : Flight F) (a : Attempt)
    (outcome : Except (Exc F) (ToolResult F)) : Decidable (retries srv f a outcome) :=
  match outcome with
  | .ok _ => isFalse id
  | .error (.tool _) => inferInstanceAs (Decidable (_ ∧ _))
  | .error .cancelled => isFalse id
  | .error (.other _) => isFalse id

/-- `tool.run` ended. -/
def afterRun (srv : AtlasServer F) (s : ServerState F) (f : Flight F) (a : Attempt)
    (outcome : Except (Exc F) (ToolResult F)) (now : ℚ) : Progress F × ServerState F :=
  let outcome := normalised f.envelope outcome
  if retries srv f a outcome then (.suspended (.backoff a), s)
  else finishAttempt srv s f a outcome outcome now

/-- A wait ended: start the task or resume after it, try the tool again, or
read the cache again, at most `stampedeMaxWaits` times, and compute the value
if it is still missing. -/
def afterSleep (srv : AtlasServer F) (s : ServerState F) (f : Flight F) (now : ℚ) :
    Phase F → Option (Progress F × ServerState F)
  | .running _ => none
  | .starting c => some (startCall srv s f c now)
  | .ending c result => some (resume srv s f c result now)
  | .backoff a => some (.suspended (.running { a with attempt := a.attempt + 1 }), s)
  | .polling waits => f.key.map fun key => readCache srv s f key now fun s =>
      if waits + 1 < CacheManager.stampedeMaxWaits then
        (.suspended (.polling (waits + 1)), s)
      else execute srv s f false now

/-- What `call_with_budget` raises after an interruption. -/
def interruption (f : Flight F) (c : Budgeted) (timedOut : Bool) : Exc F :=
  if timedOut then .tool (timeoutError f.tool.metadata.name ⌊c.timeoutS * 1000⌋)
  else .cancelled

/-- The timeout of a call passed, or the task of the dispatch was cancelled:
the task of the call is cancelled.  One that is done already has its result
returned. -/
def afterInterrupt (srv : AtlasServer F) (s : ServerState F) (f : Flight F)
    (timedOut : Bool) (now : ℚ) : Phase F → Option (Progress F × ServerState F)
  | .polling _ =>
      if timedOut then none else some (conclude srv s f (.error .cancelled))
  | .starting c =>
      some (.suspended (.ending c (.error (interruption f c timedOut))), s)
  | .running a | .backoff a =>
      some (finishAttempt srv s f a (.error .cancelled)
        (.error (interruption f a.toBudgeted timedOut)) now)
  | .ending .. => none

omit [PyFloat F] in
/-- What the start of a call comes to: it is rejected by the breaker, or by
the retry loop without an attempt, or runs. -/
theorem startCall_cases (srv : AtlasServer F) (s : ServerState F) (f : Flight F)
    (c : Budgeted) (now : ℚ) :
    ∃ admission b, (breakerFor srv s f.tool.metadata.name).enter now = (admission, b) ∧
      (admission = none ∧ startCall srv s f c now =
          (.suspended (.ending c (.error (.tool b.rejection))),
            putBreaker s f.tool.metadata.name b) ∨
        ∃ admitted, admission = some admitted ∧
          (f.tool.metadata.destructive = false ∧ srv.settings.retryMaxAttempts ≤ 0 ∧
              startCall srv s f c now =
                finishAttempt srv (putBreaker s f.tool.metadata.name b) f
                  { c with admission := admitted, attempt := 1 }
                  (.error (.other "AssertionError")) (.error (.other "AssertionError")) now ∨
            startCall srv s f c now =
              (.suspended (.running { c with admission := admitted, attempt := 1 }),
                putBreaker s f.tool.metadata.name b))) := by
  rcases henter : (breakerFor srv s f.tool.metadata.name).enter now with ⟨admission, b⟩
  refine ⟨admission, b, rfl, ?_⟩
  cases admission with
  | none => exact Or.inl ⟨rfl, by simp only [startCall, henter]⟩
  | some admitted =>
      refine Or.inr ⟨admitted, rfl, ?_⟩
      simp only [startCall, henter]
      split
      next hnone => exact Or.inl ⟨by simpa using hnone.1, hnone.2, rfl⟩
      next => exact Or.inr rfl

omit [PyFloat F] in
/-- A dispatch that polls can only be cancelled. -/
theorem eq_of_afterInterrupt_polling {srv : AtlasServer F} {s : ServerState F} {f : Flight F}
    {timedOut : Bool} {now : ℚ} {waits : ℕ} {next : Progress F × ServerState F}
    (h : afterInterrupt srv s f timedOut now (.polling waits) = some next) :
    conclude srv s f (.error .cancelled) = next := by
  cases timedOut with
  | true => simp [afterInterrupt] at h
  | false => simpa [afterInterrupt] using h

end Pieces

/-- A server with its dispatches in flight.  The rest is a record the code
does not keep: the starts of `tool.run`, its results, and what dispatches
returned. -/
structure System (F : Type) where
  server : ServerState F
  inFlight : List (Flight F × Phase F) := []
  started : List (Flight F) := []
  executions : List (Flight F × ToolResult F) := []
  returned : List (Flight F × Value F) := []

/-- What happens next: a dispatch arrives; at place `i` of those in flight,
the tool ends, a wait ends, or the wait is interrupted; the cache is
invalidated; a human judges a call. -/
inductive Event (F : Type)
  | dispatch (ctx : RequestContext) (env : ToolCallEnvelope F) (clock : Clock)
  | ran (i : ℕ) (outcome : Except (Exc F) (ToolResult F)) (now : ℚ)
  | woke (i : ℕ) (now : ℚ)
  | interrupt (i : ℕ) (timedOut : Bool) (now : ℚ)
  | invalidateKey (key : String)
  | invalidateTool (tenant tool : String)
  | invalidateTenant (tenant : String)
  | judge (approvalId : String) (verdict : Verdict) (approver : String) (now : ℚ)

namespace System

variable [PyFloat F] [UnicodeDb]

/-- A new server. -/
def start (srv : AtlasServer F) : System F where
  server := srv.initial

/-- A dispatch goes on or ends. -/
def advance (t : System F) (f : Flight F) (next : Progress F × ServerState F) :
    System F :=
  match next with
  | (.suspended phase, server) =>
      { t with
        server
        inFlight := t.inFlight ++ [(f, phase)]
        started := match phase with
          | .running _ => t.started ++ [f]
          | _ => t.started }
  | (.ended (.ok v), server) => { t with server, returned := t.returned ++ [(f, v)] }
  | (.ended (.error _), server) => { t with server }

/-- A dispatch arrives. -/
def arrive (srv : AtlasServer F) (t : System F) (ctx : RequestContext)
    (env : ToolCallEnvelope F) (clock : Clock) : System F :=
  match (gates srv ctx env clock).run t.server with
  | (.error _, server) => { t with server }
  | (.ok (tool, args), server) =>
      let f := flightOf srv ctx env clock t.server tool args
      t.advance f (runObserved srv server f clock.now)

/-- The system without the dispatch at place `i`. -/
def without (t : System F) (i : ℕ) : System F :=
  { t with inFlight := t.inFlight.eraseIdx i }

/-- The tool ended; a result is an execution. -/
def toolEnded (srv : AtlasServer F) (t : System F) (f : Flight F) (a : Attempt)
    (outcome : Except (Exc F) (ToolResult F)) (now : ℚ) : System F :=
  let executions := match outcome with
    | .ok r => t.executions ++ [(f, r)]
    | .error _ => t.executions
  { t with executions }.advance f (afterRun srv t.server f a outcome now)

/-- The next event of the system: a call arrives, a tool ends, a dispatch
wakes up, or it is interrupted. -/
def step (srv : AtlasServer F) (t : System F) : Event F → Option (System F)
  | .dispatch ctx env clock => some (t.arrive srv ctx env clock)
  | .ran i outcome now =>
      match t.inFlight[i]? with
      | some (f, .running a) => some ((t.without i).toolEnded srv f a outcome now)
      | _ => none
  | .woke i now => do
      let (f, phase) ← t.inFlight[i]?
      let next ← afterSleep srv t.server f now phase
      return (t.without i).advance f next
  | .interrupt i timedOut now => do
      let (f, phase) ← t.inFlight[i]?
      let next ← afterInterrupt srv t.server f timedOut now phase
      return (t.without i).advance f next
  | .invalidateKey key => some
      { t with server := { t.server with cache := t.server.cache.invalidateKey key } }
  | .invalidateTool tenant tool => some
      { t with server :=
        { t.server with cache := (t.server.cache.invalidateTool tenant tool).2 } }
  | .invalidateTenant tenant => some
      { t with server :=
        { t.server with cache := (t.server.cache.invalidateTenant tenant).2 } }
  | .judge approvalId verdict approver now => some
      { t with server :=
        { t.server with
          approvals :=
            (transition (F := F) t.server.approvals approvalId verdict approver now).2 } }

/-- One event.  A dispatch goes on up to where it is suspended next, and the
others stay where they are. -/
def Step (srv : AtlasServer F) (t : System F) (e : Event F) (u : System F) : Prop :=
  t.step srv e = some u

variable {srv : AtlasServer F} {t u : System F} {i : ℕ} {now : ℚ}

theorem step_ran {outcome : Except (Exc F) (ToolResult F)}
    (h : t.Step srv (.ran i outcome now) u) :
    ∃ f a, t.inFlight[i]? = some (f, .running a) ∧
      u = (t.without i).toolEnded srv f a outcome now := by
  simp only [Step, step] at h
  split at h
  next f a hi => exact ⟨f, a, hi, (Option.some.inj h).symm⟩
  next => exact absurd h (by simp)

omit [PyFloat F] [UnicodeDb] in
/-- The dispatch at place `i` goes on as `g` says. -/
theorem of_resumed {g : Flight F → Phase F → Option (Progress F × ServerState F)}
    (h : (do
      let (f, phase) ← t.inFlight[i]?
      let next ← g f phase
      return (t.without i).advance f next) = some u) :
    ∃ f phase next, t.inFlight[i]? = some (f, phase) ∧ g f phase = some next ∧
      u = (t.without i).advance f next := by
  obtain ⟨f, phase, hi, next, hnext, hu⟩ : ∃ f phase, t.inFlight[i]? = some (f, phase) ∧
      ∃ next, g f phase = some next ∧ (t.without i).advance f next = u := by
    simpa [Option.bind_eq_some_iff] using h
  exact ⟨f, phase, next, hi, hnext, hu.symm⟩

/-- A dispatch that wakes up was suspended, and could go on. -/
theorem step_woke (h : t.Step srv (.woke i now) u) :
    ∃ f phase next, t.inFlight[i]? = some (f, phase) ∧
      afterSleep srv t.server f now phase = some next ∧ u = (t.without i).advance f next :=
  of_resumed (g := fun f phase => afterSleep srv t.server f now phase) h

/-- A dispatch that is interrupted was suspended, and could be. -/
theorem step_interrupt {timedOut : Bool} (h : t.Step srv (.interrupt i timedOut now) u) :
    ∃ f phase next, t.inFlight[i]? = some (f, phase) ∧
      afterInterrupt srv t.server f timedOut now phase = some next ∧
      u = (t.without i).advance f next :=
  of_resumed (g := fun f phase => afterInterrupt srv t.server f timedOut now phase) h

end System

end Server
