import AtlasMcp.AuditTrail
import AtlasMcp.DialogueEndings

/-!
# What is recorded of a call

`_run_observed` records a call as an error when a `ToolError` leaves it, and as ok otherwise.
Here the cache tiers, the lock, the codec, the tool and the event loop are the environment of
a call and may answer each question with any exception.  The breaker decides as in
`CircuitBreaker`, in whatever state the other calls have left it.  The counters of hits and
misses, which no outcome depends on, are left out, and appending to the file of the audit log is
taken to succeed.

An exception is foreign if it is no `ToolError`.  `truthful_iff` says when the record of a call
is true: exactly if its exchanges do not end in a foreign exception that is let through.
-/

namespace Server.ObservedCall

open PyJson PyText Errors Tools Auth Reliability Cache Dialogues

/-- What a call past its gates asks of its environment. -/
inductive Request (F : Type)
  | l1Get (key : String)
  | l1Set (key : String) (value : Value F) (ttlSeconds : ℤ)
  | l2Get (key : String)
  | l2Set (key value : String) (ttlSeconds : ℤ)
  | acquireLock (lockKey : String) (ttlMs : ℤ)
  | releaseLock (lockKey : String)
  | loads (raw : String)
  | dumps (value : Value F)
  | pollSleep (ms : ℤ)
  | timeoutFor (tool : String)
  | breaker (tool : String)
  | execute (tenant : String) (args : BaseModel F)
  | retrySleep (attempt : ℤ)
  | waitFor (timeoutS : ℚ)

/-- The breaker is found in some state at some time, and `wait_for` hands on
what its coroutine came to, or raises for itself. -/
abbrev Request.Answer {F : Type} : Request F → Type
  | .l1Get _ => Except (Exc F) (Value F)
  | .l1Set _ _ _ => Except (Exc F) Unit
  | .l2Get _ => Except (Exc F) (Option String)
  | .l2Set _ _ _ => Except (Exc F) Unit
  | .acquireLock _ _ => Except (Exc F) Bool
  | .releaseLock _ => Except (Exc F) Unit
  | .loads _ => Except (Exc F) (Value F)
  | .dumps _ => Except (Exc F) String
  | .pollSleep _ => Except (Exc F) Unit
  | .timeoutFor _ => ℚ
  | .breaker _ => CircuitBreaker × ℚ
  | .execute _ _ => Except (Exc F) (ToolResult F)
  | .retrySleep _ => Except (Exc F) Unit
  | .waitFor _ => Except (Exc F) Unit

/-- A call of the server, which asks its tool, the tiers of its cache and its
lock, and may raise. -/
abbrev Call (F α : Type) : Type := Program (Request F) Request.Answer (Exc F) α

variable {F : Type}

/-! ## The cache -/

section Caching

variable (settings : ServerSettings) (key : String)

/-- `CacheManager.get`. -/
def cacheGet : Call F (Value F) := do
  match ← Program.asking (.l1Get key) id with
  | .none =>
      match ← Program.asking (.l2Get key) id with
      | none => return .none
      | some raw => do
          let value ← Program.asking (.loads raw) id
          Program.asking (.l1Set key value settings.cacheL1TtlSeconds) id
          return value
  | hit => return hit

/-- `CacheManager.set`. -/
def cacheSet (value : Value F) (ttl : ℤ) : Call F Unit := do
  let ttlL2 := if ttl ≠ 0 then ttl else settings.cacheL2TtlSeconds
  Program.asking (.l1Set key value (min ttlL2 settings.cacheL1TtlSeconds)) id
  let text ← Program.asking (.dumps value) id
  Program.asking (.l2Set key text ttlL2) id

/-- The value is computed, and stored for the next one who asks. -/
def computeAndSet (compute : Call F (Value F)) (ttl : ℤ) : Call F (Value F) := do
  let value ← compute
  cacheSet settings key value ttl
  return value

/-- Wait for the holder of the lock, this many times at most. -/
def poll (compute : Call F (Value F)) (ttl : ℤ) : ℕ → Call F (Value F)
  | 0 => computeAndSet settings key compute ttl
  | waits + 1 => do
      Program.asking (.pollSleep CacheManager.stampedeWaitMs) id
      match ← cacheGet settings key with
      | .none => poll compute ttl waits
      | hit => return hit

/-- `CacheManager.get_or_compute`. -/
def getOrCompute (compute : Call F (Value F)) (ttl : ℤ) : Call F (Value F) := do
  match ← cacheGet settings key with
  | .none => do
      let lockKey := key ++ ":lock"
      let acquired ← Program.asking (.acquireLock lockKey CacheManager.stampedeLockTtlMs) id
      if acquired then
        Program.ensuring (computeAndSet settings key compute ttl)
          (Program.asking (.releaseLock lockKey) id)
      else poll settings key compute ttl CacheManager.stampedeMaxWaits
  | hit => return hit

end Caching

/-! ## The tool -/

section Reliability

variable (settings : ServerSettings) (env : ToolCallEnvelope F) (tool : Tool F)
  (args : BaseModel F)

/-- `_run`. -/
def run : Call F (ToolResult F) := Program.asking (.execute env.tenant args) (normalised env)

/-- `with_retry` before this attempt, with so many left. -/
def withRetry (attempt : ℤ) : ℕ → Call F (ToolResult F)
  | 0 => throw (.other "AssertionError")
  | left + 1 => Program.catching (run env args) fun
      | .tool e =>
          if e.retryable = false ∨ left = 0 then throw (.tool e)
          else do
            Program.asking (.retrySleep attempt) id
            withRetry (attempt + 1) left
      | exc => throw exc

/-- `_guarded`. -/
def guarded : Call F (ToolResult F) :=
  if tool.metadata.destructive then run env args
  else withRetry env args 1 settings.retryMaxAttempts.toNat

variable [UnicodeDb]

/-- `breaker.call(_guarded)`; what the breaker hears of it changes nothing
here. -/
def breakerCall : Call F (ToolResult F) := do
  let (b, now) ← Program.asking (.breaker tool.metadata.name) .ok
  match (b.enter now).1 with
  | none => throw (.tool b.rejection)
  | some _ => guarded settings env tool args

/-- `_execute_reliably`. -/
def executeReliably : Call F (Value F) := do
  let timeoutS ← Program.asking (.timeoutFor tool.metadata.name) .ok
  let result ← Program.catching
    (Program.ensuring (breakerCall settings env tool args)
      (Program.asking (.waitFor timeoutS) id)) fun
    | .other typeName =>
        if typeName = "TimeoutError" then
          throw (.tool (timeoutError tool.metadata.name ⌊timeoutS * 1000⌋))
        else throw (.other typeName)
    | exc => throw exc
  return .dict result.val

end Reliability

/-! ## The record -/

/-- How a call ended, and what was recorded of it: the labels of the counter
of calls, and the line of the audit log. -/
structure Observed (F : Type) where
  outcome : Except (Exc F) (Value F)
  callsTotal : String × String
  event : Option AuditEvent

section Observe

variable [PyFloat F] [UnicodeDb] (settings : ServerSettings) (env : ToolCallEnvelope F)
  (tool : Tool F) (args : BaseModel F) (durationMs : ℚ) (ts : String)

/-- The `finally` block of `_run_observed`. -/
def observe (outcome : Except (Exc F) (Value F)) : Observed F where
  outcome
  callsTotal := (tool.metadata.name, (auditStatus outcome).1)
  event :=
    if settings.auditEnabled then some (auditEvent env tool durationMs outcome ts) else none

/-- The `try` block of `_run_observed`. -/
def observed : Call F (Value F) :=
  if settings.cacheEnabled ∧ tool.metadata.cacheable then
    getOrCompute settings (tool.cacheKey env.tenant args)
      (executeReliably settings env tool args) tool.metadata.cacheTtlSeconds
  else executeReliably settings env tool args

/-- `_run_observed`. -/
def runObserved : Dialogue (Request F) Request.Answer (Observed F) :=
  (ExceptT.run (observed settings env tool args)).bind fun outcome =>
    .done (observe settings env tool durationMs ts outcome)

end Observe

/-! ## When the record is true -/

/-- No `ToolError`. -/
def Foreign : Exc F → Prop
  | .tool _ => False
  | _ => True

/-- Inside `wait_for` a `TimeoutError` does not count: `call_with_budget`
turns it into a `ToolError`. -/
def ForeignInside : Exc F → Prop
  | .tool _ => False
  | .cancelled => True
  | .other typeName => typeName ≠ "TimeoutError"

/-- The exchange raises an exception that nothing turns into a `ToolError`:
what the tool raises is turned into one unless it is a cancellation.  A retry
loop that allows no attempt raises as soon as the breaker lets the call
through. -/
def Raises (settings : ServerSettings) (tool : Tool F) :
    Exchange (Request F) Request.Answer → Prop
  | ⟨.l1Get _, answer⟩ => EndedBad Foreign answer
  | ⟨.l1Set _ _ _, answer⟩ => EndedBad Foreign answer
  | ⟨.l2Get _, answer⟩ => EndedBad Foreign answer
  | ⟨.l2Set _ _ _, answer⟩ => EndedBad Foreign answer
  | ⟨.acquireLock _ _, answer⟩ => EndedBad Foreign answer
  | ⟨.releaseLock _, answer⟩ => EndedBad Foreign answer
  | ⟨.loads _, answer⟩ => EndedBad Foreign answer
  | ⟨.dumps _, answer⟩ => EndedBad Foreign answer
  | ⟨.pollSleep _, answer⟩ => EndedBad Foreign answer
  | ⟨.timeoutFor _, _⟩ => False
  | ⟨.breaker _, (b, now)⟩ => (b.enter now).1 ≠ none ∧ tool.metadata.destructive = false ∧
      settings.retryMaxAttempts ≤ 0
  | ⟨.execute _ _, answer⟩ => answer = .error .cancelled
  | ⟨.retrySleep _, answer⟩ => EndedBad ForeignInside answer
  | ⟨.waitFor _, answer⟩ => EndedBad ForeignInside answer

/-- The exchange lets through what came before. -/
def Cleans : Exchange (Request F) Request.Answer → Prop
  | ⟨.releaseLock _, answer⟩ => answer = .ok ()
  | ⟨.waitFor _, answer⟩ => answer = .ok ()
  | _ => False

section Endings

variable {settings : ServerSettings} {tool : Tool F} {key : String} {ttl : ℤ}
  {env : ToolCallEnvelope F} {args : BaseModel F}

/-- The exchanges of a part of a call show whether it raised an exception of
this kind. -/
abbrev Tells (settings : ServerSettings) (tool : Tool F) {α : Type} (bad : Exc F → Prop)
    (p : Call F α) : Prop :=
  Told (Raises settings tool) Cleans bad p

theorem tells_cacheGet : Tells settings tool Foreign (cacheGet (F := F) settings key) := by
  refine .bind (.asking fun _ => Iff.rfl) fun hit => ?_
  cases hit with
  | none =>
      refine .bind (.asking fun _ => Iff.rfl) fun raw => ?_
      cases raw with
      | none => exact .pure _
      | some raw =>
          exact .bind (.asking fun _ => Iff.rfl) fun value =>
            .bind (.asking fun _ => Iff.rfl) fun _ => .pure _
  | _ => exact .pure _

/-- Computing and storing tells of what it asks, if the computation does. -/
theorem tells_computeAndSet {compute : Call F (Value F)}
    (hcompute : Tells settings tool Foreign compute) :
    Tells settings tool Foreign (computeAndSet settings key compute ttl) :=
  .bind hcompute fun _ =>
    .bind (.bind (.asking fun _ => Iff.rfl) fun _ =>
      .bind (.asking fun _ => Iff.rfl) fun _ => .asking fun _ => Iff.rfl) fun _ => .pure _

/-- The induction is on the waits that remain. -/
theorem tells_poll {compute : Call F (Value F)}
    (hcompute : Tells settings tool Foreign compute) (waits : ℕ) :
    Tells settings tool Foreign (poll settings key compute ttl waits) := by
  induction waits with
  | zero => exact tells_computeAndSet hcompute
  | succ waits ih =>
      refine .bind (.asking fun _ => Iff.rfl) fun _ => .bind tells_cacheGet fun hit => ?_
      cases hit with
      | none => exact ih
      | _ => exact .pure _

/-- So does computing behind the lock, for the one who has it and for the ones
who wait. -/
theorem tells_getOrCompute {compute : Call F (Value F)}
    (hcompute : Tells settings tool Foreign compute) :
    Tells settings tool Foreign (getOrCompute settings key compute ttl) := by
  refine .bind tells_cacheGet fun hit => ?_
  cases hit with
  | none =>
      refine .bind (.asking fun _ => Iff.rfl) fun acquired => ?_
      cases acquired with
      | false => exact tells_poll hcompute _
      | true =>
          refine .ensuring (tells_computeAndSet hcompute) (fun answer hok => ?_)
            fun answer e herror => ?_
          · obtain rfl : answer = .ok () := hok
            exact ⟨rfl, not_endedBad_ok⟩
          · obtain rfl : answer = .error e := herror
            exact ⟨nofun, endedBad_error_iff⟩
  | _ => exact .pure _

/-- What the tool raises becomes a `ToolError`, except a cancellation. -/
theorem tells_run : Tells settings tool ForeignInside (run env args) := by
  refine .asking fun answer => ?_
  rcases answer with (e | _ | typeName) | result
  · exact iff_of_false nofun (by simp [normalised, ForeignInside])
  · exact iff_of_true rfl (endedBad_error_iff.mpr trivial)
  · exact iff_of_false nofun (by simp [normalised, ForeignInside])
  · exact iff_of_false nofun not_endedBad_ok

/-- The induction is on the attempts that are left; the last one raises what
it ended with. -/
theorem tells_withRetry (attempt : ℤ) (left : ℕ) :
    Tells settings tool ForeignInside (withRetry env args attempt (left + 1)) := by
  induction left generalizing attempt with
  | zero =>
      refine .catching tells_run (fun e he => ?_) fun e he => ?_
      · cases e with
        | tool e => exact absurd he id
        | cancelled => exact ⟨_, rfl, he⟩
        | other typeName => exact ⟨_, rfl, he⟩
      · cases e with
        | tool e =>
            simp only [or_true, if_true]
            exact .throw id
        | cancelled => exact absurd trivial he
        | other typeName => exact .throw he
  | succ left ih =>
      refine .catching tells_run (fun e he => ?_) fun e he => ?_
      · cases e with
        | tool e => exact absurd he id
        | cancelled => exact ⟨_, rfl, he⟩
        | other typeName => exact ⟨_, rfl, he⟩
      · cases e with
        | tool e =>
            simp only
            split
            · exact .throw id
            · exact .bind (.asking fun _ => Iff.rfl) fun _ => ih _
        | cancelled => exact absurd trivial he
        | other typeName => exact .throw he

/-- Unless no attempt is allowed, the loop is entered. -/
theorem tells_guarded
    (h : ¬ (tool.metadata.destructive = false ∧ settings.retryMaxAttempts ≤ 0)) :
    Tells settings tool ForeignInside (guarded settings env tool args) := by
  unfold guarded
  split
  · exact tells_run
  next hsafe =>
    have hpos : 0 < settings.retryMaxAttempts := by
      by_contra hnot
      exact h ⟨by simpa using hsafe, not_lt.mp hnot⟩
    obtain ⟨left, hleft⟩ : ∃ left, settings.retryMaxAttempts.toNat = left + 1 :=
      ⟨settings.retryMaxAttempts.toNat - 1, by omega⟩
    rw [hleft]
    exact tells_withRetry 1 left

variable [UnicodeDb]

/-- The breaker rejects the call with a `ToolError`, or lets it through. -/
theorem tells_breakerCall :
    Tells settings tool ForeignInside (breakerCall settings env tool args) := by
  intro l r h
  rcases Program.talk_bind_iff.mp h with ⟨e, hask, rfl⟩ | ⟨⟨b, now⟩, first, rest, rfl, hask, hrest⟩
  · obtain ⟨answer, -, habsurd⟩ := Program.talk_asking_iff.mp hask
    cases habsurd
  obtain ⟨answer, rfl, hanswer⟩ := Program.talk_asking_iff.mp hask
  obtain rfl : (b, now) = answer := by simpa using hanswer
  rw [endsIn_append_iff, endsIn_singleton_iff]
  simp only at hrest
  cases henter : (b.enter now).1 with
  | none =>
      rw [henter] at hrest
      obtain ⟨rfl, rfl⟩ := Program.talk_throw_iff.mp hrest
      have hnot : ¬ Raises settings tool ⟨.breaker tool.metadata.name, (b, now)⟩ :=
        fun hraises => hraises.1 henter
      simp [hnot, ForeignInside]
  | some admission =>
      rw [henter] at hrest
      have hiff : Raises settings tool ⟨.breaker tool.metadata.name, (b, now)⟩ ↔
          tool.metadata.destructive = false ∧ settings.retryMaxAttempts ≤ 0 :=
        and_iff_right (by simp [henter])
      rw [hiff]
      by_cases hnone : tool.metadata.destructive = false ∧ settings.retryMaxAttempts ≤ 0
      · have hguarded : guarded settings env tool args =
            (throw (.other "AssertionError") : Call F (ToolResult F)) := by
          rw [guarded, if_neg (by simp [hnone.1]), Int.toNat_of_nonpos hnone.2, withRetry]
        rw [hguarded] at hrest
        obtain ⟨rfl, rfl⟩ := Program.talk_throw_iff.mp hrest
        simp [hnone, ForeignInside]
      · rw [tells_guarded hnone rest r hrest]
        simp [hnone]

/-- Past `wait_for` a `TimeoutError` is a `ToolError`. -/
theorem tells_executeReliably :
    Tells settings tool Foreign (executeReliably settings env tool args) := by
  have hwaited (timeoutS : ℚ) : Tells settings tool ForeignInside
      (Program.ensuring (breakerCall settings env tool args)
        (Program.asking (.waitFor timeoutS) id)) := by
    refine .ensuring tells_breakerCall (fun answer hok => ?_) fun answer e herror => ?_
    · obtain rfl : answer = .ok () := hok
      exact ⟨rfl, not_endedBad_ok⟩
    · obtain rfl : answer = .error e := herror
      exact ⟨nofun, endedBad_error_iff⟩
  refine .bind (.asking fun _ => iff_of_false id not_endedBad_ok) fun timeoutS =>
    .bind (.catching (hwaited timeoutS) (fun e he => ?_) fun e he => ?_) fun _ => .pure _
  · cases e with
    | tool e => exact absurd he id
    | cancelled => exact ⟨_, rfl, trivial⟩
    | other typeName => exact ⟨_, if_neg he, trivial⟩
  · cases e with
    | tool e => exact .throw id
    | cancelled => exact absurd trivial he
    | other typeName =>
        simp only [if_pos (not_not.mp he)]
        exact .throw id

variable [PyFloat F]

/-- The whole call tells of what it asks: that is what its line in the audit
log is to be true of. -/
theorem tells_observed : Tells settings tool Foreign (observed settings env tool args) := by
  unfold observed
  split
  · exact tells_getOrCompute tells_executeReliably
  · exact tells_executeReliably

/-- The counter of calls and the audit log say "ok" of a call that returned a
result, and "error" with a code of any other. -/
structure Truthful (o : Observed F) : Prop where
  counted : o.callsTotal.2 = if Returns o.outcome then "ok" else "error"
  logged : ∀ event, o.event = some event →
    event.status = (if Returns o.outcome then "ok" else "error") ∧
      (¬ Returns o.outcome → ∃ code, event.errorCode = some code)

variable {durationMs : ℚ} {ts : String}

omit [UnicodeDb] in
/-- Only a `ToolError` is recorded as an error. -/
theorem truthful_observe_iff {outcome : Except (Exc F) (Value F)} :
    Truthful (observe settings env tool durationMs ts outcome) ↔
      ¬ EndedBad Foreign outcome := by
  have hlogged (h : (auditStatus outcome).1 = if Returns outcome then "ok" else "error")
      (hcode : ¬ Returns outcome → ∃ code, (auditStatus outcome).2 = some code) :
      Truthful (observe settings env tool durationMs ts outcome) := by
    refine ⟨h, fun event hevent => ?_⟩
    simp only [observe] at hevent
    split at hevent
    · cases hevent
      exact ⟨h, hcode⟩
    · cases hevent
  rcases outcome with (e | _ | typeName) | v
  · rw [endedBad_error_iff]
    exact iff_of_true (hlogged rfl fun _ => ⟨e.code, rfl⟩) id
  · rw [endedBad_error_iff]
    exact iff_of_false (fun h => absurd h.counted (by decide : ¬ "ok" = "error"))
      (not_not_intro trivial)
  · rw [endedBad_error_iff]
    exact iff_of_false (fun h => absurd h.counted (by decide : ¬ "ok" = "error"))
      (not_not_intro trivial)
  · exact iff_of_true (hlogged rfl fun habsurd => absurd trivial habsurd) not_endedBad_ok

/-- **When the record is true.**  It is, exactly if the exchanges of the call
do not end in a foreign exception: an exception of a cache tier, the lock or
the codec, a cancellation, or the assertion of a retry loop without an
attempt, with nothing after it but a release of the lock and an end of
`wait_for` that let it through. -/
theorem truthful_iff {l : List (Exchange (Request F) Request.Answer)} {o : Observed F}
    (h : Dialogue.Talk (runObserved settings env tool args durationMs ts) l o) :
    Truthful o ↔ ¬ EndsIn (Raises settings tool) Cleans l := by
  obtain ⟨outcome, first, rest, rfl, hcall, hdone⟩ := Dialogue.talk_bind_iff.mp h
  obtain ⟨rfl, rfl⟩ := Dialogue.talk_done_iff.mp hdone
  rw [List.append_nil, truthful_observe_iff, tells_observed first outcome hcall]

end Endings

section Examples

/-- A tool that is cached, and a call of it. -/
def orders : Tool WholeFloat where
  metadata := { name := "postgres.query" }
  inputSchema := fun _ => .ok .empty

/-- A call for the orders of a customer. -/
def ordersCall : ToolCallEnvelope WholeFloat where
  tool := "postgres.query"
  arguments := []
  tenant := "acme"
  caller := "agent:support"

/-- The key under which its result is stored. -/
def ordersKey : String := orders.cacheKey "acme" .empty

/-- The call is answered by L1. -/
theorem hit_recorded : Truthful
    (observe {} ordersCall orders 1 "2026-01-01T00:00:00+00:00" (.ok (.int 1))) := by
  have htalk : Dialogue.Talk
      (runObserved {} ordersCall orders .empty 1 "2026-01-01T00:00:00+00:00")
      [⟨.l1Get ordersKey, .ok (.int 1)⟩]
      (observe {} ordersCall orders 1 "2026-01-01T00:00:00+00:00" (.ok (.int 1))) :=
    .ask (.done _)
  rw [truthful_iff htalk, endsIn_singleton_iff]
  exact not_endedBad_ok

/-- Redis is down.  The caller gets a `ConnectionError`, which is recorded as
"ok". -/
theorem outage_recorded_ok :
    ∃ (l : List (Exchange (Request WholeFloat) Request.Answer)) (o : Observed WholeFloat),
      Dialogue.Talk (runObserved {} ordersCall orders .empty 1 "2026-01-01T00:00:00+00:00") l o ∧
      o.outcome = .error (.other "ConnectionError") ∧
      o.callsTotal = ("postgres.query", "ok") ∧ o.event.map AuditEvent.status = some "ok" ∧
      ¬ Truthful o := by
  refine ⟨[⟨.l1Get ordersKey, .ok .none⟩, ⟨.l2Get ordersKey, .error (.other "ConnectionError")⟩],
    _, .ask (.ask (.done _)), rfl, rfl, rfl, fun h => ?_⟩
  exact absurd h.counted (by decide)

end Examples

end Server.ObservedCall
