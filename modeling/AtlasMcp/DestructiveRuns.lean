import AtlasMcp.ApprovedCalls

/-!
# A destructive call runs once

A dispatch of a destructive tool is to run the tool once if it returns, and at most once
if it raises.  No retry repeats the call, and no fallback of the cache does; but the
cache is asked for its result like for that of any other tool, and a result it still has
is returned without a run.

`ran_once_iff` says that there is nothing else: a run is free of this if and only if no
dispatch of a destructive tool finds a value in the cache.
-/

namespace Server

open PyJson PyText Errors Tools Auth Governance RateLimit Reliability Cache FallibleState
open GuardedRuns

variable {F : Type}

/-- The starts of a tool that is not retried, by where its dispatch waits. -/
def Phase.RunsOnce (n : ℕ) : Phase F → Prop
  | .polling _ | .starting _ => n = 0
  | .running _ => n = 1
  | .backoff _ => False
  | .ending _ (.ok _) => n = 1
  | .ending _ (.error _) => n ≤ 1

/-- A destructive dispatch runs once if it returns, and at most once if it
raises; `hits` says whether it may return without a run what the cache has
stored. -/
def RunsOnce (hits : Prop) (f : Flight F) (n : ℕ) (next : Progress F) : Prop :=
  f.tool.metadata.destructive = true → match next with
    | .suspended phase => phase.RunsOnce n
    | .ended (.ok _) => n = 1 ∨ hits ∧ n = 0
    | .ended (.error _) => n ≤ 1

section Pieces

variable [PyFloat F] {srv : AtlasServer F} {s : ServerState F} {f : Flight F} {now : ℚ}
  {n : ℕ} {hits : Prop}

/-- A dispatch that finds a value returns it. -/
theorem readCache_of_stored (srv : AtlasServer F) (f : Flight F) {key : String}
    (miss : ServerState F → Progress F × ServerState F) (h : s.cache.Stored key now) :
    ∃ v, (readCache srv s f key now miss).1 = .ended (.ok v) := by
  obtain ⟨v, hv, hget⟩ := CacheManager.stored_iff.mp h
  rcases hread : s.cache.get key now with ⟨hit, cache⟩
  obtain rfl : hit = .ok v := by simpa [hread] using hget
  refine ⟨v, ?_⟩
  cases v <;> first | exact absurd rfl hv | simp [readCache, hread, conclude]

/-- One that finds none raises or goes on as on a miss. -/
theorem readCache_of_not_stored (srv : AtlasServer F) (f : Flight F) {key : String}
    (miss : ServerState F → Progress F × ServerState F) (h : ¬ s.cache.Stored key now) :
    (∃ exc, (readCache srv s f key now miss).1 = .ended (.error exc)) ∨
      ∃ s', readCache srv s f key now miss = miss s' := by
  rcases hread : s.cache.get key now with ⟨exc | v, cache⟩
  · exact Or.inl ⟨exc, by simp [readCache, hread, conclude]⟩
  · have hnone : v = .none := by
      by_contra hv
      exact h (CacheManager.stored_iff.mpr ⟨v, hv, by rw [hread]⟩)
    subst hnone
    exact Or.inr ⟨{ s with cache }, by simp only [readCache, hread]⟩

omit [PyFloat F] in
theorem runsOnce_finishAttempt (hits : Prop) (srv : AtlasServer F) (s : ServerState F)
    (f : Flight F) (a : Attempt) (outcome result : Except (Exc F) (ToolResult F)) (now : ℚ) :
    RunsOnce hits f 1 (finishAttempt srv s f a outcome result now).1 := by
  intro _
  cases result with
  | ok r => rfl
  | error exc => exact le_refl 1

/-- A read that finds a value returns it, and any other leaves the tool to be
run. -/
theorem runsOnce_readCache {key : String} {miss : ServerState F → Progress F × ServerState F}
    (h : f.tool.metadata.destructive = true → s.cache.Stored key now → hits)
    (hmiss : ∀ s, RunsOnce hits f (miss s).1.starts (miss s).1) :
    RunsOnce hits f (readCache srv s f key now miss).1.starts
      (readCache srv s f key now miss).1 := by
  intro hf
  by_cases hstored : s.cache.Stored key now
  · obtain ⟨v, hv⟩ := readCache_of_stored srv f miss hstored
    rw [hv]
    exact Or.inr ⟨h hf hstored, rfl⟩
  · rcases readCache_of_not_stored srv f miss hstored with ⟨exc, hexc⟩ | ⟨s', hs'⟩
    · rw [hexc]
      exact Nat.zero_le 1
    · rw [hs']
      exact hmiss s' hf

omit [PyFloat F] in
/-- What is executed runs once before it is suspended. -/
theorem runsOnce_execute {locked : Bool} :
    RunsOnce hits f (execute srv s f locked now).1.starts (execute srv s f locked now).1 :=
  fun _ => rfl

/-- What comes after the gates runs once, or is answered from the cache. -/
theorem runsOnce_runObserved
    (h : ∀ key, f.key = some key → f.tool.metadata.destructive = true →
      s.cache.Stored key now → hits) :
    RunsOnce hits f (runObserved srv s f now).1.starts (runObserved srv s f now).1 := by
  cases hkey : f.key with
  | none =>
      simp only [runObserved, hkey]
      exact runsOnce_execute
  | some key =>
      simp only [runObserved, hkey]
      apply runsOnce_readCache (h key hkey)
      intro s
      split
      · exact runsOnce_execute
      · exact fun _ => rfl

omit [PyFloat F] in
/-- The end of the tool's one run: a destructive call is not tried again. -/
theorem runsOnce_afterRun {a : Attempt} {outcome : Except (Exc F) (ToolResult F)} :
    RunsOnce hits f (1 + (afterRun srv s f a outcome now).1.starts)
      (afterRun srv s f a outcome now).1 := by
  intro hf
  have hlast : ¬ retries srv f a (normalised f.envelope outcome) := by
    rcases normalised f.envelope outcome with (e | _ | typeName) | r <;>
      simp [retries, hf]
  have hend : afterRun srv s f a outcome now = finishAttempt srv s f a
      (normalised f.envelope outcome) (normalised f.envelope outcome) now := if_neg hlast
  have honce := runsOnce_finishAttempt hits srv s f a (normalised f.envelope outcome)
    (normalised f.envelope outcome) now
  rw [hend]
  exact honce hf

omit [PyFloat F] in
/-- The call that starts runs the tool for the first time. -/
theorem runsOnce_startCall [UnicodeDb] {c : Budgeted} :
    RunsOnce hits f (startCall srv s f c now).1.starts (startCall srv s f c now).1 := by
  intro hf
  obtain ⟨admission, b, -, ⟨-, hstart⟩ | ⟨admitted, -, ⟨hsafe, -, -⟩ | hstart⟩⟩ :=
    startCall_cases srv s f c now
  · rw [hstart]
    exact Nat.zero_le 1
  · rw [hf] at hsafe
    cases hsafe
  · rw [hstart]
    rfl

theorem runsOnce_resume {c : Budgeted} {result : Except (Exc F) (ToolResult F)}
    (h : RunsOnce hits f n (.suspended (.ending c result))) :
    RunsOnce hits f (n + (resume srv s f c result now).1.starts)
      (resume srv s f c result now).1 := by
  intro hf
  have hcount := h hf
  rw [resume_progress]
  cases result with
  | ok r => exact Or.inl hcount
  | error exc => exact hcount

/-- What wakes up has run no more than once, or is answered from the cache. -/
theorem runsOnce_afterSleep [UnicodeDb] {phase : Phase F}
    {next : Progress F × ServerState F} (h : RunsOnce hits f n (.suspended phase))
    (hnext : afterSleep srv s f now phase = some next)
    (hmiss : ∀ waits key, phase = .polling waits → f.key = some key →
      f.tool.metadata.destructive = true → s.cache.Stored key now → hits) :
    RunsOnce hits f (n + next.1.starts) next.1 := by
  intro hf
  have hcount := h hf
  cases phase with
  | running a => simp [afterSleep] at hnext
  | backoff a => exact absurd hcount id
  | starting c =>
      obtain rfl : n = 0 := hcount
      obtain rfl := Option.some.inj hnext
      rw [Nat.zero_add]
      exact runsOnce_startCall hf
  | ending c result =>
      obtain rfl := Option.some.inj hnext
      exact runsOnce_resume h hf
  | polling waits =>
      obtain rfl : n = 0 := hcount
      obtain ⟨key, hkey, rfl⟩ := Option.map_eq_some_iff.mp hnext
      rw [Nat.zero_add]
      refine runsOnce_readCache (hmiss waits key rfl hkey) (fun s => ?_) hf
      split
      · exact fun _ => rfl
      · exact runsOnce_execute

omit [PyFloat F] in
theorem runsOnce_afterInterrupt [UnicodeDb] {timedOut : Bool} {phase : Phase F}
    {next : Progress F × ServerState F} (h : RunsOnce hits f n (.suspended phase))
    (hnext : afterInterrupt srv s f timedOut now phase = some next) :
    RunsOnce hits f (n + next.1.starts) next.1 := by
  intro hf
  have hcount := h hf
  cases phase with
  | ending c result => simp [afterInterrupt] at hnext
  | backoff a => exact absurd hcount id
  | starting c =>
      obtain rfl : n = 0 := hcount
      obtain rfl := Option.some.inj hnext
      exact Nat.zero_le 1
  | running a =>
      obtain rfl : n = 1 := hcount
      obtain rfl := Option.some.inj hnext
      have honce := runsOnce_finishAttempt hits srv s f a (.error .cancelled)
        (.error (interruption f a.toBudgeted timedOut)) now
      exact honce hf
  | polling waits =>
      obtain rfl : n = 0 := hcount
      obtain rfl := eq_of_afterInterrupt_polling hnext
      exact Nat.zero_le 1

end Pieces

namespace Ledger

variable [PyFloat F] [UnicodeDb] {srv : AtlasServer F} {l l' : Ledger F} {e : Event F}

/-- With the event, the dispatch reads the cache: it arrives, or polls.  These
are the only moments at which it may be answered without a run. -/
def ReadsCache (srv : AtlasServer F) (t : System F) (e : Event F) (f : Flight F)
    (key : String) (now : ℚ) : Prop :=
  f.key = some key ∧ ((∃ s, Arrives srv t.server e f s ∧ now = f.clock.now) ∨
    ∃ i waits, e = .woke i now ∧ t.inFlight[i]? = some (f, .polling waits))

/-- Every dispatch of a destructive tool that has ended ran the tool once if
it returned, and at most once if it raised. -/
def RanOnce (_ : Ledger F) (_ : Event F) (l' : Ledger F) : Prop :=
  ∀ x ∈ l'.ended, x.flight.tool.metadata.destructive = true →
    x.starts ≤ 1 ∧ ∀ v, x.result = .ok v → x.starts = 1

/-- No dispatch of a destructive tool finds a value in the cache, whenever it
reads. -/
def NoStoredResult (srv : AtlasServer F) (l : Ledger F) (e : Event F) (_ : Ledger F) : Prop :=
  ∀ f key now, ReadsCache srv l.system e f key now → f.tool.metadata.destructive = true →
    ¬ l.system.server.cache.Stored key now

/-- The gates leave the cache as it was. -/
theorem cache_of_arrives {s s' : ServerState F} {f : Flight F} (h : Arrives srv s e f s') :
    s'.cache = s.cache := by
  obtain ⟨ctx, env, clock, tool, args, -, hgates, -⟩ := h
  exact cache_of_gates hgates

/-- Every event keeps the counts right. -/
theorem runsOnce_step {hits : Prop} (hl : l.Holds (RunsOnce hits)) (h : l.Step srv e l')
    (hstored : ∀ f key now, ReadsCache srv l.system e f key now →
      f.tool.metadata.destructive = true → l.system.server.cache.Stored key now → hits) :
    l'.Holds (RunsOnce hits) := by
  apply hl.step h
  · intro f s harrives
    apply runsOnce_runObserved
    intro key hkey hf
    rw [cache_of_arrives harrives]
    exact hstored f key _ ⟨hkey, Or.inl ⟨s, harrives, rfl⟩⟩ hf
  · intro i f n phase next hcount hgoes
    obtain ⟨hi, ⟨a, outcome, now, rfl, rfl, rfl⟩ | ⟨now, rfl, hnext⟩ |
      ⟨timedOut, now, rfl, hnext⟩⟩ := hgoes
    · intro hf
      obtain rfl : n = 1 := hcount hf
      exact runsOnce_afterRun hf
    · apply runsOnce_afterSleep hcount hnext
      intro waits key hphase hkey hf
      exact hstored f key now ⟨hkey, Or.inr ⟨i, waits, rfl, hphase ▸ hi⟩⟩ hf
    · exact runsOnce_afterInterrupt hcount hnext

omit [PyFloat F] [UnicodeDb] in
theorem le_one_of_runsOnce {hits : Prop} {f : Flight F} {n : ℕ} {next : Progress F}
    (h : RunsOnce hits f n next) (hf : f.tool.metadata.destructive = true) : n ≤ 1 := by
  have hcount := h hf
  rcases next with phase | exc | v
  · rcases phase with _ | _ | _ | _ | ⟨c, exc | r⟩ <;> simp only [Phase.RunsOnce] at hcount <;>
      omega
  · exact hcount
  · rcases hcount with hone | ⟨-, hzero⟩ <;> omega

/-- **In every run a destructive dispatch runs at most once.** -/
theorem runs_at_most_once {s : ServerState F} {events : List (Event F)}
    (hrun : Run (Step srv) (ofState s) events l) :
    ∀ d ∈ l.dispatches, d.1.tool.metadata.destructive = true → d.2 ≤ 1 := by
  have hl : l.Holds (RunsOnce True) :=
    hrun.invariant (holds_ofState s) fun _ _ _ hl hstep =>
      runsOnce_step hl hstep fun _ _ _ _ _ _ => trivial
  intro d hd
  exact Holds.of_mem_dispatches (hl.imp fun _ _ _ h => le_one_of_runsOnce h) hd

/-- A destructive dispatch that finds a value returns it without a run. -/
theorem noStoredResult_of_ranOnce (hl : l.Holds (RunsOnce False)) (h : l.Step srv e l')
    (honce : RanOnce l e l') : NoStoredResult srv l e l' := by
  intro f key now hreads hf hstored
  obtain ⟨hkey, ⟨s, harrives, rfl⟩ | ⟨i, waits, rfl, hi⟩⟩ := hreads
  · rw [← cache_of_arrives harrives] at hstored
    obtain ⟨v, hv⟩ : ∃ v, (runObserved srv s f f.clock.now).1 = .ended (.ok v) := by
      simp only [runObserved, hkey]
      exact readCache_of_stored srv f _ hstored
    have hmoved := System.moved_of_arrives harrives
    have hone : 0 = 1 := (honce _ (ended_of_moved h hmoved hv) hf).2 v rfl
    cases hone
  · obtain ⟨n, hn⟩ := hl.counted hi
    obtain rfl : n = 0 := hl.waiting _ (List.mem_of_getElem? hn) hf
    obtain ⟨next, hnext, v, hv⟩ : ∃ next,
        afterSleep srv l.system.server f now (.polling waits) = some next ∧
          ∃ v, next.1 = .ended (.ok v) := by
      simp only [afterSleep, hkey, Option.map_some, Option.some.injEq, exists_eq_left']
      exact readCache_of_stored srv f _ hstored
    have hmoved := System.moved_of_woke hi hnext
    have hone := (honce _ (ended_of_moved h hmoved hv) hf).2 v rfl
    simp [before, hn] at hone

omit [PyFloat F] [UnicodeDb] in
/-- While no stored result is returned, the dispatches that have ended ran
once. -/
theorem ranOnce_of_runsOnce (hl' : l'.Holds (RunsOnce False)) : RanOnce l e l' := by
  intro x hx hf
  have hcount := hl'.ended x hx hf
  cases hresult : x.result with
  | ok v =>
      rw [hresult] at hcount
      have hone : x.starts = 1 := hcount.resolve_right fun h => h.1
      exact ⟨hone.le, fun _ _ => hone⟩
  | error exc =>
      rw [hresult] at hcount
      exact ⟨hcount, fun v hv => by cases hv⟩

/-- **Once, unless the cache answers.**  From every state of a server, the
dispatches of destructive tools of a run have all run once if they returned,
and at most once if they raised, if and only if none of them finds a value in
the cache. -/
theorem ran_once_iff (srv : AtlasServer F) (s : ServerState F) (events : List (Event F))
    (l : Ledger F) :
    Run (Guarded (Step srv) RanOnce) (ofState s) events l ↔
      Run (Guarded (Step srv) (NoStoredResult srv)) (ofState s) events l := by
  apply run_guarded_iff (I := fun l => l.Holds (RunsOnce False)) (holds_ofState s)
  · intro l e l' hl hstep honce
    exact runsOnce_step hl hstep (noStoredResult_of_ranOnce hl hstep honce)
  · intro l e l' hl hstep
    constructor
    · exact noStoredResult_of_ranOnce hl hstep
    · intro hmiss
      exact ranOnce_of_runsOnce (runsOnce_step hl hstep hmiss)

end Ledger

/-- A tool that sends a message, with all else at its default. -/
def sendTool (cacheable : Bool) : Tool WholeFloat where
  metadata := { name := "mail.send", destructive := true, cacheable }
  inputSchema _ := .ok .empty

/-- A server with a tool that sends mail. -/
def sendServer (cacheable : Bool) : AtlasServer WholeFloat where
  settings := {}
  registry := match ToolRegistry.empty.register (sendTool cacheable) with
    | .ok registry => registry
    | .error _ => .empty
  policy := { rules := [⟨"send", ["*"], ["mail.send"], ["*"], .allow, none⟩] }
  httpAllowlist := ⟨[]⟩

/-- A call of it. -/
def sendEnvelope : ToolCallEnvelope WholeFloat := pingContext.buildEnvelope "mail.send" []

/-- The id under which the message is approved. -/
def sendId : String := approvalId sendEnvelope.tenant "mail.send" sendEnvelope.arguments

/-- A message that is stopped, approved, sent, and sent again by the same
call. -/
def sentAgain : List (Event WholeFloat) :=
  [.dispatch pingContext sendEnvelope ⟨0, 0, ""⟩, .judge sendId .approved "ops:jane" 1,
    .dispatch pingContext sendEnvelope ⟨2, 2000, ""⟩, .woke 0 2,
    .ran 0 (.ok ⟨[("sent", .bool true)], by simp [Value.Wf, Value.WfMembers]⟩) 3,
    .woke 0 3, .dispatch pingContext sendEnvelope ⟨4, 4000, ""⟩]

/-- The second message is reported as sent, but was not. -/
theorem second_message_not_sent :
    ∃ l, Run (Ledger.Step (sendServer true)) (Ledger.ofState (sendServer true).initial)
        sentAgain l ∧
      ∃ x ∈ l.ended, x.flight.tool.metadata.destructive = true ∧ x.starts = 0 ∧
        x.result.isOk := by
  obtain ⟨l, hstopped, hfound, l₁, hjudged, l₂, hafter, hended⟩ : ∃ l ∈ exec
      (Ledger.step (sendServer true)) (Ledger.ofState (sendServer true).initial)
        (sentAgain.take 1),
      (∃ entry ∈ l.system.server.approvals.store.lookup sendId, 1 ≤ entry.2) ∧
      ∃ l₁ ∈ l.step (sendServer true) (.judge sendId .approved "ops:jane" 1),
      ∃ l₂ ∈ exec (Ledger.step (sendServer true).trusting) l₁ (sentAgain.drop 2),
      ∃ x ∈ l₂.ended, x.flight.tool.metadata.destructive = true ∧ x.starts = 0 ∧
        x.result.isOk := by decide +kernel
  have hcalls : ∀ e ∈ sentAgain.drop 2, e.CallsOnly (sendServer true) sendId
      (1 + approvalTtlSeconds) := by decide +kernel
  have hrun := Ledger.carries.run_of_approved rfl (Run.of_exec hstopped) hfound rfl hjudged
    (fun e he _ e' he' => Option.some.inj he' ▸ hcalls e he) (Run.of_exec hafter)
  exact ⟨l₂, hrun, hended⟩

end Server
