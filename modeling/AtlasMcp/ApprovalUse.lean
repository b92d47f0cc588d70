import AtlasMcp.DestructiveRuns

/-!
# What an approved call may do

An approval stays in the store for its lifetime, and every dispatch of the same call in
that time gets through on it.  `executions_of_approved` is what then bounds the
executions under an approval id: each belongs to a dispatch of its own, and each of
these dispatches found an approval of the id as its latest judgement, not expired.
-/

namespace Server

open PyJson PyText Errors Tools Auth Governance RateLimit Reliability Cache FallibleState
open GuardedRuns StoreRecords

section Runs

variable {F : Type} [PyFloat F] [UnicodeDb]

/-- The id under which a dispatch of a destructive tool is approved. -/
def Flight.approvalId (f : Flight F) : String :=
  Governance.approvalId f.envelope.tenant f.tool.metadata.name f.envelope.arguments

/-- The dispatch is one of the destructive call the id stands for. -/
def Flight.IsCallOf (id : String) (f : Flight F) : Bool :=
  f.tool.metadata.destructive && f.approvalId = id

/-- Before the dispatch arrived, the latest judgement of its id was an
approval, and it had not expired. -/
def ApprovedInTime (srv : AtlasServer F) (start : System F) (events : List (Event F))
    (f : Flight F) : Prop :=
  ∃ before after approvedAt,
    events = before ++ .dispatch f.context f.envelope f.clock :: after ∧
    LastJudged srv start before f.approvalId .approved approvedAt ∧
    f.clock.now ≤ approvedAt + approvalTtlSeconds

/-- **One execution for each dispatch, each on an approval.**  In every run
with approvals required, the executions of the destructive call an id stands
for are at most as many as its dispatches, and each of these found the id
approved, the approval being its latest judgement and not expired. -/
theorem executions_of_approved (srv : AtlasServer F)
    (hrequired : srv.settings.destructiveToolRequiresApproval = true)
    (events : List (Event F)) (l : Ledger F)
    (hrun : Run (Ledger.Step srv) (Ledger.ofState srv.initial) events l) (id : String) :
    l.system.started.countP (Flight.IsCallOf id) ≤
      l.dispatches.countP (fun d => d.1.IsCallOf id) ∧
    ∀ d ∈ l.dispatches, d.1.IsCallOf id = true →
      ApprovedInTime srv (System.start srv) events d.1 := by
  have hdestructive : ∀ f : Flight F, f.IsCallOf id = true →
      f.tool.metadata.destructive = true := by
    intro f hf
    simp only [Flight.IsCallOf, Bool.and_eq_true] at hf
    exact hf.1
  constructor
  · rw [Ledger.started_eq_total hrun]
    apply Ledger.total_le_countP
    intro d hd hf
    exact Ledger.runs_at_most_once hrun d hd (hdestructive _ hf)
  · intro d hd hf
    obtain ⟨before, after, u, hevents, hbefore, -, hadmitted⟩ :=
      Ledger.Holds.of_mem_dispatches (Ledger.arrived_of_run hrun) hd
    obtain ⟨-, approvedAt, hjudged, hexpiry⟩ :=
      judged_of_approved (System.faithful_of_run rfl hbefore)
        (hadmitted.approved (hdestructive _ hf) hrequired)
    exact ⟨before, after, approvedAt, hevents, hjudged, hexpiry⟩

end Runs

/-- A message that is stopped, approved once, and sent twice by the same
call. -/
def sentTwice : List (Event WholeFloat) :=
  sentAgain ++ [.woke 0 4]

/-- The message is sent twice. -/
theorem run_sentTwice :
    ∃ l, Run (Ledger.Step (sendServer false)) (Ledger.ofState (sendServer false).initial)
      sentTwice l ∧ l.system.started.countP (Flight.IsCallOf sendId) = 2 := by
  obtain ⟨l, hstopped, hfound, l₁, hjudged, l₂, hafter, htwo⟩ : ∃ l ∈ exec
      (Ledger.step (sendServer false)) (Ledger.ofState (sendServer false).initial)
        (sentTwice.take 1),
      (∃ entry ∈ l.system.server.approvals.store.lookup sendId, 1 ≤ entry.2) ∧
      ∃ l₁ ∈ l.step (sendServer false) (.judge sendId .approved "ops:jane" 1),
      ∃ l₂ ∈ exec (Ledger.step (sendServer false).trusting) l₁ (sentTwice.drop 2),
      l₂.system.started.countP (Flight.IsCallOf sendId) = 2 := by decide +kernel
  have hcalls : ∀ e ∈ sentTwice.drop 2, e.CallsOnly (sendServer false) sendId
      (1 + approvalTtlSeconds) := by decide +kernel
  have hrun := Ledger.carries.run_of_approved rfl (Run.of_exec hstopped) hfound rfl hjudged
    (fun e he _ e' he' => Option.some.inj he' ▸ hcalls e he) (Run.of_exec hafter)
  exact ⟨l₂, hrun, htwo⟩

/-- Both times, it is sent on an approval. -/
theorem messages_sent_on_approval :
    ∃ l, Run (Ledger.Step (sendServer false)) (Ledger.ofState (sendServer false).initial)
        sentTwice l ∧
      2 ≤ l.dispatches.countP (fun d => d.1.IsCallOf sendId) ∧
      ∀ d ∈ l.dispatches, d.1.IsCallOf sendId = true →
        ApprovedInTime (sendServer false) (System.start (sendServer false)) sentTwice d.1 := by
  obtain ⟨l, hrun, htwo⟩ := run_sentTwice
  obtain ⟨hle, happroved⟩ := executions_of_approved (sendServer false) rfl sentTwice l hrun sendId
  exact ⟨l, hrun, htwo.symm.le.trans hle, happroved⟩

/-- One approval, and the message is sent twice. -/
theorem approval_used_twice :
    ∃ l, Run (Ledger.Step (sendServer false)) (Ledger.ofState (sendServer false).initial)
        sentTwice l ∧
      l.system.started.countP (Flight.IsCallOf sendId) = 2 ∧
      sentTwice.countP (fun e => match e with
        | .judge id .approved _ _ => id = sendId
        | _ => false) = 1 := by
  obtain ⟨l, hrun, htwo⟩ := run_sentTwice
  exact ⟨l, hrun, htwo, by decide +kernel⟩

end Server
