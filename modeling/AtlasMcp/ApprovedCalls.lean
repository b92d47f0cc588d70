import AtlasMcp.ApprovalRuns
import AtlasMcp.DispatchCounts

/-!
# Approved calls

The store of approvals is written by the approval gate and by judgements alone
(`approvals_step`), and after an approval it grants the call until that expires
(`System.grants_of_judged`).

An approval that is there is all the gate asks for: while every dispatch of a destructive
tool has one, the server runs like one that requires none (`System.step_trusting`).
-/

namespace Server

open PyJson PyText Errors Tools Auth Governance RateLimit Reliability Cache FallibleState
open GuardedRuns StoreRecords

variable {F : Type} [PyFloat F] [UnicodeDb]

/-- The event approves or denies the id. -/
def Event.Judges (id : String) : Event F → Prop
  | .judge approvalId _ _ _ => approvalId = id
  | _ => False

/-- The latest judgement of the id in the course of the events: the last event
that approves or denies it, and the time of that. -/
def LastJudged (srv : AtlasServer F) (start : System F) (events : List (Event F))
    (id : String) (verdict : Verdict) (judgedAt : ℚ) : Prop :=
  ∃ approver t, LastDid (System.Step srv) start (Event.Judges id) events
    (.judge id verdict approver judgedAt) t

/-- A judgement stays the last one as long as no other one is made on the same
approval. -/
theorem LastJudged.snoc {srv : AtlasServer F} {start : System F} {events : List (Event F)}
    {id : String} {verdict : Verdict} {judgedAt : ℚ}
    (h : LastJudged srv start events id verdict judgedAt) {e : Event F}
    (he : ¬ e.Judges id) : LastJudged srv start (events ++ [e]) id verdict judgedAt := by
  obtain ⟨approver, u, hlast⟩ := h
  exact ⟨approver, u, hlast.snoc he⟩

section Pieces

variable {srv : AtlasServer F} {s : ServerState F} {f : Flight F} {now : ℚ}

/-- Between the two stores the approval gate judged at most one call, and
nothing else was done to them. -/
def AskedOnce (F : Type) [PyFloat F] (a a' : InMemoryApprovalStore) : Prop :=
  a' = a ∨ ∃ (r : ApprovalRequest F) (createdAt : String) (now : ℚ),
    a' = (enforce a r createdAt now).2

/-- What is true of the approvals when they stay as they are, and when the
approval gate judges the call, is true of them after the gates. -/
theorem moves_of_gates {R : InMemoryApprovalStore → InMemoryApprovalStore → Prop}
    (hrefl : ∀ a, R a a) (srv : AtlasServer F) (ctx : RequestContext)
    (env : ToolCallEnvelope F) (clock : Clock)
    (hasked : srv.settings.destructiveToolRequiresApproval = true → ∀ tool a,
      R a (enforce a (approvalRequest env tool) clock.utc clock.now).2) :
    Fallible.Moves ServerState.approvals R (gates srv ctx env clock) := by
  have htoken : ∀ tenant tool wallMs,
      Fallible.Keeps ServerState.approvals (acquireToken srv tenant tool wallMs) := by
    intro tenant tool wallMs s
    unfold acquireToken
    split <;> rfl
  apply (Fallible.keeps_ofExcept _ _).bind_moves hrefl
  intro tool
  apply (Fallible.keeps_ofExcept _ _).bind_moves hrefl
  intro args
  apply (Fallible.keeps_ofExcept _ _).bind_moves hrefl
  intro _
  apply (Fallible.keeps_ofExcept _ _).bind_moves hrefl
  intro _
  apply (Fallible.keeps_ofExcept _ _).bind_moves hrefl
  intro _
  apply (htoken _ _ _).bind_moves hrefl
  intro _
  refine Fallible.Moves.bind_keeps (fun s => ?_) fun _ => Fallible.keeps_pure _ _
  unfold enforceApproval
  split
  next hneeded => exact hasked hneeded.2 tool s.approvals
  next => exact hrefl s.approvals

/-- The gates leave the approvals to the approval gate. -/
theorem approvals_of_gates (srv : AtlasServer F) (ctx : RequestContext)
    (env : ToolCallEnvelope F) (clock : Clock) :
    Fallible.Moves ServerState.approvals (AskedOnce F) (gates srv ctx env clock) :=
  moves_of_gates (fun _ => Or.inl rfl) srv ctx env clock fun _ tool _ =>
    Or.inr ⟨approvalRequest env tool, clock.utc, clock.now, rfl⟩

omit [UnicodeDb] in
/-- Reading the cache leaves the approvals, if what follows a miss does. -/
theorem approvals_readCache {key : String} {miss : ServerState F → Progress F × ServerState F}
    (hmiss : ∀ s, (miss s).2.approvals = s.approvals) :
    (readCache srv s f key now miss).2.approvals = s.approvals := by
  rcases hread : s.cache.get key now with ⟨exc | v, cache⟩
  · simp only [readCache, hread]
    rfl
  · cases v <;> simp only [readCache, hread]
    case none => exact hmiss _
    all_goals rfl

omit [UnicodeDb] in
theorem approvals_runObserved : (runObserved srv s f now).2.approvals = s.approvals := by
  unfold runObserved
  split
  · rfl
  · apply approvals_readCache
    intro s
    simp only
    split <;> rfl

omit [PyFloat F] [UnicodeDb] in
theorem approvals_afterRun {a : Attempt} {outcome : Except (Exc F) (ToolResult F)} :
    (afterRun srv s f a outcome now).2.approvals = s.approvals := by
  simp only [afterRun]
  split <;> rfl

theorem approvals_afterSleep {phase : Phase F} {next : Progress F × ServerState F}
    (hnext : afterSleep srv s f now phase = some next) :
    next.2.approvals = s.approvals := by
  cases phase with
  | running a => simp [afterSleep] at hnext
  | backoff a =>
      obtain rfl := Option.some.inj hnext
      rfl
  | starting c =>
      obtain rfl := Option.some.inj hnext
      obtain ⟨admission, b, -, ⟨-, h⟩ | ⟨admitted, -, ⟨-, -, h⟩ | h⟩⟩ :=
        startCall_cases srv s f c now <;>
      · rw [h]
        rfl
  | ending c result =>
      obtain rfl := Option.some.inj hnext
      unfold resume settle
      split <;> rfl
  | polling waits =>
      obtain ⟨key, hkey, rfl⟩ := Option.map_eq_some_iff.mp hnext
      apply approvals_readCache
      intro s
      split <;> rfl

omit [PyFloat F] in
/-- A dispatch that is interrupted leaves the approvals. -/
theorem approvals_afterInterrupt {timedOut : Bool} {phase : Phase F}
    {next : Progress F × ServerState F}
    (hnext : afterInterrupt srv s f timedOut now phase = some next) :
    next.2.approvals = s.approvals := by
  cases phase with
  | ending c result => simp [afterInterrupt] at hnext
  | polling waits =>
      obtain rfl := eq_of_afterInterrupt_polling hnext
      rfl
  | _ =>
      obtain rfl := Option.some.inj hnext
      rfl

end Pieces

namespace System

variable {srv : AtlasServer F} {start t u : System F} {events : List (Event F)}

omit [PyFloat F] [UnicodeDb] in
/-- Whatever is advanced leaves the approvals that the move leaves. -/
theorem approvals_advance (t : System F) (f : Flight F) (next : Progress F × ServerState F) :
    (t.advance f next).server.approvals = next.2.approvals := by
  rcases next with ⟨phase | (exc | v), server⟩ <;> rfl

/-- An event judges a record, or a dispatch passes the gates, or the approvals
stay. -/
theorem approvals_step_cases {e : Event F} (h : t.Step srv e u) :
    (∃ id verdict approver now, e = .judge id verdict approver now ∧
      u.server.approvals =
        (transition (F := F) t.server.approvals id verdict approver now).2) ∨
    (∃ ctx env clock, e = .dispatch ctx env clock ∧
      u.server.approvals = ((gates srv ctx env clock).run t.server).2.approvals) ∨
    (∀ id, ¬ e.Judges id) ∧ u.server.approvals = t.server.approvals := by
  cases e with
  | dispatch ctx env clock =>
      obtain rfl : t.arrive srv ctx env clock = u := Option.some.inj h
      refine Or.inr (Or.inl ⟨ctx, env, clock, rfl, ?_⟩)
      rcases hrun : (gates srv ctx env clock).run t.server with ⟨exc | ⟨tool, args⟩, s⟩
      · simp only [arrive, hrun]
      · simp only [arrive, hrun, approvals_advance, approvals_runObserved]
  | ran i outcome now =>
      obtain ⟨f, a, hi, rfl⟩ := step_ran h
      refine Or.inr (Or.inr ⟨fun _ => id, ?_⟩)
      unfold toolEnded
      rw [approvals_advance, approvals_afterRun]
      rfl
  | woke i now =>
      obtain ⟨f, phase, next, hi, hnext, rfl⟩ := step_woke h
      refine Or.inr (Or.inr ⟨fun _ => id, ?_⟩)
      rw [approvals_advance, approvals_afterSleep hnext]
  | interrupt i timedOut now =>
      obtain ⟨f, phase, next, hi, hnext, rfl⟩ := step_interrupt h
      refine Or.inr (Or.inr ⟨fun _ => id, ?_⟩)
      rw [approvals_advance, approvals_afterInterrupt hnext]
  | judge id verdict approver now =>
      obtain rfl := Option.some.inj h
      exact Or.inl ⟨id, verdict, approver, now, rfl, rfl⟩
  | _ =>
      obtain rfl := Option.some.inj h
      exact Or.inr (Or.inr ⟨fun _ => id, rfl⟩)

/-- What an event does to the approvals. -/
theorem approvals_step {e : Event F} (h : t.Step srv e u) :
    (∃ id verdict approver now, e = .judge id verdict approver now ∧
      u.server.approvals =
        (transition (F := F) t.server.approvals id verdict approver now).2) ∨
    (∀ id, ¬ e.Judges id) ∧ AskedOnce F t.server.approvals u.server.approvals := by
  rcases approvals_step_cases h with hjudged | ⟨ctx, env, clock, rfl, hu⟩ | ⟨hnone, hu⟩
  · exact Or.inl hjudged
  · exact Or.inr ⟨fun _ => id, hu ▸ approvals_of_gates srv ctx env clock t.server⟩
  · exact Or.inr ⟨hnone, Or.inl hu⟩

/-- Every record of a server is faithful to the latest judgement of its id. -/
theorem faithful_of_run (hstart : start.server.approvals = {})
    (hrun : Run (Step srv) start events t) :
    Records (Faithful (F := F) (LastJudged srv start events))
      t.server.approvals.store := by
  induction hrun with
  | nil =>
      rw [hstart]
      exact records_empty
  | @snoc events e t u hbefore hlast ih =>
      rcases approvals_step hlast with
        ⟨id, verdict, approver, now, rfl, hu⟩ | ⟨hnone, hu⟩
      · rw [hu]
        apply faithful_transition ih
        · intro k v judgedAt hk h
          exact h.snoc fun h => hk h.symm
        · intro a _
          exact ⟨approver, t, .last hbefore⟩
      · have hold : Records (Faithful (F := F) (LastJudged srv start (events ++ [e])))
            t.server.approvals.store :=
          ih.imp fun key _ h => h.imp fun _ _ h => h.snoc (hnone key)
        rcases hu with hu | ⟨r, createdAt, now, hu⟩
        · rw [hu]
          exact hold
        · rw [hu]
          exact faithful_enforce hold r createdAt

/-- An approval that found its record grants the call until it expires. -/
theorem grants_of_judged {id approver : String} {now : ℚ} (hstart : start.server.approvals = {})
    (hrun : Run (Step srv) start events t)
    (hfound : ∃ entry ∈ t.server.approvals.store.lookup id, now ≤ entry.2)
    (hjudge : t.Step srv (.judge id .approved approver now) u) :
    Grants F u.server.approvals id (now + approvalTtlSeconds) := by
  obtain rfl := Option.some.inj hjudge
  exact grants_of_transition (faithful_of_run hstart hrun) hfound

end System

section Trusting

variable {srv : AtlasServer F}

/-- The server without the requirement of approvals. -/
def AtlasServer.trusting (srv : AtlasServer F) : AtlasServer F :=
  { srv with settings := { srv.settings with destructiveToolRequiresApproval := false } }

/-- A dispatch of a destructive tool finds an approval among these. -/
def Event.IsApproved (srv : AtlasServer F) (approvals : InMemoryApprovalStore) : Event F → Prop
  | .dispatch _ env clock => ∀ tool, srv.registry.get env.tool = .ok tool →
      tool.metadata.destructive = true →
        Approved approvals (approvalRequest env tool) clock.now
  | _ => True

/-- **An approved call is not asked for more.**  The gates decide as if no
approvals were required. -/
theorem gates_trusting {ctx : RequestContext} {env : ToolCallEnvelope F} {clock : Clock}
    {s : ServerState F} (h : (Event.dispatch ctx env clock).IsApproved srv s.approvals) :
    (gates srv.trusting ctx env clock).run s = (gates srv ctx env clock).run s := by
  unfold gates
  apply Fallible.run_bind_ofExcept_congr
  intro tool htool
  apply Fallible.run_bind_ofExcept_congr
  intro args _
  apply Fallible.run_bind_ofExcept_congr
  intro _ _
  apply Fallible.run_bind_ofExcept_congr
  intro _ _
  apply Fallible.run_bind_ofExcept_congr
  intro _ _
  apply Fallible.run_bind_congr
  intro _ t htoken
  have hkept : t.approvals = s.approvals := (acquireToken_ok htoken).2
  have hpass : (enforceApproval srv env tool clock).run t = (.ok (), t) := by
    unfold enforceApproval
    split
    next hneeded =>
        have happroved := h tool (liftTool_ok.mp htool) hneeded.1
        rw [Fallible.run_ofUpdate, hkept, enforce_eq_of_approved happroved, ← hkept]
    next => rfl
  have htrust : (enforceApproval srv.trusting env tool clock).run t = (.ok (), t) := by
    simp [enforceApproval, AtlasServer.trusting]
  rw [Fallible.run_bind, Fallible.run_bind, hpass, htrust]

namespace System

variable {t u : System F} {e : Event F}

/-- Neither does anything after the gates. -/
theorem step_trusting (h : e.IsApproved srv t.server.approvals) :
    t.step srv.trusting e = t.step srv e := by
  cases e with
  | dispatch ctx env clock =>
      simp only [step, arrive, gates_trusting h]
      rfl
  | _ => rfl

/-- A call that was approved moves as it would if nothing had to be
approved. -/
theorem moved_trusting (h : e.IsApproved srv t.server.approvals) :
    t.moved srv.trusting e = t.moved srv e := by
  cases e with
  | dispatch ctx env clock =>
      simp only [moved, gates_trusting h]
      rfl
  | _ => rfl

/-- A server that requires no approvals writes none. -/
theorem approvals_step_trusting (h : t.Step srv.trusting e u) (hquiet : ∀ id, ¬ e.Judges id) :
    u.server.approvals = t.server.approvals := by
  rcases approvals_step_cases h with ⟨id, verdict, approver, now, rfl, -⟩ |
    ⟨ctx, env, clock, rfl, hu⟩ | ⟨-, hu⟩
  · exact absurd rfl (hquiet id)
  · have hkept := moves_of_gates (R := fun a a' => a' = a) (fun _ => rfl) srv.trusting ctx env
      clock fun hrequired => by simp [AtlasServer.trusting] at hrequired
    exact hu.trans (hkept t.server)
  · exact hu

end System

/-- A judgement in the run, or a destructive call other than the one the id
stands for, or later than its approval counts, would be in the way. -/
def Event.CallsOnly (srv : AtlasServer F) (id : String) (expiresAt : ℚ) : Event F → Prop
  | .dispatch _ env clock =>
      ∀ tool ∈ (srv.registry.get env.tool).toOption, tool.metadata.destructive = true →
        approvalId env.tenant tool.metadata.name env.arguments = id ∧ clock.now ≤ expiresAt
  | .judge .. => False
  | _ => True

instance (srv : AtlasServer F) (id : String) (expiresAt : ℚ) (e : Event F) :
    Decidable (e.CallsOnly srv id expiresAt) :=
  match e with
  | .dispatch .. => inferInstanceAs (Decidable (∀ tool ∈ Except.toOption _, _))
  | .judge .. => isFalse fun h => h
  | .ran .. | .woke .. | .interrupt .. | .invalidateKey _ | .invalidateTool ..
  | .invalidateTenant _ => isTrue trivial

theorem Event.CallsOnly.isApproved {id : String} {expiresAt : ℚ} {e : Event F}
    {approvals : InMemoryApprovalStore} (h : e.CallsOnly srv id expiresAt)
    (hgrants : Grants F approvals id expiresAt) : e.IsApproved srv approvals := by
  cases e with
  | dispatch ctx env clock =>
      intro tool htool hdestructive
      obtain ⟨rfl, hlive⟩ := h tool (by simp [htool, Except.toOption]) hdestructive
      exact approved_of_grants hgrants hlive
  | _ => trivial

theorem Event.CallsOnly.quiet {id : String} {expiresAt : ℚ} {e : Event F}
    (h : e.CallsOnly srv id expiresAt) (approvalId : String) : ¬ e.Judges approvalId := by
  cases e with
  | judge => exact h.elim
  | _ => exact fun hjudges => hjudges

/-- The machine keeps a system: each of its steps does an event of it, and
depends on the server through this event alone. -/
structure Carries {M A : Type} (step : AtlasServer F → M → A → Option M) (system : M → System F)
    (toEvent : M → A → Option (Event F)) : Prop where
  does : ∀ srv m a m', step srv m a = some m' →
    ∃ e ∈ toEvent m a, (system m).Step srv e (system m')
  trusts : ∀ srv m a,
    (∀ e ∈ toEvent m a, e.IsApproved srv (system m).server.approvals) →
      step srv.trusting m a = step srv m a

namespace Carries

variable {M A : Type} {step : AtlasServer F → M → A → Option M} {system : M → System F}
  {toEvent : M → A → Option (Event F)} {m m' m'' : M} {labels labels' : List A}

/-- A run of the machine is one of its system. -/
theorem run_system (h : Carries step system toEvent)
    (hrun : Run (fun m a m' => step srv m a = some m') m labels m') :
    ∃ events, Run (System.Step srv) (system m) events (system m') := by
  induction hrun with
  | nil => exact ⟨[], .nil⟩
  | snoc _ hlast ih =>
      obtain ⟨events, hbefore⟩ := ih
      obtain ⟨e, -, hstep⟩ := h.does _ _ _ _ hlast
      exact ⟨events ++ [e], hbefore.snoc hstep⟩

/-- **With its approvals in place, a server runs like one that requires
none.** -/
theorem run_of_trusting (h : Carries step system toEvent) {id : String} {expiresAt : ℚ}
    (hgrants : Grants F (system m).server.approvals id expiresAt)
    (hcalls : ∀ a ∈ labels, ∀ m, ∀ e ∈ toEvent m a, e.CallsOnly srv id expiresAt)
    (hrun : Run (fun m a m' => step srv.trusting m a = some m') m labels m') :
    Run (fun m a m' => step srv m a = some m') m labels m' := by
  have hall := hrun.guarded (P := fun _ a _ => a ∈ labels) fun a m m' hdid _ => hdid.mem
  apply hall.transfer (I := fun n => (system n).server.approvals = (system m).server.approvals)
    rfl
  intro n a n' hn hstep
  obtain ⟨e, he, hsystem⟩ := h.does _ _ _ _ hstep.1
  have hkept := System.approvals_step_trusting hsystem (hcalls a hstep.2 n e he).quiet
  refine ⟨hkept.trans hn, ?_⟩
  rw [← h.trusts srv n a fun e he => (hcalls a hstep.2 n e he).isApproved (hn.symm ▸ hgrants)]
  exact hstep.1

/-- A call is stopped, is approved, and then runs as if no approvals were
required. -/
theorem run_of_approved (h : Carries step system toEvent)
    (hnew : (system m).server.approvals = {})
    (hbefore : Run (fun m a m' => step srv m a = some m') m labels m')
    {id approver : String} {now : ℚ}
    (hfound : ∃ entry ∈ (system m').server.approvals.store.lookup id, now ≤ entry.2)
    {judge : A} (hjudge : toEvent m' judge = some (.judge id .approved approver now))
    (hjudged : step srv m' judge = some m'')
    (hcalls : ∀ a ∈ labels', ∀ m, ∀ e ∈ toEvent m a,
      e.CallsOnly srv id (now + approvalTtlSeconds)) {last : M}
    (hafter : Run (fun m a m' => step srv.trusting m a = some m') m'' labels' last) :
    Run (fun m a m' => step srv m a = some m') m (labels ++ [judge] ++ labels') last := by
  obtain ⟨events, hevents⟩ := h.run_system hbefore
  obtain ⟨e, he, hstep⟩ := h.does _ _ _ _ hjudged
  obtain rfl : _ = e := Option.some.inj (hjudge.symm.trans he)
  have hgrants := System.grants_of_judged hnew hevents hfound hstep
  exact (hbefore.snoc hjudged).append (h.run_of_trusting hgrants hcalls hafter)

end Carries

/-- The ledger keeps a system, and does with it the event that it is given. -/
theorem Ledger.carries :
    Carries (F := F) Ledger.step Ledger.system fun _ e => some e where
  does srv l e l' h := ⟨e, rfl, (step_cases h).1⟩
  trusts srv l e h := by
    simp only [step, System.step_trusting (h e rfl), System.moved_trusting (h e rfl)]

end Trusting

end Server
