import AtlasMcp.DispatchCounts

/-!
# The audit trail

`_run_observed` appends one event to the audit log when a dispatch leaves it, however it
does.  A dispatch that its gates stop never gets there, and leaves no event.

A `Trail` is a system with its audit log, in which the dispatches are numbered as they
arrive; the numbers, also of those that have ended and of the starts of tools, are a record
the code does not keep.  `audited_once_iff` says that the log has one event for every dispatch
that has ended, exactly if none is stopped by its gates.

Appending to the log is taken to succeed: a disk that is full or a file that cannot be opened
is not modelled.
-/

namespace Server

open PyJson PyText Errors Tools Auth Governance RateLimit Reliability Cache FallibleState
open GuardedRuns

variable {F : Type}

/-- A line of the audit log.  The arguments are only in it as the first
characters of their digest. -/
structure AuditEvent where
  ts : String
  traceId : Option String
  tenant : String
  caller : String
  delegator : Option String
  tool : String
  argsHash : String
  durationMs : ℚ
  status : String
  errorCode : Option String

/-- `round(x, 3)`: to the nearest, and to an even last digit between two. -/
def round3 (x : ℚ) : ℚ :=
  let below := ⌊x * 1000⌋
  let rest := x * 1000 - below
  (if rest < 1 / 2 ∨ rest = 1 / 2 ∧ below % 2 = 0 then below else below + 1) / 1000

section Record

variable [PyFloat F]

/-- `_hash_args(arguments)`. -/
def hashArgs (arguments : List (String × Value F)) : String :=
  "sha256:" ++ String.ofList (Sha256.hexdigest (utf8 (dumpsSorted (.dict arguments))))

/-- `status` and `error_code` when `_run_observed` is left. -/
def auditStatus : Except (Exc F) (Value F) → String × Option String
  | .error (.tool e) => ("error", some e.code)
  | _ => ("ok", none)

/-- `audit.record(..)` for a call that is left after `durationMs`. -/
def auditEvent (env : ToolCallEnvelope F) (tool : Tool F) (durationMs : ℚ)
    (result : Except (Exc F) (Value F)) (ts : String) : AuditEvent where
  ts
  traceId := env.traceId
  tenant := env.tenant
  caller := env.caller
  delegator := env.delegator
  tool := tool.metadata.name
  argsHash := hashArgs env.arguments
  durationMs := round3 durationMs
  status := (auditStatus result).1
  errorCode := (auditStatus result).2

namespace AuditEvent

/-- `AuditEvent.to_dict`: the fields in the order in which they are
written. -/
def toDict (e : AuditEvent) : Value F :=
  .dict [("ts", .str e.ts), ("trace_id", optStr e.traceId), ("tenant", .str e.tenant),
    ("caller", .str e.caller), ("delegator", optStr e.delegator), ("tool", .str e.tool),
    ("args_hash", .str e.argsHash), ("duration_ms", .float (PyFloat.ofRat e.durationMs)),
    ("status", .str e.status), ("error_code", optStr e.errorCode)]

/-- What is written to the file, up to the end of the line. -/
def line (F : Type) [PyFloat F] (e : AuditEvent) : String := dumps (e.toDict (F := F))

/-- **Every line can be parsed**, and gives back the event. -/
theorem loads_line (e : AuditEvent) : loads (e.line F) = some (e.toDict (F := F)) := by
  have hwf : (e.toDict (F := F)).Wf := by
    rcases e with ⟨ts, _ | traceId, tenant, caller, _ | delegator, tool, argsHash,
      durationMs, status, _ | errorCode⟩ <;>
    simp [toDict, optStr, Value.Wf, Value.WfMembers]
  have hnative : (e.toDict (F := F)).Native := by
    rcases e with ⟨ts, _ | traceId, tenant, caller, _ | delegator, tool, argsHash,
      durationMs, status, _ | errorCode⟩ <;>
    simp [toDict, optStr, Value.Native, Value.NativeMembers]
  rw [line, loads_dumps hwf, Value.jsonify_of_native _ hnative]

/-- The event says who called with which arguments, on whose behalf, and in
which trace. -/
structure Tells (env : ToolCallEnvelope F) (e : AuditEvent) : Prop where
  traceId : e.traceId = env.traceId
  tenant : e.tenant = env.tenant
  caller : e.caller = env.caller
  delegator : e.delegator = env.delegator
  argsHash : e.argsHash = hashArgs env.arguments

end AuditEvent

end Record

/-- A system with its audit log: how many dispatches have arrived, the numbers
of those in flight, the log, those that have ended, and those that have
started their tool, once for each start. -/
structure Trail (F : Type) where
  system : System F
  arrived : ℕ := 0
  waiting : List ℕ := []
  log : List (ℕ × AuditEvent) := []
  ended : List (ℕ × ToolCallEnvelope F) := []
  starts : List (ℕ × Flight F) := []

/-- The reading of the clock that comes with an event, if one does. -/
def Event.now : Event F → ℚ
  | .dispatch _ _ clock => clock.now
  | .ran _ _ now | .woke _ now | .interrupt _ _ now | .judge _ _ _ now => now
  | .invalidateKey _ | .invalidateTool _ _ | .invalidateTenant _ => 0

namespace Trail

variable [PyFloat F] [UnicodeDb]

omit [PyFloat F] [UnicodeDb] in
/-- The number of the dispatch that moves. -/
def number (t : Trail F) (m : Move F) : ℕ :=
  m.place.elim t.arrived fun i => t.waiting.getD i 0

omit [UnicodeDb] in
/-- The trail after a move, `ts` being what the clock of the log says. -/
def record (srv : AtlasServer F) (t : Trail F) (u : System F) (m : Move F) (now : ℚ)
    (ts : String) : Trail F :=
  let n := t.number m
  let arrived := if m.place = none then t.arrived + 1 else t.arrived
  let waiting := leftBy t.waiting m.place
  let starts := t.starts ++ List.replicate m.next.1.starts (n, m.flight)
  match m.next.1 with
  | .suspended _ => { t with system := u, arrived, waiting := waiting ++ [n], starts }
  | .ended result =>
      let event := auditEvent m.flight.envelope m.flight.tool
        ((now - m.flight.clock.now) * 1000) result ts
      { system := u
        arrived
        waiting
        log := if srv.settings.auditEnabled then t.log ++ [(n, event)] else t.log
        ended := t.ended ++ [(n, m.flight.envelope)]
        starts }

/-- An event, with what the clock of the log says then.  A dispatch that its
gates stop ends at once. -/
def step (srv : AtlasServer F) (t : Trail F) (e : Event F × String) : Option (Trail F) :=
  (t.system.step srv e.1).map fun u =>
    match t.system.moved srv e.1 with
    | some m => t.record srv u m e.1.now e.2
    | none =>
        match e.1 with
        | .dispatch _ env _ =>
            { t with
              system := u
              arrived := t.arrived + 1
              ended := t.ended ++ [(t.arrived, env)] }
        | _ => { t with system := u }

/-- One event. -/
def Step (srv : AtlasServer F) (t : Trail F) (e : Event F × String) (u : Trail F) : Prop :=
  t.step srv e = some u

omit [PyFloat F] [UnicodeDb] in
/-- A server in any state, with nothing in flight and nothing in the log. -/
def ofState (s : ServerState F) : Trail F where
  system := { server := s }

/-- The tool of the call is registered.  Of other calls the audit log knows
nothing, since they never come to a tool. -/
def Registered (srv : AtlasServer F) (env : ToolCallEnvelope F) : Prop :=
  ∃ tool, srv.registry.get env.tool = .ok tool

/-- Every dispatch of a registered tool that has ended has one event in the
log, and that tells of it. -/
def AuditedOnce (srv : AtlasServer F) (_ : Trail F) (_ : Event F × String) (u : Trail F) :
    Prop :=
  ∀ x ∈ u.ended, Registered srv x.2 →
    ∃ event, u.log.filter (fun y => y.1 = x.1) = [(x.1, event)] ∧ event.Tells x.2

/-- A dispatch of a registered tool that arrives is admitted by all its
gates. -/
def NoneStopped (srv : AtlasServer F) (t : Trail F) (e : Event F × String) (_ : Trail F) :
    Prop :=
  ∀ ctx env clock, e.1 = .dispatch ctx env clock → Registered srv env →
    ∃ tool args, Admitted srv t.system.server ctx env clock tool args

omit [UnicodeDb] in
/-- What is found in the log under a number stays there, alone, when events of
others are added. -/
theorem filter_append_of_ne {log new : List (ℕ × AuditEvent)} {n : ℕ}
    (h : ∀ y ∈ new, y.1 ≠ n) :
    (log ++ new).filter (fun y => y.1 = n) = log.filter fun y => y.1 = n := by
  have hnone : new.filter (fun y => decide (y.1 = n)) = [] := by
    apply List.filter_eq_nil_iff.mpr
    intro y hy
    simpa using h y hy
  rw [List.filter_append, hnone, List.append_nil]

variable {srv : AtlasServer F} {t u : Trail F} {e : Event F × String}

/-- What an event does: a dispatch moves on, or is stopped by its gates, or
neither. -/
theorem step_cases (h : t.Step srv e u) :
    t.system.Step srv e.1 u.system ∧
    ((∃ m, t.system.moved srv e.1 = some m ∧ u = t.record srv u.system m e.1.now e.2) ∨
    (∃ ctx env clock, e.1 = .dispatch ctx env clock ∧ t.system.moved srv e.1 = none ∧
      u = { t with
        system := u.system
        arrived := t.arrived + 1
        ended := t.ended ++ [(t.arrived, env)] }) ∨
    (∀ ctx env clock, e.1 ≠ .dispatch ctx env clock) ∧ t.system.moved srv e.1 = none ∧
      u = { t with system := u.system }) := by
  obtain ⟨v, hv, hu⟩ := Option.map_eq_some_iff.mp h
  cases hmoved : t.system.moved srv e.1 with
  | some m =>
      simp only [hmoved] at hu
      have hsystem : u.system = v := by
        rw [← hu, record]
        split <;> rfl
      exact ⟨hsystem ▸ hv, Or.inl ⟨m, rfl, hsystem ▸ hu.symm⟩⟩
  | none =>
      simp only [hmoved] at hu
      split at hu
      next ctx env clock he =>
        subst hu
        exact ⟨hv, Or.inr (Or.inl ⟨ctx, env, clock, he, rfl, rfl⟩)⟩
      next hnot =>
        subst hu
        exact ⟨hv, Or.inr (Or.inr ⟨hnot, rfl, rfl⟩)⟩

/-- The numbers are given once: those of the dispatches in flight are apart,
and neither in the log nor among those that have ended. -/
structure Numbered (t : Trail F) : Prop where
  length : t.waiting.length = t.system.inFlight.length
  nodup : t.waiting.Nodup
  below : ∀ n ∈ t.waiting, n < t.arrived
  logged : ∀ y ∈ t.log, y.1 < t.arrived ∧ y.1 ∉ t.waiting
  ended : ∀ x ∈ t.ended, x.1 < t.arrived ∧ x.1 ∉ t.waiting

/-- The number of a dispatch that moves is new to the log and to the
others. -/
structure Fresh (t : Trail F) (m : Move F) : Prop where
  below : t.number m < if m.place = none then t.arrived + 1 else t.arrived
  others : (leftBy t.waiting m.place).Nodup
  notMem : t.number m ∉ leftBy t.waiting m.place
  logged : ∀ y ∈ t.log, y.1 ≠ t.number m
  ended : ∀ x ∈ t.ended, x.1 ≠ t.number m

/-- A dispatch that arrives is given a number that no other one has. -/
theorem Numbered.fresh (ht : t.Numbered) {m : Move F}
    (hm : t.system.moved srv e.1 = some m) : t.Fresh m := by
  rcases System.moved_cases hm with ⟨hplace, -⟩ | ⟨i, phase, hplace, hi, -⟩
  · have hnumber : t.number m = t.arrived := by rw [number, hplace]; rfl
    refine ⟨?_, ?_, ?_, ?_, ?_⟩
    · rw [hnumber, if_pos hplace]
      exact Nat.lt_succ_self _
    · rw [hplace]
      exact ht.nodup
    · rw [hnumber, hplace]
      exact fun hmem => lt_irrefl _ (ht.below _ hmem)
    · rw [hnumber]
      exact fun y hy => (ht.logged y hy).1.ne
    · rw [hnumber]
      exact fun x hx => (ht.ended x hx).1.ne
  · have hlt : i < t.waiting.length := by
      rw [ht.length]
      exact (List.getElem?_eq_some_iff.mp hi).1
    have hnumber : t.number m = t.waiting[i] := by
      rw [number, hplace]
      exact List.getD_eq_getElem _ _ hlt
    have hmem : t.number m ∈ t.waiting := hnumber ▸ List.getElem_mem hlt
    have hnodup : (t.waiting[i] :: t.waiting.eraseIdx i).Nodup :=
      (List.getElem_cons_eraseIdx_perm hlt).nodup_iff.mpr ht.nodup
    obtain ⟨hnot, hrest⟩ := List.nodup_cons.mp hnodup
    refine ⟨?_, ?_, ?_, ?_, ?_⟩
    · rw [if_neg (by simp [hplace])]
      exact ht.below _ hmem
    · rw [hplace]
      exact hrest
    · rw [hplace, hnumber]
      exact hnot
    · exact fun y hy heq => (ht.logged y hy).2 (heq ▸ hmem)
    · exact fun x hx heq => (ht.ended x hx).2 (heq ▸ hmem)

omit [PyFloat F] [UnicodeDb] in
/-- Two lists of the same length lose one item each, or none. -/
theorem length_leftBy {α β : Type} {xs : List α} {ys : List β} (h : xs.length = ys.length)
    (place : Option ℕ) : (leftBy xs place).length = (leftBy ys place).length := by
  cases place with
  | none => exact h
  | some i => simp only [leftBy, List.length_eraseIdx, h]

omit [UnicodeDb] in
/-- A move keeps the numbers apart. -/
theorem Numbered.record (ht : t.Numbered) {m : Move F} (hm : t.Fresh m) {v : System F}
    (hv : v.inFlight = leftBy t.system.inFlight m.place ++
      (m.next.1.phase?.map fun phase => (m.flight, phase)).toList) (now : ℚ) (ts : String) :
    (t.record srv v m now ts).Numbered := by
  have hlength := length_leftBy ht.length m.place
  have hgrown : ∀ n, n < t.arrived → n < if m.place = none then t.arrived + 1 else t.arrived := by
    intro n hn
    split <;> omega
  have hleft : ∀ n ∈ leftBy t.waiting m.place, n ∈ t.waiting :=
    fun n hn => Ledger.mem_of_mem_leftBy hn
  rcases hnext : m.next.1 with phase | result
  · simp only [Trail.record, hnext]
    refine ⟨?_, ?_, ?_, ?_, ?_⟩
    · simp [hv, hnext, Progress.phase?, hlength]
    · exact hm.others.append (List.nodup_singleton _) (by simpa using hm.notMem)
    · intro n hn
      rcases List.mem_append.mp hn with hn | hn
      · exact hgrown n (ht.below n (hleft n hn))
      · rw [List.mem_singleton.mp hn]
        exact hm.below
    · intro y hy
      obtain ⟨hlt, hnot⟩ := ht.logged y hy
      refine ⟨hgrown _ hlt, fun hmem => ?_⟩
      rcases List.mem_append.mp hmem with hmem | hmem
      · exact hnot (hleft _ hmem)
      · exact hm.logged y hy (List.mem_singleton.mp hmem)
    · intro x hx
      obtain ⟨hlt, hnot⟩ := ht.ended x hx
      refine ⟨hgrown _ hlt, fun hmem => ?_⟩
      rcases List.mem_append.mp hmem with hmem | hmem
      · exact hnot (hleft _ hmem)
      · exact hm.ended x hx (List.mem_singleton.mp hmem)
  · simp only [Trail.record, hnext]
    refine ⟨?_, hm.others, fun n hn => hgrown n (ht.below n (hleft n hn)), ?_, ?_⟩
    · simp [hv, hnext, Progress.phase?, hlength]
    · have hold : ∀ y ∈ t.log, y.1 < (if m.place = none then t.arrived + 1 else t.arrived) ∧
          y.1 ∉ leftBy t.waiting m.place := fun y hy =>
        ⟨hgrown _ (ht.logged y hy).1, fun hmem => (ht.logged y hy).2 (hleft _ hmem)⟩
      intro y hy
      by_cases haudit : srv.settings.auditEnabled = true
      · simp only [haudit, if_true] at hy
        rcases List.mem_append.mp hy with hy | hy
        · exact hold y hy
        · rw [List.mem_singleton.mp hy]
          exact ⟨hm.below, hm.notMem⟩
      · simp only [haudit, Bool.false_eq_true, if_false] at hy
        exact hold y hy
    · intro x hx
      rcases List.mem_append.mp hx with hx | hx
      · exact ⟨hgrown _ (ht.ended x hx).1, fun hmem => (ht.ended x hx).2 (hleft _ hmem)⟩
      · rw [List.mem_singleton.mp hx]
        exact ⟨hm.below, hm.notMem⟩

/-- Every event keeps the numbers apart. -/
theorem numbered_step (ht : t.Numbered) (h : t.Step srv e u) : u.Numbered := by
  obtain ⟨hsystem, ⟨m, hm, hu⟩ | ⟨ctx, env, clock, -, hnone, hu⟩ | ⟨-, hnone, hu⟩⟩ :=
    step_cases h
  · rw [hu]
    exact ht.record (ht.fresh hm) (System.step_of_moved hsystem hm).1 _ _
  · rw [hu]
    have hinFlight := (System.step_of_not_moved hsystem hnone).1
    refine ⟨ht.length.trans (congrArg List.length hinFlight.symm), ht.nodup,
      fun n hn => Nat.lt_succ_of_lt (ht.below n hn),
      fun y hy => ⟨Nat.lt_succ_of_lt (ht.logged y hy).1, (ht.logged y hy).2⟩, ?_⟩
    intro x hx
    rcases List.mem_append.mp hx with hx | hx
    · exact ⟨Nat.lt_succ_of_lt (ht.ended x hx).1, (ht.ended x hx).2⟩
    · rw [List.mem_singleton.mp hx]
      exact ⟨Nat.lt_succ_self _, fun hmem => lt_irrefl _ (ht.below _ hmem)⟩
  · rw [hu]
    have hinFlight := (System.step_of_not_moved hsystem hnone).1
    exact ⟨ht.length.trans (congrArg List.length hinFlight.symm), ht.nodup, ht.below,
      ht.logged, ht.ended⟩

/-- A dispatch that leaves `_run_observed` writes its event, and the events of
the others stay as they are. -/
theorem AuditedOnce.record {m : Move F} {e' : Event F × String} (ht : AuditedOnce srv t e t)
    (hm : t.Fresh m) (haudit : srv.settings.auditEnabled = true) (v : System F) (now : ℚ)
    (ts : String) : AuditedOnce srv t e' (t.record srv v m now ts) := by
  rcases hnext : m.next.1 with phase | result
  · simp only [Trail.record, hnext]
    exact ht
  · simp only [Trail.record, hnext, haudit, if_true]
    intro x hx hregistered
    rcases List.mem_append.mp hx with hx | hx
    · have hne : x.1 ≠ t.number m := hm.ended x hx
      rw [filter_append_of_ne (by simpa using hne.symm)]
      exact ht x hx hregistered
    · obtain rfl := List.mem_singleton.mp hx
      have hnone : t.log.filter (fun y => decide (y.1 = t.number m)) = [] := by
        apply List.filter_eq_nil_iff.mpr
        intro y hy
        simpa using hm.logged y hy
      refine ⟨auditEvent m.flight.envelope m.flight.tool ((now - m.flight.clock.now) * 1000)
        result ts, ?_, rfl, rfl, rfl, rfl, rfl⟩
      simp only [List.filter_append, hnone]
      simp

/-- A dispatch that is admitted is not stopped. -/
theorem moved_of_admitted {ctx : RequestContext} {env : ToolCallEnvelope F} {clock : Clock}
    (he : e.1 = .dispatch ctx env clock)
    (h : ∃ tool args, Admitted srv t.system.server ctx env clock tool args) :
    t.system.moved srv e.1 ≠ none := by
  obtain ⟨tool, args, hadmitted⟩ := h
  obtain ⟨s, hgates⟩ := gates_of_admitted hadmitted
  rw [he]
  simp [System.moved, hgates]

/-- While no dispatch of a registered tool is stopped, each is in the log
once. -/
theorem auditedOnce_step (ht : t.Numbered) (honce : AuditedOnce srv t e t)
    (haudit : srv.settings.auditEnabled = true) (h : t.Step srv e u)
    (hpass : NoneStopped srv t e u) : AuditedOnce srv t e u := by
  obtain ⟨-, ⟨m, hm, hu⟩ | ⟨ctx, env, clock, he, hnone, hu⟩ | ⟨-, -, hu⟩⟩ := step_cases h
  · rw [hu]
    exact honce.record (ht.fresh hm) haudit _ _ _
  · rw [hu]
    intro x hx hregistered
    rcases List.mem_append.mp hx with hx | hx
    · exact honce x hx hregistered
    · obtain rfl := List.mem_singleton.mp hx
      exact absurd hnone (moved_of_admitted he (hpass ctx env clock he hregistered))
  · rw [hu]
    exact honce

/-- A dispatch that moves with its arrival is admitted. -/
theorem noneStopped_of_moved (h : (t.system.moved srv e.1).isSome = true) :
    NoneStopped srv t e u := by
  intro ctx env clock he _
  obtain ⟨m, hm⟩ := Option.isSome_iff_exists.mp h
  rcases System.moved_cases hm with ⟨-, s, ⟨ctx', env', clock', tool, args, he', hgates, -⟩, -⟩ |
    ⟨i, phase, -, -, ⟨a, outcome, now, he', -⟩ | ⟨now, he', -⟩ | ⟨timedOut, now, he', -⟩⟩
  all_goals
    rw [he] at he'
    cases he'
  exact ⟨tool, args, admitted_of_gates hgates⟩

/-- A dispatch that is stopped leaves no event. -/
theorem noneStopped_of_auditedOnce (ht : t.Numbered) (h : t.Step srv e u)
    (honce : AuditedOnce srv t e u) : NoneStopped srv t e u := by
  intro ctx env clock he hregistered
  obtain ⟨-, ⟨m, hm, -⟩ | ⟨ctx', env', clock', he', -, hu⟩ | ⟨hnot, -⟩⟩ := step_cases h
  · have hpass : NoneStopped srv t e u := noneStopped_of_moved (by rw [hm]; rfl)
    exact hpass ctx env clock he hregistered
  · rw [he] at he'
    cases he'
    rw [hu] at honce
    obtain ⟨event, hevent, -⟩ := honce (t.arrived, env)
      (List.mem_append.mpr (Or.inr (List.mem_singleton.mpr rfl))) hregistered
    have hmem : (t.arrived, event) ∈ t.log := by
      have hin : (t.arrived, event) ∈ t.log.filter fun y => y.1 = t.arrived := by
        rw [hevent]
        exact List.mem_singleton.mpr rfl
      exact (List.mem_filter.mp hin).1
    exact absurd (ht.logged _ hmem).1 (lt_irrefl _)
  · exact absurd he (hnot ctx env clock)

/-- **One event for every dispatch.**  With auditing enabled, from every state
of a server, each dispatch of a registered tool that has ended has one event
in the audit log, if and only if none of them is stopped by its gates. -/
theorem audited_once_iff (srv : AtlasServer F) (haudit : srv.settings.auditEnabled = true)
    (s : ServerState F) (events : List (Event F × String)) (t : Trail F) :
    Run (Guarded (Step srv) (AuditedOnce srv)) (ofState s) events t ↔
      Run (Guarded (Step srv) (NoneStopped srv)) (ofState s) events t := by
  apply run_guarded_iff (I := fun t => t.Numbered ∧ ∀ e, AuditedOnce srv t e t)
  · refine ⟨⟨rfl, by simp [ofState], by simp [ofState], by simp [ofState], by simp [ofState]⟩,
      fun e => ?_⟩
    simp [AuditedOnce, ofState]
  · intro t e u ht hstep honce
    exact ⟨numbered_step ht.1 hstep, fun _ => honce⟩
  · intro t e u ht hstep
    exact ⟨noneStopped_of_auditedOnce ht.1 hstep, auditedOnce_step ht.1 (ht.2 e) haudit hstep⟩

/-- The log names each dispatch once, and tells of one that has ended.  Each
step of a trail keeps it so. -/
structure Accurate (t : Trail F) : Prop where
  numbered : t.Numbered
  nodup : (t.log.map Prod.fst).Nodup
  tells : ∀ y ∈ t.log, ∃ x ∈ t.ended, x.1 = y.1 ∧ y.2.Tells x.2

/-- What an event adds to the log and to the dispatches that have ended. -/
theorem log_step (ht : t.Numbered) (h : t.Step srv e u) :
    ∃ logged ended, u.log = t.log ++ logged ∧ u.ended = t.ended ++ ended ∧
      (logged.map Prod.fst).Nodup ∧ (∀ y ∈ logged, ∀ z ∈ t.log, z.1 ≠ y.1) ∧
      ∀ y ∈ logged, ∃ x ∈ ended, x.1 = y.1 ∧ y.2.Tells x.2 := by
  obtain ⟨-, ⟨m, hm, hu⟩ | ⟨ctx, env, clock, -, -, hu⟩ | ⟨-, -, hu⟩⟩ := step_cases h
  · have hfresh := ht.fresh hm
    rw [hu]
    rcases hnext : m.next.1 with phase | result
    · exact ⟨[], [], by simp [record, hnext]⟩
    · by_cases haudit : srv.settings.auditEnabled = true
      · let event := auditEvent m.flight.envelope m.flight.tool
          ((e.1.now - m.flight.clock.now) * 1000) result e.2
        refine ⟨[(t.number m, event)], [(t.number m, m.flight.envelope)],
          by simp only [record, hnext, haudit, if_true, event], by simp only [record, hnext],
          by simp, fun y hy z hz => ?_, fun y hy => ?_⟩
        · obtain rfl := List.mem_singleton.mp hy
          exact hfresh.logged z hz
        · obtain rfl := List.mem_singleton.mp hy
          exact ⟨_, List.mem_singleton.mpr rfl, rfl, rfl, rfl, rfl, rfl, rfl⟩
      · refine ⟨[], [(t.number m, m.flight.envelope)],
          by simp [record, hnext, haudit], by simp only [record, hnext], by simp⟩
  · rw [hu]
    exact ⟨[], [(t.arrived, env)], by simp⟩
  · rw [hu]
    exact ⟨[], [], by simp⟩

/-- A step keeps the log accurate: a dispatch is logged as it ends, and only
then. -/
theorem Accurate.step (ht : t.Accurate) (h : t.Step srv e u) : u.Accurate := by
  obtain ⟨logged, ended, hlog, hended, hnodup, hapart, htells⟩ := log_step ht.numbered h
  refine ⟨numbered_step ht.numbered h, ?_, fun y hy => ?_⟩
  · rw [hlog, List.map_append]
    apply List.nodup_append.mpr
    refine ⟨ht.nodup, hnodup, fun n hn k hk => ?_⟩
    obtain ⟨z, hz, rfl⟩ := List.mem_map.mp hn
    obtain ⟨y, hy, rfl⟩ := List.mem_map.mp hk
    exact hapart y hy z hz
  · rw [hlog] at hy
    rw [hended]
    rcases List.mem_append.mp hy with hy | hy
    · obtain ⟨x, hx, htold⟩ := ht.tells y hy
      exact ⟨x, List.mem_append_left _ hx, htold⟩
    · obtain ⟨x, hx, htold⟩ := htells y hy
      exact ⟨x, List.mem_append_right _ hx, htold⟩

end Trail

/-- A ping that is answered, on the trail. -/
def pingedOnTrail : List (Event WholeFloat × String) :=
  pinged.map fun e => (e, "2026-01-01T00:00:00+00:00")

/-- It leaves one event. -/
theorem ping_audited_once : ∃ t,
    Run (Guarded (Trail.Step pingServer) (Trail.AuditedOnce pingServer))
      (Trail.ofState pingServer.initial) pingedOnTrail t ∧
      t.log.map (fun y => (y.1, y.2.status, y.2.durationMs)) = [(0, "ok", 1000)] := by
  obtain ⟨t, ht, hlog⟩ : ∃ t ∈ execGuarded (Trail.step pingServer)
      (fun t e _ => (t.system.moved pingServer e.1).isSome = true)
      (Trail.ofState pingServer.initial) pingedOnTrail,
      t.log.map (fun y => (y.1, y.2.status, y.2.durationMs)) = [(0, "ok", 1000)] := by
    decide +kernel
  have hrun : Run (Guarded (Trail.Step pingServer) (Trail.NoneStopped pingServer))
      (Trail.ofState pingServer.initial) pingedOnTrail t := by
    apply (Run.of_execGuarded ht).transfer (I := fun _ => True) trivial
    intro t e u _ hstep
    exact ⟨trivial, hstep.1, Trail.noneStopped_of_moved hstep.2⟩
  exact ⟨t, (Trail.audited_once_iff pingServer rfl pingServer.initial pingedOnTrail t).mpr hrun,
    hlog⟩

/-- A server whose policy permits nothing. -/
def closedServer : AtlasServer WholeFloat := { pingServer with policy := { rules := [] } }

/-- A ping that the policy denies. -/
def pingDenied : Event WholeFloat × String :=
  (.dispatch pingContext (pingContext.buildEnvelope "server.ping" []) ⟨0, 0, ""⟩,
    "2026-01-01T00:00:00+00:00")

/-- It leaves no event. -/
theorem denied_ping_not_audited : ∃ t,
    (Trail.ofState closedServer.initial).Step closedServer pingDenied t ∧
      ¬ Trail.AuditedOnce closedServer (.ofState closedServer.initial) pingDenied t := by
  obtain ⟨t, ht, hlog, hended⟩ : ∃ t ∈ (Trail.ofState closedServer.initial).step closedServer
      pingDenied, t.log.map Prod.fst = [] ∧
        t.ended.map (fun x => x.2.tool) = ["server.ping"] := by decide +kernel
  refine ⟨t, ht, fun honce => ?_⟩
  obtain ⟨x, hx, htool⟩ : ∃ x ∈ t.ended, x.2.tool = "server.ping" := by
    apply List.mem_map.mp
    rw [hended]
    exact List.mem_singleton.mpr rfl
  have hregistered : (closedServer.registry.get "server.ping").isOk = true := by
    decide +kernel
  have hfound : Trail.Registered closedServer x.2 := by
    unfold Trail.Registered
    rw [htool]
    cases hget : closedServer.registry.get "server.ping" with
    | ok tool => exact ⟨tool, rfl⟩
    | error exc =>
        rw [hget] at hregistered
        cases hregistered
  obtain ⟨event, hevent, -⟩ := honce x hx hfound
  rw [List.map_eq_nil_iff.mp hlog] at hevent
  cases hevent

end Server
