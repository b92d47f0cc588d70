import AtlasMcp.ApprovalUse
import AtlasMcp.AuditTrail
import AtlasMcp.CachedResults
import AtlasMcp.ComponentRuns

/-!
# What an auditor can check

A line of the audit log names the tenant and the tool of a call, and has the digest of its
arguments; the approval gate takes the id of an approval from the same.  So the id under
which a call was approved can be computed from its line alone (`AuditEvent.TellsOf.approvalId`).

`accounted_for` says that this is enough to hold a server to its approvals: every start of a
tool is in the log, once its dispatch has ended, and every line of a destructive tool names
an approval that was there when the call arrived.
-/

namespace Server

open PyJson PyText Errors Tools Auth Governance RateLimit Reliability Cache FallibleState
open GuardedRuns

variable {F : Type} [PyFloat F]

/-- The id under which the call was approved, from what is in the line: the
digest stands after `sha256:`. -/
def AuditEvent.approvalId (e : AuditEvent) : String :=
  "atlas:approval:" ++ e.tenant ++ ":" ++ e.tool ++ ":" ++
    String.ofList ((e.argsHash.toList.drop 7).take 24)

/-- The line tells of a dispatch: who called, with which arguments, and which
tool. -/
structure AuditEvent.TellsOf (e : AuditEvent) (f : Flight F) : Prop where
  tells : e.Tells f.envelope
  tool : e.tool = f.tool.metadata.name

/-- **The digest in the line is that of the approval**, which has its first
characters. -/
theorem AuditEvent.TellsOf.approvalId {e : AuditEvent} {f : Flight F} (h : e.TellsOf f) :
    e.approvalId = f.approvalId := by
  have hdrop : ∀ hex : List Char, ("sha256:" ++ String.ofList hex).toList.drop 7 = hex := by
    intro hex
    simp [String.toList_append]
  have hline : e.argsHash.toList.drop 7 =
      Sha256.hexdigest (utf8 (dumpsSorted (.dict f.envelope.arguments))) := by
    rw [h.tells.argsHash]
    exact hdrop _
  unfold Flight.approvalId Governance.approvalId Governance.argsHash Tools.digest
  rw [← hline, ← h.tells.tenant, ← h.tool]
  rfl

namespace Trail

variable [UnicodeDb] {srv : AtlasServer F} {s : ServerState F} {t u : Trail F}
  {events : List (Event F × String)} {e : Event F × String}

/-- A run of the trail is one of its system. -/
theorem run_system (hrun : Run (Step srv) t events u) :
    Run (System.Step srv) t.system (events.map Prod.fst) u.system :=
  hrun.map Trail.system Prod.fst fun _ _ _ hstep => (step_cases hstep).1

/-- With each event a dispatch moves or none does, and only a dispatch that
arrives has no place. -/
theorem place_eq_none_iff {m : Move F} (hm : t.system.moved srv e.1 = some m) :
    m.place = none ↔ e.1.isDispatch = true := by
  rcases System.moved_cases hm with ⟨hplace, s', harrives, -⟩ |
    ⟨i, phase, hplace, -, ⟨a, outcome, now, he, -⟩ | ⟨now, he, -⟩ | ⟨timedOut, now, he, -⟩⟩
  · obtain ⟨ctx, env, clock, tool, args, he, -⟩ := harrives
    simp [hplace, he, Event.isDispatch]
  all_goals simp [hplace, he, Event.isDispatch]

/-! ## The dispatches in flight, with their numbers -/

/-- Where each dispatch in flight is, under its number. -/
def numbered (t : Trail F) : List (ℕ × Flight F × Phase F) := t.waiting.zip t.system.inFlight

omit [PyFloat F] [UnicodeDb] in
/-- Two lists lose the item at the same place, so what is left of them still
belongs together. -/
theorem zip_leftBy {α β : Type} (xs : List α) (ys : List β) (place : Option ℕ) :
    (leftBy xs place).zip (leftBy ys place) = leftBy (xs.zip ys) place := by
  cases place with
  | none => rfl
  | some i =>
      simp only [leftBy]
      induction xs generalizing ys i with
      | nil => simp
      | cons x xs ih =>
          cases ys with
          | nil => simp
          | cons y ys =>
              cases i with
              | zero => rfl
              | succ i => simpa using ih ys i

/-- What a step puts on record where a dispatch moves. -/
theorem eq_record_of_moved (h : t.Step srv e u) {m : Move F}
    (hm : t.system.moved srv e.1 = some m) : u = t.record srv u.system m e.1.now e.2 := by
  obtain ⟨-, ⟨m', hm', hu⟩ | ⟨-, -, -, -, hnone, -⟩ | ⟨-, hnone, -⟩⟩ := step_cases h
  · rwa [Option.some.inj (hm.symm.trans hm')]
  · rw [hm] at hnone
    cases hnone
  · rw [hm] at hnone
    cases hnone

/-- What a move does to them, and to the starts. -/
theorem numbered_of_moved (ht : t.Numbered) (h : t.Step srv e u) {m : Move F}
    (hm : t.system.moved srv e.1 = some m) :
    u.numbered = leftBy t.numbered m.place ++
        (m.next.1.phase?.map fun phase => (t.number m, m.flight, phase)).toList ∧
      u.starts = t.starts ++ List.replicate m.next.1.starts (t.number m, m.flight) := by
  have hinFlight := (System.step_of_moved (step_cases h).1 hm).1
  have hlength := length_leftBy ht.length m.place
  have hu := eq_record_of_moved h hm
  rcases hnext : m.next.1 with phase | result
  · constructor
    · rw [numbered, hinFlight, hu, record]
      simp only [hnext, Progress.phase?, Option.map_some, Option.toList_some]
      rw [List.zip_append hlength, zip_leftBy]
      rfl
    · rw [hu, record]
      simp only [hnext]
  · constructor
    · rw [numbered, hinFlight, hu, record]
      simp only [hnext, Progress.phase?, Option.map_none, Option.toList_none, List.append_nil]
      exact zip_leftBy _ _ _
    · rw [hu, record]
      simp only [hnext]

/-- Where none moves they stay. -/
theorem numbered_of_not_moved (h : t.Step srv e u) (hnone : t.system.moved srv e.1 = none) :
    u.numbered = t.numbered ∧ u.starts = t.starts ∧ u.log = t.log := by
  obtain ⟨hsystem, ⟨m, hm, -⟩ | ⟨ctx, env, clock, -, -, hu⟩ | ⟨-, -, hu⟩⟩ := step_cases h
  · rw [hm] at hnone
    cases hnone
  all_goals
    have hinFlight := (System.step_of_not_moved hsystem hnone).1
    rw [numbered, hinFlight, hu]
    exact ⟨rfl, rfl, rfl⟩

/-- A dispatch that was in flight moves from its place, under its number. -/
theorem mem_numbered_of_place (ht : t.Numbered) {m : Move F} {i : ℕ} (hplace : m.place = some i)
    (hm : t.system.moved srv e.1 = some m) :
    ∃ phase, t.numbered[i]? = some (t.number m, m.flight, phase) := by
  rcases System.moved_cases hm with ⟨hnone, -⟩ | ⟨j, phase, hj, hi, -⟩
  · rw [hplace] at hnone
    cases hnone
  · obtain rfl : j = i := Option.some.inj (hj.symm.trans hplace)
    have hlt : j < t.waiting.length := by
      rw [ht.length]
      exact (List.getElem?_eq_some_iff.mp hi).1
    refine ⟨phase, ?_⟩
    rw [numbered, List.getElem?_zip_eq_some]
    refine ⟨?_, hi⟩
    rw [number, hplace, List.getElem?_eq_getElem hlt]
    exact congrArg some (List.getD_eq_getElem _ _ hlt).symm

/-- A dispatch in flight stays, unless it is the one that moves. -/
theorem numbered_stays (ht : t.Numbered) {m : Move F} (hm : t.system.moved srv e.1 = some m)
    {x : ℕ × Flight F × Phase F} (hx : x ∈ t.numbered) :
    x ∈ leftBy t.numbered m.place ∨ x.1 = t.number m ∧ x.2.1 = m.flight := by
  cases hplace : m.place with
  | none => exact Or.inl hx
  | some i =>
      obtain ⟨phase, hi⟩ := mem_numbered_of_place ht hplace hm
      obtain ⟨hlt, hget⟩ := List.getElem?_eq_some_iff.mp hi
      have hmem : x ∈ t.numbered[i] :: t.numbered.eraseIdx i :=
        (List.getElem_cons_eraseIdx_perm hlt).mem_iff.mpr hx
      rcases List.mem_cons.mp hmem with rfl | hx
      · rw [hget]
        exact Or.inr ⟨rfl, rfl⟩
      · exact Or.inl hx

/-! ## What is on record -/

/-- The dispatch arrived with this number, and all its gates let it through in
the state it found. -/
def ArrivedAs (srv : AtlasServer F) (s : ServerState F) (events : List (Event F × String))
    (n : ℕ) (f : Flight F) : Prop :=
  ∃ before after v,
    events.map Prod.fst = before ++ .dispatch f.context f.envelope f.clock :: after ∧
    before.countP Event.isDispatch = n ∧ Run (System.Step srv) { server := s } before v ∧
    Admitted srv v.server f.context f.envelope f.clock f.tool f.args

/-- How a dispatch has arrived does not change with what comes later. -/
theorem ArrivedAs.snoc {n : ℕ} {f : Flight F} (h : ArrivedAs srv s events n f)
    (e : Event F × String) :
    ArrivedAs srv s (events ++ [e]) n f := by
  obtain ⟨before, after, v, hevents, hv⟩ := h
  exact ⟨before, after ++ [e.1], v, by rw [List.map_append, hevents]; simp, hv⟩

/-- Every dispatch in flight has arrived with its number, every start is of a
dispatch that is in flight or in the log under its number, and every line is
of the dispatch with its number. -/
structure Accounts (srv : AtlasServer F) (s : ServerState F) (events : List (Event F × String))
    (t : Trail F) : Prop where
  accurate : t.Accurate
  arrived : t.arrived = (events.map Prod.fst).countP Event.isDispatch
  starts : t.starts.map Prod.snd = t.system.started
  inFlight : ∀ x ∈ t.numbered, ArrivedAs srv s events x.1 x.2.1
  log : ∀ y ∈ t.log, ∃ f, ArrivedAs srv s events y.1 f ∧ y.2.TellsOf f
  traced : ∀ x ∈ t.starts, (∃ phase, (x.1, x.2, phase) ∈ t.numbered) ∨
    ∃ line, (x.1, line) ∈ t.log ∧ line.TellsOf x.2

/-- At the start there is no dispatch to be accounted for. -/
theorem accounts_ofState : Accounts srv s [] (ofState s) where
  accurate := ⟨⟨rfl, by simp [ofState], by simp [ofState], by simp [ofState], by simp [ofState]⟩,
    by simp [ofState], by simp [ofState]⟩
  arrived := rfl
  starts := rfl
  inFlight := by simp [numbered, ofState]
  log := by simp [ofState]
  traced := by simp [ofState]

/-- The dispatch that moves has arrived with its number. -/
theorem Accounts.arrivedAs (ht : Accounts srv s events t)
    (hrun : Run (Step srv) (ofState s) events t) {m : Move F}
    (hm : t.system.moved srv e.1 = some m) :
    ArrivedAs srv s (events ++ [e]) (t.number m) m.flight := by
  cases hplace : m.place with
  | none =>
      rcases System.moved_cases hm with ⟨-, s', harrives, -⟩ | ⟨i, phase, hi, -⟩
      · obtain ⟨ctx, env, clock, tool, args, he, hgates, hflight⟩ := harrives
        refine ⟨events.map Prod.fst, [], t.system, ?_, ?_, run_system hrun, ?_⟩
        · rw [List.map_append, List.map_singleton, he, hflight]
          rfl
        · rw [number, hplace, ← ht.arrived]
          rfl
        · rw [hflight]
          exact admitted_of_gates hgates
      · rw [hplace] at hi
        cases hi
  | some i =>
      obtain ⟨phase, hi⟩ := mem_numbered_of_place ht.accurate.numbered hplace hm
      exact (ht.inFlight _ (List.mem_of_getElem? hi)).snoc e

omit [UnicodeDb] in
/-- The event that is written for a dispatch has its tenant, its tool, and
whatever else the envelope says. -/
theorem tellsOf_auditEvent (f : Flight F) (durationMs : ℚ)
    (result : Except (Exc F) (Value F)) (ts : String) :
    (auditEvent f.envelope f.tool durationMs result ts).TellsOf f :=
  ⟨⟨rfl, rfl, rfl, rfl, rfl⟩, rfl⟩

omit [UnicodeDb] in
/-- What a move adds to the log is a line that tells of the dispatch, under
its number. -/
theorem mem_log_record {m : Move F} {v : System F} {now : ℚ} {ts : String} {y : ℕ × AuditEvent}
    (hy : y ∈ (t.record srv v m now ts).log) :
    y ∈ t.log ∨ y.1 = t.number m ∧ y.2.TellsOf m.flight := by
  rcases hnext : m.next.1 with phase | result
  · rw [record, hnext] at hy
    exact Or.inl hy
  · rw [record, hnext] at hy
    by_cases haudit : srv.settings.auditEnabled = true
    · simp only [haudit, if_true] at hy
      rcases List.mem_append.mp hy with hy | hy
      · exact Or.inl hy
      · obtain rfl := List.mem_singleton.mp hy
        exact Or.inr ⟨rfl, tellsOf_auditEvent _ _ _ _⟩
    · simp only [haudit, Bool.false_eq_true, if_false] at hy
      exact Or.inl hy

omit [UnicodeDb] in
/-- A dispatch that ends is in the log afterwards. -/
theorem exists_line_of_ended (haudit : srv.settings.auditEnabled = true) {m : Move F} {v : System F}
    {now : ℚ} {ts : String} {result : Except (Exc F) (Value F)} (hnext : m.next.1 = .ended result) :
    ∃ line, (t.number m, line) ∈ (t.record srv v m now ts).log ∧ line.TellsOf m.flight := by
  refine ⟨auditEvent m.flight.envelope m.flight.tool ((now - m.flight.clock.now) * 1000) result ts,
    ?_, tellsOf_auditEvent _ _ _ _⟩
  rw [record, hnext]
  simp [haudit]

omit [UnicodeDb] in
/-- The log only grows. -/
theorem log_subset_record {m : Move F} {v : System F} {now : ℚ} {ts : String} :
    t.log ⊆ (t.record srv v m now ts).log := by
  intro y hy
  rw [record]
  split
  · exact hy
  · dsimp only
    split
    · exact List.mem_append_left _ hy
    · exact hy

/-- The number of arrivals after an event. -/
theorem arrived_of_step (h : t.Step srv e u) :
    u.arrived = if e.1.isDispatch then t.arrived + 1 else t.arrived := by
  obtain ⟨-, ⟨m, hm, hu⟩ | ⟨ctx, env, clock, he, -, hu⟩ | ⟨hnot, -, hu⟩⟩ := step_cases h
  · have hrecorded : u.arrived = if m.place = none then t.arrived + 1 else t.arrived := by
      rw [hu, record]
      split <;> rfl
    simp only [hrecorded, place_eq_none_iff hm]
  · rw [hu, he]
    rfl
  · have hother : e.1.isDispatch = false := by
      rcases he : e.1 with ⟨ctx, env, clock⟩ | _ | _ | _ | _ | _ | _ | _
      · exact absurd he (hnot ctx env clock)
      all_goals rfl
    rw [hu, hother]
    rfl

/-- An event keeps the accounts. -/
theorem Accounts.step (ht : Accounts srv s events t) (haudit : srv.settings.auditEnabled = true)
    (hrun : Run (Step srv) (ofState s) events t) (h : t.Step srv e u) :
    Accounts srv s (events ++ [e]) u := by
  have hsystem := (step_cases h).1
  have harrived : u.arrived = ((events ++ [e]).map Prod.fst).countP Event.isDispatch := by
    rw [arrived_of_step h, ht.arrived, List.map_append, List.countP_append, List.map_singleton,
      List.countP_singleton]
    split <;> rfl
  cases hm : t.system.moved srv e.1 with
  | none =>
      obtain ⟨hnumbered, hstarts, hlog⟩ := numbered_of_not_moved h hm
      refine ⟨ht.accurate.step h, harrived, ?_, ?_, ?_, ?_⟩
      · rw [hstarts, (System.step_of_not_moved hsystem hm).2]
        exact ht.starts
      · rw [hnumbered]
        exact fun x hx => (ht.inFlight x hx).snoc e
      · rw [hlog]
        intro y hy
        obtain ⟨f, hf, htells⟩ := ht.log y hy
        exact ⟨f, hf.snoc e, htells⟩
      · rw [hstarts, hnumbered, hlog]
        exact ht.traced
  | some m =>
      obtain ⟨hnumbered, hstarts⟩ := numbered_of_moved ht.accurate.numbered h hm
      have hu := eq_record_of_moved h hm
      have hsubset : t.log ⊆ u.log := by
        rw [hu]
        exact log_subset_record
      -- the dispatch that moves is in flight afterwards, or its line is written
      have hmoved : (∃ phase, (t.number m, m.flight, phase) ∈ u.numbered) ∨
          ∃ line, (t.number m, line) ∈ u.log ∧ line.TellsOf m.flight := by
        rcases hnext : m.next.1 with phase | result
        · refine Or.inl ⟨phase, ?_⟩
          rw [hnumbered, hnext]
          exact List.mem_append_right _ (by simp [Progress.phase?])
        · rw [hu]
          exact Or.inr (exists_line_of_ended haudit hnext)
      refine ⟨ht.accurate.step h, harrived, ?_, ?_, ?_, ?_⟩
      · rw [hstarts, (System.step_of_moved hsystem hm).2, List.map_append, ht.starts,
          List.map_replicate]
      · intro x hx
        rw [hnumbered] at hx
        rcases List.mem_append.mp hx with hx | hx
        · exact (ht.inFlight x (Ledger.mem_of_mem_leftBy hx)).snoc e
        · obtain ⟨phase, -, rfl⟩ := Option.map_eq_some_iff.mp (Option.mem_toList.mp hx)
          exact ht.arrivedAs hrun hm
      · intro y hy
        rw [hu] at hy
        rcases mem_log_record hy with hy | ⟨hnumber, htells⟩
        · obtain ⟨f, hf, htells⟩ := ht.log y hy
          exact ⟨f, hf.snoc e, htells⟩
        · rw [hnumber]
          exact ⟨m.flight, ht.arrivedAs hrun hm, htells⟩
      · intro x hx
        rw [hstarts] at hx
        rcases List.mem_append.mp hx with hx | hx
        · rcases ht.traced x hx with ⟨phase, hphase⟩ | ⟨line, hline, htells⟩
          · rcases numbered_stays ht.accurate.numbered hm hphase with hstays | ⟨hnumber, hflight⟩
            · rw [hnumbered]
              exact Or.inl ⟨phase, List.mem_append_left _ hstays⟩
            · obtain rfl : x = (t.number m, m.flight) := Prod.ext hnumber hflight
              exact hmoved
          · exact Or.inr ⟨line, hsubset hline, htells⟩
        · obtain rfl := List.eq_of_mem_replicate hx
          exact hmoved

/-- Every run keeps them. -/
theorem accounts_of_run (haudit : srv.settings.auditEnabled = true)
    (hrun : Run (Step srv) (ofState s) events t) : Accounts srv s events t := by
  induction hrun with
  | nil => exact accounts_ofState
  | snoc hbefore hlast ih => exact ih.step haudit hbefore hlast

/-- **The log accounts for what was done.**  With auditing enabled and
approvals required, in every run of a server: no two lines have the number of
one dispatch; each dispatch that has started its tool is still in flight, or
the line under its number tells of it; and each line of a destructive tool is
of the dispatch with its number, which called that tool, and for which, when
it arrived, the latest judgement of the id that the line gives was an
approval, and had not expired. -/
theorem accounted_for (haudit : srv.settings.auditEnabled = true)
    (hrequired : srv.settings.destructiveToolRequiresApproval = true)
    (hrun : Run (Step srv) (ofState srv.initial) events t) :
    (t.log.map Prod.fst).Nodup ∧ t.starts.map Prod.snd = t.system.started ∧
    (∀ x ∈ t.starts, (∃ phase, (x.1, x.2, phase) ∈ t.numbered) ∨
      ∃ line, (x.1, line) ∈ t.log ∧ line.TellsOf x.2) ∧
    ∀ y ∈ t.log, ∀ tool, srv.registry.tools.lookup y.2.tool = some tool →
      tool.metadata.destructive = true →
      ∃ before after ctx env clock approvedAt,
        events.map Prod.fst = before ++ .dispatch ctx env clock :: after ∧
        before.countP Event.isDispatch = y.1 ∧ y.2.Tells env ∧ env.tool = y.2.tool ∧
        LastJudged srv (System.start srv) before y.2.approvalId .approved approvedAt ∧
        clock.now ≤ approvedAt + approvalTtlSeconds := by
  have ht := accounts_of_run haudit hrun
  refine ⟨ht.accurate.nodup, ht.starts, ht.traced, fun y hy tool htool hdestructive => ?_⟩
  obtain ⟨f, ⟨before, after, v, hevents, hnumber, hbefore, hadmitted⟩, htells⟩ := ht.log y hy
  obtain ⟨hlookup, hname⟩ := ToolRegistry.lookup_of_get hadmitted.registered
  have hcalled : f.envelope.tool = y.2.tool := hname.symm.trans htells.tool.symm
  rw [hcalled, htool] at hlookup
  obtain rfl := Option.some.inj hlookup
  obtain ⟨-, approvedAt, hjudged, hexpiry⟩ :=
    judged_of_approved (System.faithful_of_run rfl hbefore)
      (hadmitted.approved hdestructive hrequired)
  refine ⟨before, after, f.context, f.envelope, f.clock, approvedAt, hevents, hnumber,
    htells.tells, hcalled, ?_, hexpiry⟩
  rw [htells.approvalId]
  exact hjudged

/-- What a trail does depends on the requirement of approvals through its
system alone. -/
theorem carries : Carries (F := F) step system fun _ e => some e.1 where
  does srv t e u h := ⟨e.1, rfl, (step_cases h).1⟩
  trusts srv t e h := by
    simp only [step, System.step_trusting (h e.1 rfl), System.moved_trusting (h e.1 rfl)]
    rfl

end Trail

/-- A message that is sent on an approval, and again; the second is still on
its way. -/
def sentOnTrail : List (Event WholeFloat × String) :=
  sentTwice.map fun e => (e, "2026-01-01T00:00:00+00:00")

/-- A run in which the mail is sent twice: the first dispatch has its line,
under its number, and the second one is under way. -/
theorem sent_messages_accounted_for : ∃ t,
    Run (Trail.Step (sendServer false)) (Trail.ofState (sendServer false).initial)
      sentOnTrail t ∧
    t.log.map (fun y => (y.1, y.2.tool)) = [(1, "mail.send")] ∧
    t.starts.map Prod.fst = [1, 2] ∧
    (∀ x ∈ t.starts, (∃ phase, (x.1, x.2, phase) ∈ t.numbered) ∨
      ∃ line, (x.1, line) ∈ t.log ∧ line.TellsOf x.2) ∧
    ∀ y ∈ t.log, ∃ before approvedAt, before <+: sentOnTrail.map Prod.fst ∧
      before.countP Event.isDispatch = y.1 ∧
      LastJudged (sendServer false) (System.start (sendServer false)) before y.2.approvalId
        .approved approvedAt := by
  obtain ⟨t, hstopped, hfound, t₁, hjudged, t₂, hafter, hlog, hstarts⟩ : ∃ t ∈ exec
      (Trail.step (sendServer false)) (Trail.ofState (sendServer false).initial)
        (sentOnTrail.take 1),
      (∃ entry ∈ t.system.server.approvals.store.lookup sendId, 1 ≤ entry.2) ∧
      ∃ t₁ ∈ t.step (sendServer false)
        (.judge sendId .approved "ops:jane" 1, "2026-01-01T00:00:00+00:00"),
      ∃ t₂ ∈ exec (Trail.step (sendServer false).trusting) t₁ (sentOnTrail.drop 2),
      t₂.log.map (fun y => (y.1, y.2.tool)) = [(1, "mail.send")] ∧
      t₂.starts.map Prod.fst = [1, 2] := by
    decide +kernel
  have hcalls : ∀ e ∈ sentOnTrail.drop 2, e.1.CallsOnly (sendServer false) sendId
      (1 + approvalTtlSeconds) := by decide +kernel
  have hrun := Trail.carries.run_of_approved rfl (Run.of_exec hstopped) hfound rfl hjudged
    (fun e he _ e' he' => Option.some.inj he' ▸ hcalls e he) (Run.of_exec hafter)
  have haudit : (sendServer false).settings.auditEnabled = true := rfl
  have hrequired : (sendServer false).settings.destructiveToolRequiresApproval = true := rfl
  obtain ⟨-, -, htraced, happroved⟩ := Trail.accounted_for haudit hrequired hrun
  refine ⟨t₂, hrun, hlog, hstarts, htraced, fun y hy => ?_⟩
  have htool : y.2.tool = "mail.send" := by
    have hmem := List.mem_map_of_mem (f := fun y : ℕ × AuditEvent => (y.1, y.2.tool)) hy
    rw [hlog] at hmem
    exact (Prod.mk.inj (List.mem_singleton.mp hmem)).2
  obtain ⟨before, after, ctx, env, clock, approvedAt, hevents, hnumber, -, -, hjudged, -⟩ :=
    happroved y hy (sendTool false) (by rw [htool]; rfl) rfl
  exact ⟨before, approvedAt, ⟨_, hevents.symm⟩, hnumber, hjudged⟩

end Server
