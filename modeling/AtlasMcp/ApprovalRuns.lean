import AtlasMcp.ApprovalGate
import AtlasMcp.GuardedRuns
import AtlasMcp.StoreRecords

/-!
# What an approval unlocks

Calls come to the gate and humans judge them, in any order and at any times that never
step back.  `granted_of_enforce` says what it takes to get through: the same call has
been stopped before, and the latest judgement of its record was an approval that has not
expired.

The invariant is on the store: every record reads as one that a stopped call created,
and says `pending` or what its latest judgement said.  Tenant, tool and arguments of the
call are read off the key, if names of tools have no colon and the digests of arguments
do not collide.
-/

namespace Governance

open PyJson PyText Errors Tools StoreRecords GuardedRuns

variable {F : Type}

/-- A call of `enforce`; its arguments are a dictionary, so that no key occurs
twice in them. -/
structure GatedCall (F : Type) extends ApprovalRequest F where
  wf : (Value.dict arguments).Wf

/-- A call of one of the gate's methods: a dispatch that asks to be let through,
or a human who approves or denies. -/
inductive GateCall (F : Type)
  | enforce (r : GatedCall F) (createdAt : String)
  | judge (approvalId : String) (verdict : Verdict) (approver : String)

/-- The call is an approval or a denial of the record. -/
def GateCall.Judges (approvalId : String) : GateCall F → Prop
  | .enforce _ _ => False
  | .judge id _ _ => id = approvalId

/-- A store of approvals and the time of the last call.  Its runs are the orders
in which calls and judgements can come. -/
structure Queue where
  store : InMemoryApprovalStore := {}
  clock : ℚ

namespace PendingApproval

/-- The record is made of JSON types, so that it is read back from the store as
it was written. -/
def Plain (a : PendingApproval F) : Prop :=
  (Value.dict a.asdict).Wf ∧ (Value.dict a.asdict).Native

theorem plain_newApproval [PyFloat F] (r : ApprovalRequest F) (createdAt : String) :
    (newApproval r createdAt).Plain := by
  cases hdelegator : r.delegator <;>
    simp [Plain, asdict, newApproval, Value.Wf, Value.WfMembers, Value.Native,
      Value.NativeMembers, optStr, hdelegator]

/-- A judgement leaves a record made of JSON types. -/
theorem Plain.judged {a : PendingApproval F} (h : a.Plain) (verdict : Verdict)
    (approver : String) :
    Plain { a with state := .str verdict.text, approver := .str approver } := by
  simp only [Plain, asdict, Value.Wf, Value.WfMembers, Value.Native,
    Value.NativeMembers] at h ⊢
  tauto

/-- Such a record is read back as it was written. -/
theorem Plain.ofText_dumps [PyFloat F] {a : PendingApproval F} (h : a.Plain) :
    ofText (dumps (.dict a.asdict)) = .ok a := by
  have hloads : loads (dumps (.dict a.asdict)) = some (.dict a.asdict) := by
    rw [loads_dumps h.1, Value.jsonify_of_native _ h.2]
  simp only [ofText, hloads]
  rfl

end PendingApproval

namespace InMemoryApprovalStore

/-- A read finds an unexpired text and changes nothing, or there is no record
after it. -/
theorem get_cases (s : InMemoryApprovalStore) (key : String) (now : ℚ) :
    (∃ raw expiresAt, s.store.lookup key = some (raw, expiresAt) ∧ now ≤ expiresAt ∧
      s.get key now = (some raw, s)) ∨
    ((s.get key now).1 = none ∧ (s.get key now).2.store.lookup key = none ∧
      Sub (s.get key now).2.store s.store) := by
  unfold get
  cases hlookup : s.store.lookup key with
  | none => exact Or.inr ⟨rfl, hlookup, Sub.refl _⟩
  | some entry =>
      obtain ⟨raw, expiresAt⟩ := entry
      by_cases hexpired : expiresAt < now
      · right
        simp only [hexpired, if_true]
        exact ⟨trivial, AList.lookup_erase key s.store, sub_erase s.store key⟩
      · left
        simp only [hexpired, if_false]
        exact ⟨raw, expiresAt, rfl, not_lt.mp hexpired, rfl⟩

end InMemoryApprovalStore

section Runs

variable [PyFloat F] [UnicodeDb]

section Spec

variable {P : String → String × ℚ → Prop} {s : InMemoryApprovalStore} {now : ℚ}

/-- `enforce` writes nothing but the record of a call it stops. -/
theorem records_enforce {r : ApprovalRequest F} {createdAt : String}
    (hs : Records P s.store)
    (hnew : (enforce s r createdAt now).1 =
        .error (.tool (pendingApprovalError (newApproval r createdAt))) →
      P (approvalId r.tenant r.tool r.arguments)
        (dumps (.dict (newApproval r createdAt).asdict), now + approvalTtlSeconds)) :
    Records P (enforce s r createdAt now).2.store := by
  rcases s.get_cases (approvalId r.tenant r.tool r.arguments) now with
    ⟨raw, expiresAt, hlookup, hlive, hget⟩ | ⟨hnone, hlookup, hsub⟩
  · simp only [enforce, hget]
    split
    · exact hs
    · split
      · exact hs
      · split <;> exact hs
  · have hwritten := hnew (by simp only [enforce, hnone])
    simp only [enforce, hnone]
    exact Records.insert ((hs.of_sub hsub).imp fun _ _ h _ => h) hwritten

/-- A judgement of readable records writes the one it judges; a record it does
not find is gone. -/
theorem records_transition {key approver : String} {verdict : Verdict}
    (hs : Records (fun k e => k ≠ key → P k e) s.store)
    (hjudged : ∀ entry, s.store.lookup key = some entry → ∃ a : PendingApproval F,
      PendingApproval.ofText entry.1 = .ok a ∧
      ((∃ a : PendingApproval F, (transition s key verdict approver now).1 = .ok a) →
        P key (dumps (.dict (PendingApproval.asdict
          { a with state := .str verdict.text, approver := .str approver })),
          now + approvalTtlSeconds))) :
    Records P (transition (F := F) s key verdict approver now).2.store := by
  rcases s.get_cases key now with
    ⟨raw, expiresAt, hlookup, hlive, hget⟩ | ⟨hnone, hlookup, hsub⟩
  · obtain ⟨a, htext, hwritten⟩ := hjudged _ hlookup
    have hrecord := hwritten (by simp only [transition, hget, htext]; exact ⟨_, rfl⟩)
    simp only [transition, hget, htext]
    exact Records.insert hs hrecord
  · simp only [transition, hnone]
    intro k entry hk
    have hother : k ≠ key := by
      intro heq
      rw [heq, hlookup] at hk
      cases hk
    exact hs k entry (hsub k entry hk) hother

end Spec

/-- A record under its key: it was written by the gate, and is pending or says
what a judgement said that `H` knows of, for as long as that counts. -/
def Faithful (H : String → Verdict → ℚ → Prop) (key : String) (entry : String × ℚ) : Prop :=
  ∃ a : PendingApproval F, a.Plain ∧ entry.1 = dumps (.dict a.asdict) ∧
    (a.state = .str "pending" ∨ ∃ verdict judgedAt, a.state = .str verdict.text ∧
      H key verdict judgedAt ∧ entry.2 = judgedAt + approvalTtlSeconds)

section Faithful

variable {H H' : String → Verdict → ℚ → Prop} {s : InMemoryApprovalStore} {now : ℚ}

omit [UnicodeDb] in
/-- What is faithful to one history is so to another one that has all of
it. -/
theorem Faithful.imp {key : String} {entry : String × ℚ}
    (h : Faithful (F := F) H key entry)
    (hsub : ∀ verdict judgedAt, H key verdict judgedAt → H' key verdict judgedAt) :
    Faithful (F := F) H' key entry := by
  obtain ⟨a, hplain, htext, hstate⟩ := h
  refine ⟨a, hplain, htext, hstate.imp_right fun h => ?_⟩
  obtain ⟨verdict, judgedAt, hverdict, hjudged, hexpiry⟩ := h
  exact ⟨verdict, judgedAt, hverdict, hsub verdict judgedAt hjudged, hexpiry⟩

/-- `enforce` keeps every record faithful. -/
theorem faithful_enforce (hs : Records (Faithful (F := F) H) s.store)
    (r : ApprovalRequest F) (createdAt : String) :
    Records (Faithful (F := F) H) (enforce s r createdAt now).2.store := by
  apply records_enforce hs
  intro _
  exact ⟨newApproval r createdAt, PendingApproval.plain_newApproval r createdAt, rfl,
    Or.inl rfl⟩

/-- A judgement keeps them so, if it is known wherever it went through. -/
theorem faithful_transition {key approver : String} {verdict : Verdict}
    (hs : Records (Faithful (F := F) H) s.store)
    (hother : ∀ k v judgedAt, k ≠ key → H k v judgedAt → H' k v judgedAt)
    (hjudged : ∀ a : PendingApproval F, (transition s key verdict approver now).1 = .ok a →
      H' key verdict now) :
    Records (Faithful (F := F) H')
      (transition (F := F) s key verdict approver now).2.store := by
  apply records_transition
  · intro k entry hlookup hk
    exact (hs k entry hlookup).imp fun v judgedAt h => hother k v judgedAt hk h
  · intro entry hlookup
    obtain ⟨a, hplain, htext, -⟩ := hs key entry hlookup
    refine ⟨a, htext ▸ hplain.ofText_dumps, fun h => ?_⟩
    obtain ⟨b, hok⟩ := h
    exact ⟨_, hplain.judged verdict approver, rfl,
      Or.inr ⟨verdict, now, rfl, hjudged b hok, rfl⟩⟩

omit [UnicodeDb] in
/-- **The gate reads what the judgement wrote.**  While every record is
faithful, only an approval that has not expired makes a call an approved
one. -/
theorem judged_of_approved (hs : Records (Faithful (F := F) H) s.store)
    {r : ApprovalRequest F} (happroval : Approved s r now) :
    s.store.lookup (approvalId r.tenant r.tool r.arguments) ≠ none ∧
    ∃ approvedAt, H (approvalId r.tenant r.tool r.arguments) .approved approvedAt ∧
      now ≤ approvedAt + approvalTtlSeconds := by
  obtain ⟨raw, a, hget, htext, happroved⟩ := happroval
  rcases s.get_cases (approvalId r.tenant r.tool r.arguments) now with
    ⟨raw', expiresAt, hlookup, hlive, hget'⟩ | ⟨hnone, -, -⟩
  · obtain rfl : raw' = raw := by simpa [hget] using congrArg Prod.fst hget'.symm
    obtain ⟨b, hplain, hraw, hstate⟩ := hs _ _ hlookup
    obtain rfl : raw' = dumps (.dict b.asdict) := hraw
    obtain rfl : b = a := by simpa [hplain.ofText_dumps] using htext
    refine ⟨by simp [hlookup], ?_⟩
    rcases hstate with hpending | ⟨verdict, judgedAt, hverdict, hjudged, hexpiry⟩
    · rw [happroved] at hpending
      simp at hpending
    · rw [happroved] at hverdict
      obtain rfl : verdict = .approved := by
        cases verdict
        · rfl
        · simp [Verdict.text] at hverdict
      exact ⟨judgedAt, hjudged, hexpiry ▸ hlive⟩
  · rw [hget] at hnone
    cases hnone

/-- The record of the id is an approval, up to its expiry. -/
def Grants (F : Type) [PyFloat F] (s : InMemoryApprovalStore) (key : String) (expiresAt : ℚ) :
    Prop :=
  ∃ a : PendingApproval F, a.Plain ∧ a.state = .str "approved" ∧
    s.store.lookup key = some (dumps (.dict a.asdict), expiresAt)

/-- An approval that found its record grants the id. -/
theorem grants_of_transition {key approver : String}
    (hs : Records (Faithful (F := F) H) s.store)
    (hfound : ∃ entry ∈ s.store.lookup key, now ≤ entry.2) :
    Grants F (transition (F := F) s key .approved approver now).2 key
      (now + approvalTtlSeconds) := by
  obtain ⟨⟨raw, expiresAt⟩, hlookup, hlive⟩ := hfound
  obtain ⟨a, hplain, htext, -⟩ := hs key _ hlookup
  obtain rfl : raw = dumps (.dict a.asdict) := htext
  have hget : s.get key now = (some (dumps (.dict a.asdict)), s) := by
    simp only [InMemoryApprovalStore.get, Option.mem_def.mp hlookup, not_lt.mpr hlive, if_false]
  simp only [transition, hget, hplain.ofText_dumps]
  exact ⟨_, hplain.judged .approved approver, rfl, AList.lookup_insert _⟩

omit [UnicodeDb] in
/-- What is granted is approved as long as it has not expired. -/
theorem approved_of_grants {r : ApprovalRequest F} {expiresAt : ℚ}
    (h : Grants F s (approvalId r.tenant r.tool r.arguments) expiresAt)
    (hlive : now ≤ expiresAt) : Approved s r now := by
  obtain ⟨a, hplain, hstate, hlookup⟩ := h
  refine ⟨_, a, ?_, hplain.ofText_dumps, hstate⟩
  simp only [InMemoryApprovalStore.get, hlookup, not_lt.mpr hlive, if_false]

/-- An approved call passes, and the store stays as it is. -/
theorem enforce_eq_of_approved {r : ApprovalRequest F} (h : Approved s r now)
    (createdAt : String) : enforce s r createdAt now = (.ok (), s) := by
  refine Prod.ext (enforce_of_approved h createdAt) ?_
  obtain ⟨raw, a, hraw, htext, hstate⟩ := h
  rcases s.get_cases (approvalId r.tenant r.tool r.arguments) now with
    ⟨raw', expiresAt, -, -, hget⟩ | ⟨hnone, -, -⟩
  · obtain rfl : raw' = raw := by simpa [hraw] using congrArg Prod.fst hget.symm
    have happroved : Auth.PolicyEngine.isStr "approved" a.state = true := by
      rw [hstate]
      rfl
    simp only [enforce, hget, htext, happroved, if_true]
  · rw [hraw] at hnone
    cases hnone

end Faithful

namespace Queue

/-- The queue at its start, with nothing waiting. -/
def start (clock : ℚ) : Queue where
  clock

/-- The store after a call. -/
def after (q : Queue) (now : ℚ) : GateCall F → InMemoryApprovalStore
  | .enforce r createdAt => (enforce q.store r.toApprovalRequest createdAt now).2
  | .judge approvalId verdict approver =>
      (transition (F := F) q.store approvalId verdict approver now).2

/-- The gate takes the next call, at a time that is not before the last
one. -/
def step (q : Queue) (c : GateCall F × ℚ) : Option Queue :=
  if q.clock ≤ c.2 then some ⟨q.after c.2 c.1, c.2⟩ else none

/-- One call. -/
def Step (q : Queue) (c : GateCall F × ℚ) (q' : Queue) : Prop := q.step c = some q'

/-- What a step of the queue does: time does not go back, and the store is as
the call leaves it. -/
theorem step_cases {q q' : Queue} {c : GateCall F × ℚ} (h : q.Step c q') :
    q.clock ≤ c.2 ∧ q' = ⟨q.after c.2 c.1, c.2⟩ := by
  obtain ⟨hclock, rfl⟩ : q.clock ≤ c.2 ∧ (⟨q.after c.2 c.1, c.2⟩ : Queue) = q' := by
    simpa [Step, step] using h
  exact ⟨hclock, rfl⟩

end Queue

/-- The arguments are equal as JSON values, whatever the order of their keys:
that is what their digests compare. -/
def JsonEqual (kvs kvs' : List (String × Value F)) : Prop :=
  (Value.dict kvs).sortKeys.jsonify = (Value.dict kvs').sortKeys.jsonify

/-- The id of the record of a call. -/
def GatedCall.id (r : GatedCall F) : String := approvalId r.tenant r.tool r.arguments

/-- In the course of the calls, `enforce` stopped this one for approval, with
the error that tells its caller so. -/
def Stopped (clock : ℚ) (calls : List (GateCall F × ℚ)) (r : GatedCall F) : Prop :=
  ∃ createdAt now q e, Did Queue.Step (Queue.start clock) calls (.enforce r createdAt, now) q ∧
    (enforce q.store r.toApprovalRequest createdAt now).1 = .error (.tool e) ∧
    e.cls = .pendingApprovalError

/-- The latest judgement of the record was made then, and went through.  A
judgement fails where there is no record that has not expired. -/
def Judged (clock : ℚ) (calls : List (GateCall F × ℚ)) (key : String) (verdict : Verdict)
    (judgedAt : ℚ) : Prop :=
  ∃ approver q a,
    LastDid Queue.Step (Queue.start clock) (fun c => c.1.Judges key) calls
      (.judge key verdict approver, judgedAt) q ∧
    (transition (F := F) q.store key verdict approver judgedAt).1 = .ok a

variable {clock : ℚ} {calls : List (GateCall F × ℚ)}

/-- A call stopped once was stopped, whatever comes later. -/
theorem Stopped.snoc {r : GatedCall F} (h : Stopped clock calls r) (c : GateCall F × ℚ) :
    Stopped clock (calls ++ [c]) r := by
  obtain ⟨createdAt, now, q, e, hdid, hraised⟩ := h
  exact ⟨createdAt, now, q, e, hdid.snoc c, hraised⟩

/-- The latest judgement stays so until the record is judged again. -/
theorem Judged.snoc {key : String} {verdict : Verdict} {judgedAt : ℚ}
    (h : Judged clock calls key verdict judgedAt) {c : GateCall F × ℚ}
    (hc : ¬ c.1.Judges key) : Judged clock (calls ++ [c]) key verdict judgedAt := by
  obtain ⟨approver, q, a, hlast, hok⟩ := h
  exact ⟨approver, q, a, hlast.snoc hc, hok⟩

/-- Every record is faithful to the judgements of the run. -/
theorem faithful_of_run {q : Queue} (hrun : Run Queue.Step (Queue.start clock) calls q) :
    Records (Faithful (F := F) (Judged clock calls)) q.store.store := by
  induction hrun with
  | nil => exact records_empty
  | @snoc calls c q q' hbefore hlast ih =>
      obtain ⟨call, now⟩ := c
      obtain ⟨hclock, rfl⟩ := Queue.step_cases hlast
      cases call with
      | enforce r createdAt =>
          refine faithful_enforce (ih.imp fun _ _ h => h.imp fun _ _ h => ?_) _ _
          exact h.snoc (by simp [GateCall.Judges])
      | judge id verdict approver =>
          apply faithful_transition ih
          · intro k v judgedAt hk h
            exact h.snoc fun h => hk h.symm
          · intro a hok
            exact ⟨approver, q, a, .last hbefore, hok⟩

/-- Every record is that of a call that was stopped. -/
theorem stopped_of_run {q : Queue} (hrun : Run Queue.Step (Queue.start clock) calls q) :
    Records (fun key _ => ∃ r : GatedCall F, r.id = key ∧ Stopped clock calls r)
      q.store.store := by
  induction hrun with
  | nil => exact records_empty
  | @snoc calls c q q' hbefore hlast ih =>
      have hsnoc : Records
          (fun key _ => ∃ r : GatedCall F, r.id = key ∧ Stopped clock (calls ++ [c]) r)
          q.store.store := by
        intro key entry hlookup
        obtain ⟨r, hkey, hstopped⟩ := ih key entry hlookup
        exact ⟨r, hkey, hstopped.snoc c⟩
      obtain ⟨call, now⟩ := c
      obtain ⟨hclock, rfl⟩ := Queue.step_cases hlast
      cases call with
      | enforce r createdAt =>
          apply records_enforce hsnoc
          intro hstopped
          exact ⟨r, rfl, createdAt, now, q, _, .last hbefore, hstopped, rfl⟩
      | judge id verdict approver =>
          apply records_transition
          · intro k entry hlookup _
            exact hsnoc k entry hlookup
          · intro entry hlookup
            obtain ⟨a, hplain, htext, -⟩ := faithful_of_run hbefore id entry hlookup
            exact ⟨a, htext ▸ hplain.ofText_dumps, fun _ => hsnoc id entry hlookup⟩

/-- No call was made after the last one. -/
theorem made_before_of_run {q : Queue} (hrun : Run Queue.Step (Queue.start clock) calls q) :
    ∀ c ∈ calls, c.2 ≤ q.clock := by
  induction hrun with
  | nil => simp
  | @snoc calls c q q' _ hlast ih =>
      obtain ⟨hclock, rfl⟩ := Queue.step_cases hlast
      intro d hd
      rcases List.mem_append.mp hd with hd | hd
      · exact (ih d hd).trans hclock
      · obtain rfl : d = c := by simpa using hd
        exact le_refl _

/-- The calls of `enforce` among the calls. -/
def enforced (calls : List (GateCall F × ℚ)) : List (GatedCall F) :=
  calls.filterMap fun c => match c.1 with
    | .enforce r _ => some r
    | .judge .. => none

omit [UnicodeDb] in
/-- **Approvals are isolated.**  An id gives back tenant and tool of its call,
and the arguments up to JSON equality. -/
theorem same_call_of_id_eq {r r' : GatedCall F} (hname : ':' ∉ r.tool.toList)
    (hname' : ':' ∉ r'.tool.toList)
    (hdigest : argsHash r.arguments = argsHash r'.arguments →
      dumpsSorted (.dict r.arguments) = dumpsSorted (.dict r'.arguments))
    (h : r.id = r'.id) :
    r.tenant = r'.tenant ∧ r.tool = r'.tool ∧ JsonEqual r.arguments r'.arguments := by
  obtain ⟨htenant, htool, hhash⟩ := key_injective hname hname' h
  have hjson : JsonEqual r.arguments r'.arguments :=
    jsonify_eq_of_dumps_eq (Value.wf_sortKeys _ r.wf) (Value.wf_sortKeys _ r'.wf)
      (hdigest hhash)
  exact ⟨htenant, htool, hjson⟩

/-- A call stopped in the course of the calls is one of them. -/
theorem Stopped.mem_enforced {r : GatedCall F} (h : Stopped clock calls r) :
    r ∈ enforced calls := by
  obtain ⟨createdAt, now, q, e, hdid, -⟩ := h
  exact List.mem_filterMap.mpr ⟨_, hdid.mem, rfl⟩

/-- **What an approval unlocks.**  In every run of the gate's methods, a call
gets through only if the same call, with JSON-equal arguments, was stopped for
approval earlier, and the latest judgement of its record was an approval made
at most `approvalTtlSeconds` before. -/
theorem granted_of_enforce (clock : ℚ) (calls : List (GateCall F × ℚ)) (q q' : Queue)
    (hrun : Run Queue.Step (Queue.start clock) calls q) (r : GatedCall F)
    (createdAt : String) (now : ℚ) (hstep : q.Step (.enforce r createdAt, now) q')
    (hnames : ∀ r' ∈ r :: enforced calls, ':' ∉ r'.tool.toList)
    (hdigest : Set.InjOn digest
      {blob | ∃ r' ∈ r :: enforced calls, blob = dumpsSorted (.dict r'.arguments)})
    (hpassed : (enforce q.store r.toApprovalRequest createdAt now).1 = .ok ()) :
    (∃ r' : GatedCall F, Stopped clock calls r' ∧ r'.tenant = r.tenant ∧
      r'.tool = r.tool ∧ JsonEqual r'.arguments r.arguments) ∧
    ∃ approvedAt, Judged (F := F) clock calls r.id .approved approvedAt ∧
      approvedAt ≤ now ∧ now ≤ approvedAt + approvalTtlSeconds := by
  obtain ⟨hrecord, approvedAt, hjudged, hexpiry⟩ :=
    judged_of_approved (faithful_of_run hrun) (approved_of_enforce hpassed)
  obtain ⟨entry, hlookup⟩ := Option.ne_none_iff_exists'.mp hrecord
  obtain ⟨r', hid, hstopped⟩ := stopped_of_run hrun _ _ hlookup
  have hmem : r' ∈ r :: enforced calls := List.mem_cons_of_mem _ hstopped.mem_enforced
  have hself : r ∈ r :: enforced calls := List.mem_cons_self
  have hsame := same_call_of_id_eq (hnames r' hmem) (hnames r hself)
    (fun h => hdigest ⟨r', hmem, rfl⟩ ⟨r, hself, rfl⟩ h) hid
  have hclock : q.clock ≤ now := (Queue.step_cases hstep).1
  have hmade : approvedAt ≤ q.clock := by
    obtain ⟨approver, u, a, hlast, -⟩ := hjudged
    exact made_before_of_run hrun _ hlast.did.mem
  exact ⟨⟨r', hstopped, hsame⟩, approvedAt, hjudged, hmade.trans hclock, hexpiry⟩

end Runs

/-- A write to be approved. -/
def reportWrite : GatedCall WholeFloat where
  tenant := "acme"
  caller := "agent"
  delegator := none
  tool := "s3.put_object"
  arguments := [("key", .str "report.txt")]
  wf := by simp [Value.Wf, Value.WfMembers]

/-- The write is stopped, and approved. -/
def approvedWrite : List (GateCall WholeFloat × ℚ) :=
  [(.enforce reportWrite "", 0), (.judge reportWrite.id .approved "ops:jane", 60)]

/-- A run in which a write is stopped, approved of, and then granted. -/
theorem approved_write_is_granted :
    ∃ q, Run Queue.Step (Queue.start 0) approvedWrite q ∧
      (∃ r' : GatedCall WholeFloat, Stopped 0 approvedWrite r' ∧ r'.tenant = "acme" ∧
        r'.tool = "s3.put_object" ∧ JsonEqual r'.arguments reportWrite.arguments) ∧
      ∃ approvedAt, Judged (F := WholeFloat) 0 approvedWrite reportWrite.id .approved
        approvedAt ∧ approvedAt ≤ 100 ∧ 100 ≤ approvedAt + approvalTtlSeconds := by
  obtain ⟨q₁, hq₁, hfound, q, hq, hclock⟩ : ∃ q₁ ∈ exec Queue.step (Queue.start 0)
      [(.enforce reportWrite "", 0)],
      (∃ entry ∈ q₁.store.store.lookup reportWrite.id, 60 ≤ entry.2) ∧
      ∃ q ∈ q₁.step (.judge (F := WholeFloat) reportWrite.id .approved "ops:jane", 60),
        q.clock ≤ 100 := by decide +kernel
  have hstopped := Run.of_exec hq₁
  have hrun : Run Queue.Step (Queue.start 0) approvedWrite q := hstopped.snoc hq
  have hcalls : ∀ r ∈ reportWrite :: enforced approvedWrite, r = reportWrite := by
    simp [enforced, approvedWrite]
  have hgrants : Grants WholeFloat q.store reportWrite.id (60 + approvalTtlSeconds) := by
    obtain ⟨-, rfl⟩ := Queue.step_cases hq
    exact grants_of_transition (faithful_of_run hstopped) hfound
  have hpassed : (enforce q.store reportWrite.toApprovalRequest "" 100).1 = .ok () :=
    enforce_of_approved (approved_of_grants hgrants (by norm_num [approvalTtlSeconds])) _
  refine ⟨q, hrun, granted_of_enforce 0 approvedWrite q _ hrun reportWrite "" 100
    (if_pos hclock) ?_ ?_ hpassed⟩
  · intro r hr
    rw [hcalls r hr]
    decide
  · intro blob hblob blob' hblob' _
    obtain ⟨r, hr, rfl⟩ := hblob
    obtain ⟨r', hr', rfl⟩ := hblob'
    rw [hcalls r hr, hcalls r' hr']

end Governance
