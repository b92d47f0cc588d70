import AtlasMcp.PolicyEngine
import AtlasMcp.ToolRegistry

/-!
# The approval gate

A destructive call runs only once a human has approved it.  The gate keeps a record
of each such call as a JSON text under a key made of tenant, tool and a hash of the
arguments; `enforce` lets a call through if its record says `approved`, and creates a
pending record if there is none.
-/

namespace Governance

open PyJson PyText Errors Auth Tools

variable {F : Type}

/-- A request waits for an hour, and a judgement holds for one. -/
def approvalTtlSeconds : ℤ := 3600

/-- The store of the approvals: each text under its key, until it expires.  A
text is the JSON of the record of one approval. -/
structure InMemoryApprovalStore where
  store : AList (fun _ : String => String × ℚ) := ∅

namespace InMemoryApprovalStore

/-- `InMemoryApprovalStore.get`: a text that has expired is removed. -/
def get (s : InMemoryApprovalStore) (key : String) (now : ℚ) :
    Option String × InMemoryApprovalStore :=
  match s.store.lookup key with
  | none => (none, s)
  | some (value, expiresAt) =>
      if expiresAt < now then (none, ⟨s.store.erase key⟩) else (some value, s)

/-- `InMemoryApprovalStore.set`. -/
def set (s : InMemoryApprovalStore) (key value : String) (ttlSeconds : ℤ) (now : ℚ) :
    InMemoryApprovalStore :=
  ⟨s.store.insert key (value, now + ttlSeconds)⟩

end InMemoryApprovalStore

/-- The record of an approval, as it is stored and read back.  The dataclass
checks no types: a record read back may hold any. -/
structure PendingApproval (F : Type) where
  id : Value F
  tenant : Value F
  caller : Value F
  delegator : Value F
  tool : Value F
  argsHash : Value F
  createdAt : Value F
  state : Value F := .str "pending"
  approver : Value F := .none

namespace PendingApproval

/-- `asdict(approval)`. -/
def asdict (a : PendingApproval F) : List (String × Value F) :=
  [("id", a.id), ("tenant", a.tenant), ("caller", a.caller), ("delegator", a.delegator),
    ("tool", a.tool), ("args_hash", a.argsHash), ("created_at", a.createdAt),
    ("state", a.state), ("approver", a.approver)]

/-- `PendingApproval(**kvs)`: a missing field without a default or an unknown
one is a `TypeError`. -/
def ofKwargs (kvs : List (String × Value F)) : Except (Exc F) (PendingApproval F) :=
  let required (key : String) : Except (Exc F) (Value F) :=
    match dictGet kvs key with
    | some v => .ok v
    | none => .error (.other "TypeError")
  if kvs.any fun kv => kv.1 ∉ ["id", "tenant", "caller", "delegator", "tool", "args_hash",
      "created_at", "state", "approver"] then .error (.other "TypeError")
  else do
    return {
      id := ← required "id"
      tenant := ← required "tenant"
      caller := ← required "caller"
      delegator := ← required "delegator"
      tool := ← required "tool"
      argsHash := ← required "args_hash"
      createdAt := ← required "created_at"
      state := (dictGet kvs "state").getD (.str "pending")
      approver := (dictGet kvs "approver").getD .none }

/-- `PendingApproval(**json.loads(raw))`. -/
def ofText [PyFloat F] (raw : String) : Except (Exc F) (PendingApproval F) :=
  match loads raw with
  | none => .error (.other "JSONDecodeError")
  | some (.dict kvs) => ofKwargs kvs
  | some _ => .error (.other "TypeError")

end PendingApproval

section Gate

variable [PyFloat F] [UnicodeDb]

/-- The error of a call that has to be approved first, with the id under which
this can be done. -/
def pendingApprovalError (approval : PendingApproval F) : ToolError F where
  cls := .pendingApprovalError
  code := "pending_approval"
  hint := "tool " ++ pyReprValue approval.tool ++
    " requires human approval; approval_id=" ++ pyStrValue approval.id ++
    ". Surface it to the user and wait."
  context := some [("approval_id", approval.id), ("tool", approval.tool)]

/-- `_args_hash(arguments)`. -/
def argsHash (arguments : List (String × Value F)) : String :=
  digest (dumpsSorted (.dict arguments))

/-- The id of an approval is that of the call: the same arguments have the
same one. -/
def approvalId (tenant tool : String) (arguments : List (String × Value F)) : String :=
  "atlas:approval:" ++ tenant ++ ":" ++ tool ++ ":" ++ argsHash arguments

/-- A call the gate judges.  Its id is made of the tenant, the tool and the
arguments, and of nothing else. -/
structure ApprovalRequest (F : Type) where
  tenant : String
  caller : String
  delegator : Option String
  tool : String
  arguments : List (String × Value F)

/-- The record of a call that nobody has judged yet. -/
def newApproval (r : ApprovalRequest F) (createdAt : String) : PendingApproval F where
  id := .str (approvalId r.tenant r.tool r.arguments)
  tenant := .str r.tenant
  caller := .str r.caller
  delegator := optStr r.delegator
  tool := .str r.tool
  argsHash := .str (argsHash r.arguments)
  createdAt := .str createdAt

/-- `ApprovalGate.enforce`: allow an approved call, else keep or create its
record and raise. -/
def enforce (s : InMemoryApprovalStore) (r : ApprovalRequest F) (createdAt : String)
    (now : ℚ) : Except (Exc F) Unit × InMemoryApprovalStore :=
  let key := approvalId r.tenant r.tool r.arguments
  let (raw, s) := s.get key now
  match raw with
  | some raw =>
      match PendingApproval.ofText raw with
      | .error exc => (.error exc, s)
      | .ok approval =>
          if PolicyEngine.isStr "approved" approval.state then (.ok (), s)
          else if PolicyEngine.isStr "denied" approval.state then
            (.error (.tool (policyError "approval_denied"
              ("a human denied " ++ pyRepr r.tool ++ " for this request") none)), s)
          else (.error (.tool (pendingApprovalError approval)), s)
  | none =>
      let approval := newApproval r createdAt
      (.error (.tool (pendingApprovalError approval)),
        s.set key (dumps (.dict approval.asdict)) approvalTtlSeconds now)

/-- A human's decision, as the state it gives to a record.  A later decision
takes the place of an earlier one. -/
inductive Verdict
  | approved
  | denied

/-- The status as it is stored. -/
def Verdict.text : Verdict → String
  | .approved => "approved"
  | .denied => "denied"

/-- `_transition`: what `approve` and `deny` do. -/
def transition (s : InMemoryApprovalStore) (approvalId : String) (verdict : Verdict)
    (approver : String) (now : ℚ) :
    Except (Exc F) (PendingApproval F) × InMemoryApprovalStore :=
  let (raw, s) := s.get approvalId now
  match raw with
  | none => (.error (.tool (policyError "approval_not_found"
      ("approval " ++ pyRepr approvalId ++ " does not exist or has expired") none)), s)
  | some raw =>
      match PendingApproval.ofText raw with
      | .error exc => (.error exc, s)
      | .ok approval =>
          let approval := { approval with
            state := .str verdict.text, approver := .str approver }
          (.ok approval,
            s.set approvalId (dumps (.dict approval.asdict)) approvalTtlSeconds now)

/-- There is an unexpired record of the call, and it says `approved`.  A record
that cannot be read approves of nothing. -/
def Approved (s : InMemoryApprovalStore) (r : ApprovalRequest F) (now : ℚ) : Prop :=
  ∃ raw, ∃ approval : PendingApproval F,
    (s.get (approvalId r.tenant r.tool r.arguments) now).1 = some raw ∧
    PendingApproval.ofText raw = .ok approval ∧ approval.state = .str "approved"

/-- **The gate.**  Only an approved call gets through. -/
theorem approved_of_enforce {s : InMemoryApprovalStore} {r : ApprovalRequest F}
    {createdAt : String} {now : ℚ} (h : (enforce s r createdAt now).1 = .ok ()) :
    Approved s r now := by
  unfold enforce at h
  cases hraw : (s.get (approvalId r.tenant r.tool r.arguments) now).1 with
  | none => simp [hraw] at h
  | some raw =>
      cases htext : PendingApproval.ofText (F := F) raw with
      | error exc => simp [hraw, htext] at h
      | ok approval =>
          refine ⟨raw, approval, hraw, htext, PolicyEngine.eq_str_of_isStr ?_⟩
          by_contra hstate
          simp only [hraw, htext, hstate] at h
          split at h
          · contradiction
          · split at h <;> simp at h

/-- And an approved call does. -/
theorem enforce_of_approved {s : InMemoryApprovalStore} {r : ApprovalRequest F} {now : ℚ}
    (h : Approved s r now) (createdAt : String) : (enforce s r createdAt now).1 = .ok () := by
  obtain ⟨raw, approval, hraw, htext, hstate⟩ := h
  have happroved : PolicyEngine.isStr "approved" approval.state = true := by
    rw [hstate]
    rfl
  simp only [enforce, hraw, htext, happroved, if_true]

end Gate

end Governance
