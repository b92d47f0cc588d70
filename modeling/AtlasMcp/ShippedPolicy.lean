import AtlasMcp.DispatchGates
import AtlasMcp.PolicyRules
import AtlasMcp.PostgresQuery

/-!
# The shipped policy

`config/policy.yaml`, rule by rule.  Its rules name actions by scope, such as
`tool:postgres:read`, while `dispatch` asks the policy about the name of the tool.  Apart
from the health stub, no shipped rule applies to any registered tool, whatever the call
(`not_applies_of_shipped`): neither the allow rules nor the deny rules.

So the rule `no-one-can-drop-tables` stops no query.  `denied_words_stopped_iff` says what
does: a query with a denied word is stopped exactly if one of the other gates stops it.
-/

namespace Server

open PyJson PyText Errors Tools Auth RateLimit FallibleState

variable {F : Type}

/-- The words of `no-one-can-drop-tables`. -/
def deniedWords : List String := ["DROP", "TRUNCATE", "GRANT", "REVOKE"]

/-- The rules of `config/policy.yaml`. -/
def shippedRules : List Rule :=
  [ { id := "stub-server-ping"
      subjects := ["*"]
      actions := ["server.ping"]
      resources := ["*"] },
    { id := "support-agents-build-context"
      subjects := ["role:support_copilot", "role:human_agent"]
      actions := ["tool:postgres:read", "tool:elasticsearch:read", "tool:vector:read"]
      resources := ["tenant:*/*"] },
    { id := "support-agents-can-read-s3"
      subjects := ["role:support_copilot", "role:human_agent"]
      actions := ["tool:s3:read"]
      resources := ["tenant:*/docs/*", "tenant:*/tickets/*"] },
    { id := "analysts-read-postgres"
      subjects := ["role:analyst"]
      actions := ["tool:postgres:read"]
      resources := ["tenant:*/analytics/*"] },
    { id := "support-agents-can-fetch-docs"
      subjects := ["role:support_copilot"]
      actions := ["tool:http:fetch"]
      resources := ["tenant:*/*"] },
    { id := "no-one-can-drop-tables"
      subjects := ["*"]
      actions := ["tool:postgres:read", "tool:postgres:write"]
      resources := ["*"]
      conditions := some [("sql_contains_any", deniedWords)]
      effect := .deny },
    { id := "no-pii-columns-for-support-agents"
      subjects := ["role:support_copilot"]
      actions := ["tool:postgres:read"]
      resources := ["*"]
      conditions := some [("pii_fields", ["ssn", "tax_id", "dob", "credit_card_number"])]
      effect := .deny },
    { id := "internal-admin-can-impersonate"
      subjects := ["role:internal_admin"]
      actions := ["tenant:*:impersonate"]
      resources := ["*"] },
    { id := "support-agents-can-write-attachments"
      subjects := ["role:human_agent"]
      actions := ["tool:s3:write"]
      resources := ["tenant:*/attachments/*"] } ]

/-- The actions that the shipped rules name. -/
def shippedActions : List String := shippedRules.flatMap Rule.actions

/-- The policy has the shipped rules and, in any places, others that are no
deny rules. -/
structure Extends (rules added : List Rule) : Prop where
  perm : rules.Perm (shippedRules ++ added)
  allow : ∀ rule ∈ added, rule.effect = .allow

/-- None of the shipped actions has a star at its end, so a rule is about the
actions it names. -/
theorem mem_actions_of_matches {rule : Rule} (hrule : rule ∈ shippedRules)
    {subject action resource : String}
    (h : PolicyEngine.ruleMatches rule subject action resource = true) :
    action ∈ rule.actions := by
  have hplain : ∀ r ∈ shippedRules, ∀ pat ∈ r.actions, pat ≠ "*" ∧ endsWith pat "*" = false := by
    decide
  simp only [PolicyEngine.ruleMatches, globAny, Bool.and_eq_true, List.any_eq_true,
    Bool.or_eq_true, decide_eq_true_eq] at h
  obtain ⟨⟨-, pat, hpat, (hstar | heq) | ⟨hends, -⟩⟩, -⟩ := h
  · exact absurd hstar (hplain rule hrule pat hpat).1
  · rwa [← heq]
  · rw [(hplain rule hrule pat hpat).2] at hends
    cases hends

section Queries

variable [PyFloat F] [UnicodeDb]

/-- **The shipped rules are silent on every other action.** -/
theorem not_applies_of_shipped {rule : Rule} (hrule : rule ∈ shippedRules) {action : String}
    (haction : action ∉ shippedActions) (subject resource : String)
    (context : List (String × Value F)) :
    PolicyEngine.applies rule subject action resource context = .ok false := by
  apply PolicyEngine.applies_of_not_matches
  by_contra hmatches
  rw [Bool.not_eq_false] at hmatches
  exact haction (List.mem_flatMap.mpr ⟨rule, hrule, mem_actions_of_matches hrule hmatches⟩)

/-- What a policy that extends the shipped one permits of such an action: what
the added rules allow. -/
theorem check_extended_ok_iff {engine : PolicyEngine} {added : List Rule}
    (hextends : Extends engine.rules added) {subject tenant action resource : String}
    (haction : action ∉ shippedActions) {context : List (String × Value F)}
    (hevaluable : ∀ rule ∈ added, ∃ hit, PolicyEngine.applies rule subject action
      ("tenant:" ++ tenant ++ "/" ++ resource) context = .ok hit) :
    engine.check subject tenant action resource context = .ok () ↔
      (engine.defaultDeny = true → ∃ rule ∈ added, PolicyEngine.applies rule subject action
        ("tenant:" ++ tenant ++ "/" ++ resource) context = .ok true) := by
  have hsilent := fun rule (hrule : rule ∈ shippedRules) =>
    not_applies_of_shipped hrule haction subject ("tenant:" ++ tenant ++ "/" ++ resource) context
  have hmem : ∀ rule, rule ∈ engine.rules ↔ rule ∈ shippedRules ∨ rule ∈ added := by
    intro rule
    rw [hextends.perm.mem_iff, List.mem_append]
  rw [PolicyEngine.check_ok_iff]
  constructor
  · rintro ⟨-, -, hallow⟩ hdefault
    obtain ⟨rule, hrule, -, happlies⟩ := hallow hdefault
    rcases (hmem rule).mp hrule with hshipped | hadded
    · rw [hsilent rule hshipped] at happlies
      cases happlies
    · exact ⟨rule, hadded, happlies⟩
  · intro h
    refine ⟨fun rule hrule => ?_, fun rule hrule heffect => ?_, fun hdefault => ?_⟩
    · rcases (hmem rule).mp hrule with hshipped | hadded
      · exact ⟨false, hsilent rule hshipped⟩
      · exact hevaluable rule hadded
    · rcases (hmem rule).mp hrule with hshipped | hadded
      · rw [hsilent rule hshipped]
        simp
      · rw [hextends.allow rule hadded] at heffect
        cases heffect
    · obtain ⟨rule, hadded, happlies⟩ := h hdefault
      exact ⟨rule, (hmem rule).mpr (Or.inr hadded),
        by rw [hextends.allow rule hadded]; decide, happlies⟩

/-- The statement of the call has one of the denied words, in any letter
case. -/
def NamesDeniedWord (arguments : List (String × Value F)) : Prop :=
  ∃ sql, dictGet arguments "sql" = some (.str sql) ∧
    ∃ word ∈ deniedWords, upper word.toList <:+: upper sql.toList

/-- The dispatch is stopped by a gate. -/
def Stopped (srv : AtlasServer F) (s : ServerState F) (ctx : RequestContext)
    (env : ToolCallEnvelope F) (clock : Clock) : Prop :=
  ∃ exc t, (gates srv ctx env clock).run s = (.error exc, t)

/-- Every gate but the deny rules lets the query pass: its arguments validate,
the context holds the scope of the tool, an added rule allows it if the
default is to deny, and the rate limit has a token for it. -/
structure PassesOthers (query : PostgresQueryTool F) (added : List Rule) (srv : AtlasServer F)
    (s : ServerState F) (ctx : RequestContext) (env : ToolCallEnvelope F) (clock : Clock)
    (args : BaseModel F) : Prop where
  validated : query.tool.validate env.arguments = .ok args
  inScope : ctx.hasScope "tool:postgres:read" = true
  allowed : srv.policy.defaultDeny = true → ∃ rule ∈ added,
    PolicyEngine.applies rule env.caller "postgres.query"
      ("tenant:" ++ env.tenant ++ "/" ++ "postgres.query") (policyContext args) = .ok true
  limited : srv.settings.rateLimitEnabled →
    s.rateLimiter.Admits env.tenant "postgres.query" 1 clock.wallMs

/-- Accepted arguments give the policy the statement to look at, and no
columns. -/
theorem PostgresQueryTool.policyContext_eq {query : PostgresQueryTool F}
    {arguments : List (String × Value F)} {args : BaseModel F}
    (h : query.tool.validate arguments = .ok args) :
    ∃ stmt, policyContext args = [("sql", .str stmt)] ∧ dictGet args.dump "url" = none := by
  have hschema : query.inputSchema arguments = .ok args := by
    unfold Tool.validate at h
    cases hbound : Validation.boundArguments arguments with
    | error e => simp [hbound] at h
    | ok bounded =>
        cases hinput : query.inputSchema arguments with
        | error rejection => cases rejection <;> simp [hbound, tool, hinput] at h
        | ok model => simpa [hbound, tool, hinput] using h
  obtain ⟨-, input, -, -, hdump⟩ := query.accepts arguments args hschema
  refine ⟨input.sql, ?_, ?_⟩
  · simp [policyContext, hdump, PostgresQueryInput.dump, dictGet, List.lookup]
  · simp [hdump, PostgresQueryInput.dump, dictGet]

/-- A condition on a statement and no columns can be evaluated. -/
theorem exists_applies_of_sql (rule : Rule) (subject action resource stmt : String) :
    ∃ hit, PolicyEngine.applies (F := F) rule subject action resource [("sql", .str stmt)] =
      .ok hit := by
  unfold PolicyEngine.applies
  split
  · exact ⟨_, rfl⟩
  · split
    · exact ⟨_, rfl⟩
    · exact ⟨_, rfl⟩
    · unfold PolicyEngine.conditionsMatch
      split
      · exact ⟨_, rfl⟩
      · split
        · exact ⟨_, rfl⟩
        · split
          · exact ⟨_, rfl⟩
          · exact ⟨_, rfl⟩

/-- The gates stop a call exactly if it is not admitted. -/
theorem stopped_iff {srv : AtlasServer F} {s : ServerState F} {ctx : RequestContext}
    {env : ToolCallEnvelope F} {clock : Clock} :
    Stopped srv s ctx env clock ↔ ¬ ∃ tool args, Admitted srv s ctx env clock tool args := by
  constructor
  · rintro ⟨exc, t, hgates⟩ ⟨tool, args, hadmitted⟩
    obtain ⟨u, hok⟩ := gates_of_admitted hadmitted
    rw [hgates] at hok
    cases hok
  · intro hnone
    rcases hgates : (gates srv ctx env clock).run s with ⟨exc | ⟨tool, args⟩, t⟩
    · exact ⟨exc, t, hgates⟩
    · exact absurd ⟨tool, args, admitted_of_gates hgates⟩ hnone

/-- A query is admitted exactly if it passes the other gates. -/
theorem query_admitted_iff {query : PostgresQueryTool F} {added : List Rule}
    {srv : AtlasServer F} (hextends : Extends srv.policy.rules added)
    (hregistered : srv.registry.get "postgres.query" = .ok query.tool) {s : ServerState F}
    {ctx : RequestContext} {env : ToolCallEnvelope F} (htool : env.tool = "postgres.query")
    {clock : Clock} {args : BaseModel F} :
    Admitted srv s ctx env clock query.tool args ↔
      PassesOthers query added srv s ctx env clock args := by
  have haction : "postgres.query" ∉ shippedActions := by decide
  have hpolicy : query.tool.validate env.arguments = .ok args →
      (srv.policy.check env.caller env.tenant "postgres.query" "postgres.query"
        (policyContext args) = .ok () ↔ (srv.policy.defaultDeny = true → ∃ rule ∈ added,
          PolicyEngine.applies rule env.caller "postgres.query"
            ("tenant:" ++ env.tenant ++ "/" ++ "postgres.query") (policyContext args) =
              .ok true)) := by
    intro hvalidated
    obtain ⟨stmt, hcontext, -⟩ := query.policyContext_eq hvalidated
    rw [hcontext]
    exact check_extended_ok_iff hextends haction fun rule _ => exists_applies_of_sql ..
  constructor
  · intro h
    exact
      { validated := h.validated
        inScope := h.inScope _ (List.mem_singleton_self _)
        allowed := (hpolicy h.validated).mp h.permitted
        limited := h.limited }
  · intro h
    obtain ⟨stmt, -, hurl⟩ := query.policyContext_eq h.validated
    exact
      { registered := by rw [htool, hregistered]
        validated := h.validated
        inScope := by
          intro required hrequired
          obtain rfl := List.mem_singleton.mp hrequired
          exact h.inScope
        permitted := (hpolicy h.validated).mpr h.allowed
        allowlisted := by
          intro url hsome
          rw [hurl] at hsome
          cases hsome
        limited := h.limited
        approved := by
          intro hdestructive
          cases hdestructive }

/-- **What stops a query with a denied word.**  Whatever rules that deny
nothing are added to the shipped ones: such a query is stopped exactly if the
validation, the scopes, the absence of an added allow rule or the rate limit
stops it.  The deny rule for these words stops none. -/
theorem denied_words_stopped_iff {query : PostgresQueryTool F} {added : List Rule}
    {srv : AtlasServer F} (hextends : Extends srv.policy.rules added)
    (hregistered : srv.registry.get "postgres.query" = .ok query.tool) (s : ServerState F)
    (ctx : RequestContext) (env : ToolCallEnvelope F) (htool : env.tool = "postgres.query")
    (clock : Clock) :
    (NamesDeniedWord env.arguments → Stopped srv s ctx env clock) ↔
      (NamesDeniedWord env.arguments →
        ¬ ∃ args, PassesOthers query added srv s ctx env clock args) := by
  have hadmitted : (∃ tool args, Admitted srv s ctx env clock tool args) ↔
      ∃ args, PassesOthers query added srv s ctx env clock args := by
    constructor
    · rintro ⟨tool, args, h⟩
      have hget := h.registered
      rw [htool, hregistered] at hget
      obtain rfl : query.tool = tool := Except.ok.inj hget
      exact ⟨args, (query_admitted_iff hextends hregistered htool).mp h⟩
    · rintro ⟨args, h⟩
      exact ⟨query.tool, args, (query_admitted_iff hextends hregistered htool).mpr h⟩
  rw [stopped_iff, hadmitted]

end Queries

/-- A query tool that takes a statement only. -/
def statementTool : PostgresQueryTool WholeFloat where
  inputSchema arguments :=
    match dictGet arguments "sql" with
    | some (.str sql) =>
        match SelectGuard.mustBeSelect sql with
        | .ok stmt => .ok
            { dump := ({ sql := stmt } : PostgresQueryInput WholeFloat).dump
              dumpJson := ({ sql := stmt } : PostgresQueryInput WholeFloat).dump
              wf := by simp [PostgresQueryInput.dump, Value.Wf, Value.WfMembers, Value.WfItems]
              native := by
                simp [PostgresQueryInput.dump, Value.Native, Value.NativeMembers,
                  Value.NativeItems] }
        | .error text => .error (.schema ⟨some [(["sql"], some text)], text⟩)
    | _ => .error (.schema ⟨none, "sql: Field required"⟩)
  accepts arguments args h := by
    split at h
    next sql hsql =>
        split at h
        next stmt hstmt =>
            obtain rfl := Except.ok.inj h
            exact ⟨sql, { sql := stmt }, hsql, hstmt, rfl⟩
        next => cases h
    next => cases h

/-- The rule of an operator who lets everybody query, under the name of the
tool. -/
def allowQueries : Rule :=
  { id := "everybody-can-query", subjects := ["*"], actions := ["postgres.query"]
    resources := ["tenant:acme/*"] }

/-- A server with the shipped rules and that one. -/
def queryServer : AtlasServer WholeFloat where
  settings := {}
  registry := match ToolRegistry.empty.register statementTool.tool with
    | .ok registry => registry
    | .error _ => .empty
  policy := { rules := shippedRules ++ [allowQueries] }
  httpAllowlist := ⟨[]⟩

/-- Someone with the scope that reading needs. -/
def analystContext : RequestContext :=
  { subject := "role:analyst", tenant := "acme", scopes := ["tool:postgres:read"] }

/-- A call of `postgres.query` by an analyst of `acme`. -/
def queryEnvelope (sql : String) : ToolCallEnvelope WholeFloat :=
  analystContext.buildEnvelope "postgres.query" [("sql", .str sql)]

/-- The shipped rules and one allow rule let a statement with DROP pass. -/
theorem dropping_select_passes :
    Extends queryServer.policy.rules [allowQueries] ∧
      NamesDeniedWord (queryEnvelope "SELECT drop_old_orders()").arguments ∧
      ¬ Stopped queryServer queryServer.initial analystContext
        (queryEnvelope "SELECT drop_old_orders()") ⟨0, 0, ""⟩ := by
  refine ⟨⟨List.Perm.refl _, by decide⟩,
    ⟨"SELECT drop_old_orders()", rfl, "DROP", by decide, by decide⟩, ?_⟩
  rintro ⟨exc, t, hgates⟩
  have hpasses : ((gates queryServer analystContext (queryEnvelope "SELECT drop_old_orders()")
      ⟨0, 0, ""⟩).run queryServer.initial).1.toOption.isSome = true := by
    decide +kernel
  rw [hgates] at hpasses
  cases hpasses

/-- Without the added rule the default stops the same statement. -/
theorem dropping_select_stopped :
    let srv := { queryServer with policy := { rules := shippedRules } }
    let env := queryEnvelope "SELECT drop_old_orders()"
    (NamesDeniedWord env.arguments →
      ¬ ∃ args, PassesOthers statementTool [] srv srv.initial analystContext env ⟨0, 0, ""⟩
        args) ∧
      (NamesDeniedWord env.arguments →
        Stopped srv srv.initial analystContext env ⟨0, 0, ""⟩) := by
  intro srv env
  have hregistered : srv.registry.get "postgres.query" = .ok statementTool.tool := rfl
  have hapart : NamesDeniedWord env.arguments →
      ¬ ∃ args, PassesOthers statementTool [] srv srv.initial analystContext env ⟨0, 0, ""⟩
        args := by
    rintro - ⟨args, h⟩
    obtain ⟨rule, hrule, -⟩ := h.allowed rfl
    cases hrule
  have hextends : Extends srv.policy.rules [] :=
    ⟨by simp [srv], by simp⟩
  exact ⟨hapart, (denied_words_stopped_iff hextends hregistered srv.initial analystContext env
    rfl ⟨0, 0, ""⟩).mpr hapart⟩

end Server
