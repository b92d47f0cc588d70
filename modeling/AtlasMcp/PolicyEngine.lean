import AtlasMcp.ErrorFramework
import AtlasMcp.UrlHost

/-!
# Authorization: the policy engine and the HTTP allowlist

`PolicyEngine.check` walks the rules in order and collects those that match a call;
a deny among them wins over every allow.  The conditions of a rule read the `sql` and
`columns` arguments of the call, which may have any type: what Python raises on the
wrong one is an exception of the call.

`HttpAllowlist` names the hosts each tenant may reach.
-/

namespace Auth

open PyJson PyText Errors

variable {F : Type}

/-- What a rule does with what it matches. -/
inductive Effect
  | allow
  | deny
  deriving DecidableEq

/-- A condition is a name and the list of strings it is about. -/
structure Rule where
  id : String
  subjects : List String
  actions : List String
  resources : List String
  effect : Effect := .allow
  conditions : Option (List (String × List String)) := none

/-- The policy: its rules, and what happens where none of them matches. -/
structure PolicyEngine where
  rules : List Rule
  defaultDeny : Bool := true

/-- The `PolicyError` of a denied call. -/
def policyError (code hint : String) (context : Option (List (String × Value F))) :
    ToolError F where
  cls := .policyError
  code := code
  hint := hint
  context := context

/-- Trailing-star globs and the bare `*`. -/
def globAny (patterns : List String) (value : String) : Bool :=
  patterns.any fun pat =>
    pat = "*" || pat = value ||
      (endsWith pat "*" && startsWith value (String.ofList pat.toList.dropLast))

namespace PolicyEngine

/-- A rule matches a request by its patterns, one for each part of it. -/
def ruleMatches (rule : Rule) (subject action resource : String) : Bool :=
  globAny rule.subjects subject && globAny rule.actions action &&
    globAny rule.resources resource

/-- `v == s` for a string `s`. -/
def isStr (s : String) : Value F → Bool
  | .str t => t = s
  | _ => false

theorem eq_str_of_isStr {s : String} {v : Value F} (h : isStr s v = true) :
    v = .str s := by
  cases v <;> simp_all [isStr]

section Check

variable [PyFloat F] [UnicodeDb]

/-- `(context.get("sql") or "").upper()`. -/
def upperSql (context : List (String × Value F)) : Except (Exc F) (List Char) :=
  match dictGet context "sql" with
  | none => .ok []
  | some (.str s) => .ok (upper s.toList)
  | some v => if v.truthy then .error (.other "AttributeError") else .ok []

/-- `v` can be an element of a set. -/
def hashable : Value F → Bool
  | .list _ => false
  | .dict _ => false
  | _ => true

/-- `set(context.get("columns", []))`, as a list. -/
def requestedColumns (context : List (String × Value F)) :
    Except (Exc F) (List (Value F)) :=
  match dictGet context "columns" with
  | none => .ok []
  | some (.list xs) =>
      if xs.all hashable then .ok xs else .error (.other "TypeError")
  | some (.str s) => .ok (s.toList.map fun c => .str (String.singleton c))
  | some (.dict kvs) => .ok (kvs.map fun kv => .str kv.1)
  | some _ => .error (.other "TypeError")

/-- The first condition decides. -/
def conditionsMatch (conditions : List (String × List String))
    (context : List (String × Value F)) : Except (Exc F) Bool :=
  match conditions with
  | [] => .ok true
  | (key, value) :: _ =>
      if key = "sql_contains_any" then
        (upperSql context).map fun sql =>
          value.any fun needle => decide (upper needle.toList <:+: sql)
      else if key = "pii_fields" then
        (requestedColumns context).map fun requested =>
          requested.any fun column => value.any fun field => isStr field column
      else .ok false

/-- The rule matches the call and its conditions hold. -/
def applies (rule : Rule) (subject action resource : String)
    (context : List (String × Value F)) : Except (Exc F) Bool :=
  if ¬ ruleMatches rule subject action resource then .ok false
  else
    match rule.conditions with
    | none => .ok true
    | some [] => .ok true
    | some conditions => conditionsMatch conditions context

/-- The rules that apply, in order. -/
def matched (subject action resource : String) (context : List (String × Value F)) :
    List Rule → Except (Exc F) (List Rule)
  | [] => .ok []
  | rule :: rules => do
      let hit ← applies rule subject action resource context
      let rest ← matched subject action resource context rules
      return if hit then rule :: rest else rest

/-- `PolicyEngine.check`: a rule that denies wins over those that allow, and
where no rule matches, the default decides. -/
def check (engine : PolicyEngine) (subject tenant action resource : String)
    (context : List (String × Value F)) : Except (Exc F) Unit := do
  let fullResource := "tenant:" ++ tenant ++ "/" ++ resource
  let rules ← matched subject action fullResource context engine.rules
  let matchedDeny := rules.filter (·.effect = .deny)
  let matchedAllow := rules.filter (·.effect ≠ .deny)
  match matchedDeny with
  | rule :: _ => .error (.tool
      (policyError "denied_by_policy" ("rule " ++ rule.id ++ " denies this action") none))
  | [] =>
      if matchedAllow = [] ∧ engine.defaultDeny then .error (.tool
        (policyError "not_authorized"
          ("no policy rule allows " ++ action ++ " on " ++ resource) none))
      else .ok ()

end Check

end PolicyEngine

/-- The hosts of each tenant, and under `*` those of all. -/
structure HttpAllowlist where
  rules : List (String × List String)

namespace HttpAllowlist

/-- The host is the pattern, or ends in what follows its leading star. -/
def hostMatches (host pattern : String) : Bool :=
  pattern = host ||
    (startsWith pattern "*." && endsWith host (String.ofList pattern.toList.tail))

/-- A host is allowed if it is listed for the tenant, or for everybody. -/
def allowed (allowlist : HttpAllowlist) (tenant host : String) : Bool :=
  ((dictGet allowlist.rules tenant).getD [] ++ (dictGet allowlist.rules "*").getD []).any
    (hostMatches host)

/-- `HttpAllowlist.check`. -/
def check [UnicodeDb] (allowlist : HttpAllowlist) (tenant host : String) :
    Except (ToolError F) Unit :=
  if allowlist.allowed tenant host then .ok ()
  else .error (policyError "host_not_allowlisted"
    (pyRepr host ++ " is not on this tenant's outbound allowlist")
    (some [("host", .str host), ("tenant", .str tenant)]))

end HttpAllowlist

end Auth
