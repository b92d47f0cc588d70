import AtlasMcp.JsonRoundTrip
import AtlasMcp.PolicyRules

/-!
# Verdicts of the policy

A rule with several conditions is decided by the one written first
(`conditionsMatch_cons_iff`).  It is the conjunction of its conditions, in whatever order they
are written, exactly on the calls of which all of them hold or none does
(`isConjunction_iff`).

`verdict_iff` is about lists of rules.  A call is permitted if and only if the rules that
apply permit it, unless a condition of a rule cannot be evaluated on the call: then
`PolicyEngine.check` raises what the condition raises, even where no rule denies the call.
-/

namespace Auth

open PyJson PyText Errors

variable {F : Type}

namespace PolicyEngine

section Conditions

variable [PyFloat F] [UnicodeDb] {context : List (String × Value F)}

/-- One of the needles is in the statement, in any letter case, also inside a
word or a literal. -/
def SqlContainsAny (needles : List String) (context : List (String × Value F)) : Prop :=
  ∃ sql, upperSql context = .ok sql ∧ ∃ needle ∈ needles, upper needle.toList <:+: sql

/-- One of the fields is among the columns, letter by letter. -/
def RequestsAny (fields : List String) (context : List (String × Value F)) : Prop :=
  ∃ requested, requestedColumns context = .ok requested ∧ ∃ field ∈ fields, .str field ∈ requested

/-- What a condition says of a call; under any other key it holds of none. -/
def ConditionHolds (condition : String × List String) (context : List (String × Value F)) :
    Prop :=
  condition.1 = "sql_contains_any" ∧ SqlContainsAny condition.2 context ∨
    condition.1 = "pii_fields" ∧ RequestsAny condition.2 context

omit [PyFloat F] [UnicodeDb] in
theorem isStr_iff {s : String} {v : Value F} : isStr s v = true ↔ v = .str s := by
  refine ⟨eq_str_of_isStr, ?_⟩
  rintro rfl
  simp [isStr]

/-- **The condition written first decides.** -/
theorem conditionsMatch_cons_iff {condition : String × List String}
    {rest : List (String × List String)} :
    conditionsMatch (condition :: rest) context = .ok true ↔
      ConditionHolds condition context := by
  obtain ⟨key, value⟩ := condition
  unfold conditionsMatch ConditionHolds
  by_cases hsql : key = "sql_contains_any"
  · subst hsql
    cases hread : upperSql context with
    | error exc => simp [SqlContainsAny, hread, Except.map]
    | ok sql => simp [SqlContainsAny, hread, Except.map]
  · by_cases hpii : key = "pii_fields"
    · subst hpii
      cases hread : requestedColumns context with
      | error exc => simp [RequestsAny, hread, Except.map]
      | ok requested =>
          simp only [hsql, if_false, if_true, Except.map, Except.ok.injEq, List.any_eq_true,
            isStr_iff, RequestsAny, hread, false_and, true_and, false_or]
          constructor
          · rintro ⟨column, hcolumn, field, hfield, rfl⟩
            exact ⟨requested, rfl, field, hfield, hcolumn⟩
          · rintro ⟨_, rfl, field, hfield, hcolumn⟩
            exact ⟨.str field, hcolumn, field, hfield, rfl⟩
    · simp [hsql, hpii]

/-- The conditions match where each of them alone does, in whatever order they
are written. -/
def IsConjunction (conditions : List (String × List String))
    (context : List (String × Value F)) : Prop :=
  (conditionsMatch conditions context = .ok true ↔
      ∀ condition ∈ conditions, conditionsMatch [condition] context = .ok true) ∧
    ∀ reordered : List (String × List String), reordered.Perm conditions →
      (conditionsMatch reordered context = .ok true ↔
        conditionsMatch conditions context = .ok true)

/-- **When the conditions of a rule are a conjunction**: if one of them holds
of the call, all do. -/
theorem isConjunction_iff (conditions : List (String × List String))
    (context : List (String × Value F)) :
    IsConjunction conditions context ↔
      ((∃ condition ∈ conditions, ConditionHolds condition context) →
        ∀ condition ∈ conditions, ConditionHolds condition context) := by
  have hempty : conditionsMatch [] context = .ok true := rfl
  constructor
  · rintro ⟨hall, hperm⟩ ⟨condition, hmem, hholds⟩
    obtain ⟨before, after, rfl⟩ := List.append_of_mem hmem
    -- written first, the condition that holds decides
    have hfirst := (hperm (condition :: (before ++ after)) List.perm_middle.symm).mp
      (conditionsMatch_cons_iff.mpr hholds)
    exact fun other hother => conditionsMatch_cons_iff.mp (hall.mp hfirst other hother)
  · intro h
    have hdecides : ∀ reordered : List (String × List String), reordered.Perm conditions →
        (conditionsMatch reordered context = .ok true ↔
          ∀ condition ∈ conditions, ConditionHolds condition context) := by
      intro reordered hperm
      cases reordered with
      | nil =>
          obtain rfl := hperm.symm.eq_nil
          simp [hempty]
      | cons first rest =>
          rw [conditionsMatch_cons_iff]
          have hfirst : first ∈ conditions := hperm.subset (List.mem_cons_self ..)
          exact ⟨fun hholds => h ⟨first, hfirst, hholds⟩, fun hall => hall first hfirst⟩
    constructor
    · rw [hdecides conditions (.refl _)]
      exact forall₂_congr fun condition _ => conditionsMatch_cons_iff.symm
    · intro reordered hperm
      rw [hdecides reordered hperm, hdecides conditions (.refl _)]

end Conditions

/-- A query that reads no personal data, under a rule about `SELECT` on
personal data. -/
theorem first_condition_decides :
    ¬ IsConjunction (F := WholeFloat) [("sql_contains_any", ["SELECT"]), ("pii_fields", ["ssn"])]
      [("sql", .str "SELECT 1"), ("columns", .list [])] := by
  rintro ⟨hall, -⟩
  have hmatches := hall.mp rfl ("pii_fields", ["ssn"]) (by simp)
  cases hmatches

/-! ## Lists of rules -/

/-- What `check` is asked. -/
structure Call (F : Type) where
  subject : String
  tenant : String
  action : String
  resource : String
  context : List (String × Value F)

theorem ne_deny_iff {effect : Effect} : effect ≠ .deny ↔ effect = .allow := by
  cases effect <;> simp

section Verdicts

variable [PyFloat F] [UnicodeDb]

/-- What a rule makes of the call. -/
def Call.appliedTo (call : Call F) (rule : Rule) : Except (Exc F) Bool :=
  applies rule call.subject call.action ("tenant:" ++ call.tenant ++ "/" ++ call.resource)
    call.context

/-- The policy lets the call pass: it neither refuses the call nor raises. -/
def Permits (engine : PolicyEngine) (call : Call F) : Prop :=
  engine.check call.subject call.tenant call.action call.resource call.context = .ok ()

/-- The conditions of each rule that matches the call can be evaluated on
it. -/
def Evaluable (rules : List Rule) (call : Call F) : Prop :=
  ∀ rule ∈ rules, ∃ hit, call.appliedTo rule = .ok hit

/-- No rule that applies denies the call, and one that applies allows it, if
the default is to deny. -/
def RulesPermit (engine : PolicyEngine) (call : Call F) : Prop :=
  (¬ ∃ rule ∈ engine.rules, rule.effect = .deny ∧ call.appliedTo rule = .ok true) ∧
    ((∃ rule ∈ engine.rules, rule.effect = .allow ∧ call.appliedTo rule = .ok true) ∨
      engine.defaultDeny = false)

/-- The policy lets a call pass if its conditions can be looked at, and the
rules do. -/
theorem permits_iff {engine : PolicyEngine} {call : Call F} :
    Permits engine call ↔ Evaluable engine.rules call ∧ RulesPermit engine call := by
  rw [Permits, check_ok_iff]
  refine and_congr Iff.rfl (and_congr ?_ ?_)
  · simp only [not_exists, not_and, Call.appliedTo, ne_eq]
  · simp only [ne_deny_iff, Call.appliedTo]
    cases engine.defaultDeny <;> simp

/-- The conditions of two lists of rules can be looked at if those of each
can. -/
theorem evaluable_append_iff {rules rules' : List Rule} {call : Call F} :
    Evaluable (rules ++ rules') call ↔ Evaluable rules call ∧ Evaluable rules' call :=
  List.forall_mem_append

/-- Only the rules in the list matter, not their order. -/
theorem permits_congr {engine engine' : PolicyEngine} {call : Call F}
    (hdefault : engine.defaultDeny = engine'.defaultDeny)
    (hrules : engine.rules.Perm engine'.rules) :
    Permits engine call ↔ Permits engine' call := by
  simp only [permits_iff, Evaluable, RulesPermit, hrules.mem_iff, hdefault]

/-- Rules that deny permit nothing. -/
theorem permits_of_append_denials {engine : PolicyEngine} {call : Call F} {denials : List Rule}
    (hdenials : ∀ rule ∈ denials, rule.effect = .deny)
    (h : Permits { engine with rules := denials ++ engine.rules } call) :
    Permits engine call := by
  rw [permits_iff, evaluable_append_iff] at h
  obtain ⟨⟨-, hevaluable⟩, hnone, hsome⟩ := h
  refine permits_iff.mpr ⟨hevaluable, ?_, ?_⟩
  · rintro ⟨rule, hrule, hdeny⟩
    exact hnone ⟨rule, List.mem_append_right _ hrule, hdeny⟩
  · rcases hsome with ⟨rule, hrule, hallow, happlies⟩ | hoff
    · rcases List.mem_append.mp hrule with hadded | hrule
      · rw [hdenials rule hadded] at hallow
        cases hallow
      · exact Or.inl ⟨rule, hrule, hallow, happlies⟩
    · exact Or.inr hoff

/-- Rules that allow deny nothing, if their conditions can be evaluated. -/
theorem permits_append_allowances_iff {engine : PolicyEngine} {call : Call F}
    {allowances : List Rule} (hallowances : ∀ rule ∈ allowances, rule.effect = .allow)
    (h : Permits engine call) :
    Permits { engine with rules := allowances ++ engine.rules } call ↔
      Evaluable allowances call := by
  obtain ⟨hevaluable, hnone, hsome⟩ := permits_iff.mp h
  rw [permits_iff, evaluable_append_iff]
  refine ⟨fun h => h.1.1, fun hadded => ⟨⟨hadded, hevaluable⟩, ?_, ?_⟩⟩
  · rintro ⟨rule, hrule, hdeny, happlies⟩
    rcases List.mem_append.mp hrule with hmem | hmem
    · rw [hallowances rule hmem] at hdeny
      cases hdeny
    · exact hnone ⟨rule, hmem, hdeny, happlies⟩
  · rcases hsome with ⟨rule, hrule, hallow⟩ | hoff
    · exact Or.inl ⟨rule, List.mem_append_right _ hrule, hallow⟩
    · exact Or.inr hoff

/-- **What the policy permits.**  The rules that apply decide: none of them may deny the call,
and one must allow it if the default is to deny.  So it is exactly if the conditions of the
rules can be evaluated on the call, or the rules do not permit it anyway.

The order of the rules does not matter; a deny rule more permits nothing; and an allow rule
more denies nothing, if its conditions can be evaluated. -/
theorem verdict_iff (engine : PolicyEngine) (call : Call F) :
    ((Permits engine call ↔ RulesPermit engine call) ↔
      (Evaluable engine.rules call ∨ ¬ RulesPermit engine call)) ∧
    (∀ rules : List Rule, rules.Perm engine.rules →
      (Permits { engine with rules } call ↔ Permits engine call)) ∧
    (∀ denials rules : List Rule, (∀ rule ∈ denials, rule.effect = .deny) →
      rules.Perm (denials ++ engine.rules) → ¬ Permits engine call →
      ¬ Permits { engine with rules } call) ∧
    (∀ allowances rules : List Rule, (∀ rule ∈ allowances, rule.effect = .allow) →
      rules.Perm (allowances ++ engine.rules) → Permits engine call →
      (Permits { engine with rules } call ↔ Evaluable allowances call)) := by
  refine ⟨?_, fun rules hperm => permits_congr rfl hperm, ?_, ?_⟩
  · rw [permits_iff]
    tauto
  · intro denials rules hdenials hperm hdenied hpermits
    have hsame : Permits { engine with rules } call ↔
        Permits { engine with rules := denials ++ engine.rules } call := permits_congr rfl hperm
    exact hdenied (permits_of_append_denials hdenials (hsame.mp hpermits))
  · intro allowances rules hallowances hperm hpermits
    have hsame : Permits { engine with rules } call ↔
        Permits { engine with rules := allowances ++ engine.rules } call :=
      permits_congr rfl hperm
    exact hsame.trans (permits_append_allowances_iff hallowances hpermits)

end Verdicts

/-- Everybody may do everything, but read no `ssn`. -/
def guardedRules : List Rule :=
  [ { id := "allow", subjects := ["*"], actions := ["*"], resources := ["*"] },
    { id := "pii"
      subjects := ["*"]
      actions := ["*"]
      resources := ["*"]
      conditions := some [("pii_fields", ["ssn"])]
      effect := .deny } ]

/-- A call of a tool with an optional list of columns, which was left out. -/
def columnsOmitted : Call WholeFloat where
  subject := "role:analyst"
  tenant := "acme"
  action := "report"
  resource := "report"
  context := [("columns", .none)]

/-- A call that says `None` for its columns raises, although the rules permit
it. -/
theorem omitted_columns_not_permitted :
    ¬ (Permits ⟨guardedRules, true⟩ columnsOmitted ↔
      RulesPermit ⟨guardedRules, true⟩ columnsOmitted) := by
  intro h
  have hraises : PolicyEngine.check ⟨guardedRules, true⟩ "role:analyst" "acme" "report" "report"
      columnsOmitted.context = .error (.other "TypeError") := rfl
  have hpermit : RulesPermit ⟨guardedRules, true⟩ columnsOmitted := by
    constructor
    · rintro ⟨rule, hrule, hdeny, happlies⟩
      simp only [guardedRules, List.mem_cons, List.not_mem_nil, or_false] at hrule
      rcases hrule with rfl | rfl
      · cases hdeny
      · cases happlies
    · exact Or.inl ⟨_, List.mem_cons_self .., rfl, rfl⟩
  have hpermits := h.mpr hpermit
  rw [Permits] at hpermits
  exact absurd (hraises.symm.trans hpermits) (by simp)

end PolicyEngine

end Auth
