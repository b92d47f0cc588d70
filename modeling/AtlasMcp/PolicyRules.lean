import AtlasMcp.PolicyEngine

/-!
# What the policy permits

`PolicyEngine.check` collects the rules that apply to a call and then decides.
`check_ok_iff` says it rule by rule: every rule can be evaluated, no deny rule applies,
and, with `default_deny`, some other rule does.  The order of the rules does not matter.
-/

namespace Auth

open PyJson PyText Errors

variable {F : Type}

namespace PolicyEngine

section Rules

variable [PyFloat F] [UnicodeDb] {subject tenant action resource : String}
  {context : List (String × Value F)}

/-- A rule that does not match the call does not apply to it. -/
theorem applies_of_not_matches {rule : Rule}
    (h : ruleMatches rule subject action resource = false) :
    applies rule subject action resource context = .ok false := by
  simp [applies, h]

/-- A rule that applies matches the call. -/
theorem matches_of_applies {rule : Rule}
    (h : applies rule subject action resource context = .ok true) :
    ruleMatches rule subject action resource = true := by
  by_contra hmatches
  rw [applies_of_not_matches (Bool.not_eq_true _ ▸ hmatches)] at h
  cases h

/-- The rules collected are those that apply, and all rules were evaluated. -/
theorem spec_of_matched {rules ms : List Rule}
    (h : matched subject action resource context rules = .ok ms) :
    (∀ rule ∈ rules, ∃ hit, applies rule subject action resource context = .ok hit) ∧
      ∀ rule, rule ∈ ms ↔
        rule ∈ rules ∧ applies rule subject action resource context = .ok true := by
  induction rules generalizing ms with
  | nil =>
      obtain rfl : [] = ms := by simpa [matched] using h
      simp
  | cons first rules ih =>
      cases hfirst : applies first subject action resource context with
      | error exc => simp [matched, hfirst, bind, Except.bind] at h
      | ok hit =>
          cases hrest : matched subject action resource context rules with
          | error exc => simp [matched, hfirst, hrest, bind, Except.bind] at h
          | ok rest =>
              obtain ⟨hall, hmem⟩ := ih hrest
              obtain rfl : (if hit then first :: rest else rest) = ms := by
                simpa [matched, hfirst, hrest, bind, Except.bind, pure, Except.pure] using h
              constructor
              · rintro rule (_ | ⟨_, hrule⟩)
                · exact ⟨hit, hfirst⟩
                · exact hall rule hrule
              · intro rule
                cases hit <;> simp only [if_true, Bool.false_eq_true, if_false,
                  List.mem_cons, hmem]
                · grind
                · grind

/-- Rules that can all be evaluated are collected. -/
theorem exists_matched {rules : List Rule}
    (h : ∀ rule ∈ rules, ∃ hit, applies rule subject action resource context = .ok hit) :
    ∃ ms, matched subject action resource context rules = .ok ms := by
  induction rules with
  | nil => exact ⟨[], rfl⟩
  | cons first rules ih =>
      obtain ⟨hit, hfirst⟩ := h first (List.mem_cons_self ..)
      obtain ⟨rest, hrest⟩ := ih fun rule hrule => h rule (List.mem_cons_of_mem _ hrule)
      exact ⟨if hit then first :: rest else rest,
        by simp [matched, hfirst, hrest, bind, Except.bind, pure, Except.pure]⟩

/-- What `check` decides from the rules collected. -/
theorem check_of_matched {engine : PolicyEngine} {ms : List Rule}
    (h : matched subject action ("tenant:" ++ tenant ++ "/" ++ resource) context
      engine.rules = .ok ms) :
    engine.check subject tenant action resource context = .ok () ↔
      (∀ rule ∈ ms, rule.effect ≠ .deny) ∧
      (engine.defaultDeny = true → ∃ rule ∈ ms, rule.effect ≠ .deny) := by
  simp only [check, h, bind, Except.bind]
  cases hdeny : ms.filter (·.effect = .deny) with
  | cons rule rest =>
      have hrule : rule ∈ ms.filter (·.effect = .deny) := by simp [hdeny]
      rw [List.mem_filter, decide_eq_true_eq] at hrule
      simp only [reduceCtorEq, false_iff]
      exact fun hok => hok.1 rule hrule.1 hrule.2
  | nil =>
      have hnone : ∀ rule ∈ ms, rule.effect ≠ .deny := by
        intro rule hrule heffect
        have hmem : rule ∈ ms.filter (·.effect = .deny) :=
          List.mem_filter.mpr ⟨hrule, by simpa using heffect⟩
        simp [hdeny] at hmem
      by_cases hallow : ∃ rule ∈ ms, rule.effect ≠ .deny
      · obtain ⟨rule, hrule, heffect⟩ := hallow
        have hne : ms.filter (·.effect ≠ .deny) ≠ [] :=
          List.ne_nil_of_mem (List.mem_filter.mpr ⟨hrule, by simpa using heffect⟩)
        simp only [hne, false_and, if_false, true_iff]
        exact ⟨hnone, fun _ => ⟨rule, hrule, heffect⟩⟩
      · by_cases hdefault : engine.defaultDeny = true
        · simp [hdefault, hallow]
        · have hoff : ¬ (ms.filter (·.effect ≠ .deny) = [] ∧ engine.defaultDeny = true) :=
            fun h => hdefault h.2
          simp only [hoff, if_false, true_iff]
          exact ⟨hnone, fun h => absurd h hdefault⟩

/-- **What the policy permits.**  All rules can be evaluated, no deny rule
applies, and if the default is to deny, some other rule applies. -/
theorem check_ok_iff {engine : PolicyEngine} :
    engine.check subject tenant action resource context = .ok () ↔
      (∀ rule ∈ engine.rules, ∃ hit, applies rule subject action
        ("tenant:" ++ tenant ++ "/" ++ resource) context = .ok hit) ∧
      (∀ rule ∈ engine.rules, rule.effect = .deny → applies rule subject action
        ("tenant:" ++ tenant ++ "/" ++ resource) context ≠ .ok true) ∧
      (engine.defaultDeny = true → ∃ rule ∈ engine.rules, rule.effect ≠ .deny ∧
        applies rule subject action ("tenant:" ++ tenant ++ "/" ++ resource) context =
          .ok true) := by
  constructor
  · intro hok
    cases hmatched : matched subject action ("tenant:" ++ tenant ++ "/" ++ resource) context
        engine.rules with
    | error exc => simp [check, hmatched, bind, Except.bind] at hok
    | ok ms =>
        obtain ⟨hall, hmem⟩ := spec_of_matched hmatched
        obtain ⟨hdeny, hallow⟩ := (check_of_matched hmatched).mp hok
        refine ⟨hall, fun rule hrule heffect happlies =>
          hdeny rule ((hmem rule).mpr ⟨hrule, happlies⟩) heffect, fun hdefault => ?_⟩
        obtain ⟨rule, hrule, heffect⟩ := hallow hdefault
        obtain ⟨hmember, happlies⟩ := (hmem rule).mp hrule
        exact ⟨rule, hmember, heffect, happlies⟩
  · rintro ⟨hall, hdeny, hallow⟩
    obtain ⟨ms, hmatched⟩ := exists_matched hall
    obtain ⟨-, hmem⟩ := spec_of_matched hmatched
    refine (check_of_matched hmatched).mpr ⟨fun rule hrule heffect => ?_, fun hdefault => ?_⟩
    · obtain ⟨hmember, happlies⟩ := (hmem rule).mp hrule
      exact hdeny rule hmember heffect happlies
    · obtain ⟨rule, hmember, heffect, happlies⟩ := hallow hdefault
      exact ⟨rule, (hmem rule).mpr ⟨hmember, happlies⟩, heffect⟩

end Rules

end PolicyEngine

end Auth
