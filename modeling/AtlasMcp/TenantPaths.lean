import AtlasMcp.DispatchGates
import AtlasMcp.ObjectStore
import AtlasMcp.PolicyRules

/-!
# Tenants in paths

A tenant becomes the first part of a path twice: `PolicyEngine.check` matches the rules
against `tenant:T/tool`, and the objects of a tenant lie under `T/key`.  Nothing keeps
slashes out of a tenant, so the first part of a path does not tell where the tenant ends.

Two paths that agree either agree part by part, or one tenant goes on, after a slash,
where the other has ended (`append_slash_eq_iff`).  What the pattern `tenant:T/*` matches
beyond `T`, and which tenants can reach into each other's objects, are both read off
this.
-/

namespace Server

open PyJson PyText Errors Tools Auth FallibleState

variable {F : Type}

/-! ## Two ways to read a path -/

/-- A path read in two ways: the parts are the same, or one head goes on,
after a separator, into the rest of the other. -/
theorem append_slash_eq_iff {α : Type} {sep : α} {a b r s : List α} :
    a ++ sep :: r = b ++ sep :: s ↔
      (a = b ∧ r = s) ∨ (∃ mid, b = a ++ sep :: mid ∧ r = mid ++ sep :: s) ∨
        ∃ mid, a = b ++ sep :: mid ∧ s = mid ++ sep :: r := by
  rw [List.append_eq_append_iff]
  constructor
  · rintro (⟨mid, rfl, hmid⟩ | ⟨mid, rfl, hmid⟩)
    · cases mid with
      | nil => exact Or.inl ⟨by simp, by simpa using hmid⟩
      | cons x mid =>
          obtain ⟨rfl, rfl⟩ : sep = x ∧ r = mid ++ sep :: s := by simpa using hmid
          exact Or.inr (Or.inl ⟨mid, rfl, rfl⟩)
    · cases mid with
      | nil => exact Or.inl ⟨by simp, by simpa [eq_comm] using hmid⟩
      | cons x mid =>
          obtain ⟨rfl, rfl⟩ : sep = x ∧ s = mid ++ sep :: r := by simpa using hmid
          exact Or.inr (Or.inr ⟨mid, rfl, rfl⟩)
  · rintro (⟨rfl, rfl⟩ | ⟨mid, rfl, rfl⟩ | ⟨mid, rfl, rfl⟩)
    · exact Or.inl ⟨[], by simp, by simp⟩
    · exact Or.inl ⟨sep :: mid, rfl, by simp⟩
    · exact Or.inr ⟨sep :: mid, rfl, by simp⟩

/-- A head without separators, followed by one, begins a path if it is the
head of the path or the head goes on from it. -/
theorem prefix_append_slash_iff {α : Type} {sep : α} {a b r : List α} (h : sep ∉ a) :
    a ++ [sep] <+: b ++ sep :: r ↔ b = a ∨ a ++ [sep] <+: b := by
  constructor
  · rintro ⟨rest, hrest⟩
    rw [List.append_assoc, List.singleton_append, append_slash_eq_iff] at hrest
    rcases hrest with ⟨rfl, -⟩ | ⟨mid, rfl, -⟩ | ⟨mid, rfl, -⟩
    · exact Or.inl rfl
    · exact Or.inr ⟨mid, by simp⟩
    · exact absurd (by simp) h
  · rintro (rfl | hb)
    · exact ⟨r, by simp⟩
    · exact hb.trans (List.prefix_append _ _)

/-! ## Rules for one tenant -/

/-- The rule matches the dispatch, with what `dispatch` asks the policy
about. -/
def matchesDispatch (rule : Rule) (env : ToolCallEnvelope F) (tool : Tool F) : Bool :=
  PolicyEngine.ruleMatches rule env.caller tool.metadata.name
    ("tenant:" ++ env.tenant ++ "/" ++ tool.metadata.name)

/-- The pattern of the resources of one tenant. -/
def tenantPattern (tenant : String) : String := "tenant:" ++ tenant ++ "/*"

/-- The subjects and the actions of the rule are those of the dispatch, so that
its resources decide. -/
def Concerns (rule : Rule) (env : ToolCallEnvelope F) (tool : Tool F) : Prop :=
  globAny rule.subjects env.caller = true ∧ globAny rule.actions tool.metadata.name = true

/-- The tenant goes on, after a slash, from the other.  Its resources then begin
with those of the other one. -/
def Under (tenant other : String) : Prop := startsWith other (tenant ++ "/") = true

/-- A pattern that ends in a star is a test of what the value starts with. -/
theorem globAny_star {p value : String} (h : p ≠ "") :
    globAny [p ++ "*"] value = startsWith value p := by
  have hstar : p ++ "*" ≠ "*" := by
    intro heq
    have hlist : p.toList ++ ['*'] = ['*'] := by simpa using congrArg String.toList heq
    exact h (String.toList_eq_nil_iff.mp (by simpa using hlist))
  have hends : endsWith (p ++ "*") "*" = true := by
    simp [endsWith]
  have hbefore : String.ofList (p ++ "*").toList.dropLast = p := by simp
  simp only [globAny, List.any_cons, List.any_nil, hstar, hends, hbefore, Bool.or_false,
    Bool.true_and, decide_false, Bool.false_or]
  by_cases heq : p ++ "*" = value
  · subst heq
    simp [startsWith]
  · simp [heq]

/-- What the pattern of a tenant matches: its own resources, and those of the
tenants under it. -/
theorem globAny_tenantPattern {t : String} (hslash : '/' ∉ t.toList) (u name : String) :
    globAny [tenantPattern t] ("tenant:" ++ u ++ "/" ++ name) = true ↔ u = t ∨ Under t u := by
  have hpattern : tenantPattern t = "tenant:" ++ t ++ "/" ++ "*" := by
    simp [tenantPattern, String.append_assoc]
  have hne : "tenant:" ++ t ++ "/" ≠ "" := by simp
  rw [hpattern, globAny_star hne]
  simp only [Under, startsWith, List.isPrefixOf_iff_prefix, String.toList_append,
    List.append_assoc, List.prefix_append_right_inj]
  rw [show "/".toList = ['/'] from rfl, List.singleton_append, prefix_append_slash_iff hslash,
    String.toList_inj]

/-- **When a rule for one tenant is for that tenant alone.**  It matches the
dispatches of its own tenant and no others, except that it matches those of a
tenant that goes on from it after a slash. -/
theorem tenant_rule_exact_iff {t : String} (hslash : '/' ∉ t.toList) {rule : Rule}
    (hresources : rule.resources = [tenantPattern t]) (env : ToolCallEnvelope F)
    (tool : Tool F) :
    (matchesDispatch rule env tool = true ↔ Concerns rule env tool ∧ env.tenant = t) ↔
      ¬ (Concerns rule env tool ∧ Under t env.tenant) := by
  have hmatches : matchesDispatch rule env tool = true ↔
      Concerns rule env tool ∧ (env.tenant = t ∨ Under t env.tenant) := by
    rw [← globAny_tenantPattern hslash env.tenant tool.metadata.name, ← hresources]
    simp [matchesDispatch, PolicyEngine.ruleMatches, Concerns]
  -- a tenant is not under itself
  have hself : env.tenant = t → ¬ Under t env.tenant := by
    rintro rfl hunder
    have hprefix : env.tenant.toList ++ ['/'] <+: env.tenant.toList := by
      simpa [Under, startsWith] using hunder
    have hlength := hprefix.length_le
    simp at hlength
  rw [hmatches]
  tauto

/-- A server that knows one rule, which lets everybody at `acme` ping it. -/
def acmeServer : AtlasServer WholeFloat :=
  { pingServer with
    policy := { rules := [⟨"acme", ["*"], ["*"], [tenantPattern "acme"], .allow, none⟩] } }

/-- The rule of `acme` matches a dispatch by `acme/eu`, and the gates let it
through. -/
theorem acme_rule_matches_other_tenant :
    let ctx : RequestContext := { subject := "agent", tenant := "acme/eu" }
    let env : ToolCallEnvelope WholeFloat := ctx.buildEnvelope "server.ping" []
    let rule : Rule := ⟨"acme", ["*"], ["*"], [tenantPattern "acme"], .allow, none⟩
    ('/' ∉ "acme".toList ∧ '*' ∉ "acme".toList) ∧ env.tenant ≠ "acme" ∧
      matchesDispatch rule env pingTool = true ∧
      ((gates acmeServer ctx env ⟨0, 0, ""⟩).run acmeServer.initial).1.toOption.isSome =
        true := by
  decide +kernel

/-- The rule of one tenant, and a document of another one. -/
theorem globex_is_no_acme :
    let rule : Rule := ⟨"acme", ["*"], ["*"], [tenantPattern "acme"], .allow, none⟩
    let env : ToolCallEnvelope WholeFloat := ⟨"server.ping", [], "globex", "agent", none, none⟩
    ¬ (Concerns rule env pingTool ∧ Under "acme" env.tenant) ∧
      (matchesDispatch rule env pingTool = true ↔
        Concerns rule env pingTool ∧ env.tenant = "acme") := by
  intro rule env
  have hapart : ¬ (Concerns rule env pingTool ∧ Under "acme" env.tenant) :=
    fun h => absurd h.2 (by unfold Under; decide)
  exact ⟨hapart, (tenant_rule_exact_iff (by decide) rfl env pingTool).mpr hapart⟩

/-- **Where such rules let a call in.**  If every rule that is not a deny is
for one tenant, and the default is to deny, the tenant of an authorised call
is that one or goes on from it. -/
theorem tenant_of_authorised [PyFloat F] [UnicodeDb] {t : String} (hslash : '/' ∉ t.toList)
    {srv : AtlasServer F} (hdefault : srv.policy.defaultDeny = true)
    (hrules : ∀ rule ∈ srv.policy.rules, rule.effect ≠ .deny →
      rule.resources = [tenantPattern t])
    {ctx : RequestContext} {env : ToolCallEnvelope F} {tool : Tool F} {args : BaseModel F}
    (h : Authorised srv ctx env tool args) : env.tenant = t ∨ Under t env.tenant := by
  obtain ⟨-, -, hallow⟩ := PolicyEngine.check_ok_iff.mp h.permitted
  obtain ⟨rule, hrule, heffect, happlies⟩ := hallow hdefault
  have hmatches := PolicyEngine.matches_of_applies happlies
  rw [PolicyEngine.ruleMatches, hrules rule hrule heffect, Bool.and_eq_true] at hmatches
  exact (globAny_tenantPattern hslash _ _).mp hmatches.2

/-! ## Objects of other tenants -/

/-- A key that the schema of the tools takes: a text of at most 1024
characters that the validation library has stripped.  Which characters it
strips is its own matter. -/
structure IsObjectKey (space : Char → Bool) (key : String) : Prop where
  short : key.toList.length ≤ 1024
  head : ∀ c, key.toList.head? = some c → space c = false
  last : ∀ c, key.toList.getLast? = some c → space c = false

/-- The object key without its leading slashes. -/
def lstripped (key : String) : List Char := key.toList.dropWhile (· = '/')

/-- The object of the first tenant under the first key is the one of the
second tenant, whose name goes on into the key. -/
def Overlaps (t key u other : String) : Prop :=
  ∃ rest, u.toList = t.toList ++ '/' :: rest ∧ lstripped key = rest ++ '/' :: lstripped other

/-- The second tenant goes on from the first with what a key can begin
with. -/
def Reaches (space : Char → Bool) (t u : String) : Prop :=
  ∃ c rest, u.toList = t.toList ++ '/' :: c :: rest ∧ c ≠ '/' ∧
    rest.length + (if space c then 3 else 2) ≤ 1024

/-- The key in the store is the tenant, a slash, and the key without the
slashes before it. -/
theorem toList_tenantKey (t key : String) :
    (tenantKey t key).toList = t.toList ++ '/' :: lstripped key := by
  simp [tenantKey, lstripped]

/-- **When the objects of two tenants are the same.** -/
theorem tenantKey_eq_iff {t u : String} (hne : t ≠ u) (key other : String) :
    tenantKey t key = tenantKey u other ↔ Overlaps t key u other ∨ Overlaps u other t key := by
  have hlists : t.toList ≠ u.toList := fun h => hne (String.toList_injective h)
  rw [← String.toList_inj, toList_tenantKey, toList_tenantKey, append_slash_eq_iff]
  simp [hlists, Overlaps]

/-- What is left of a key does not begin with a slash. -/
theorem ne_slash_of_lstripped {key : String} {c : Char} {rest : List Char}
    (h : lstripped key = c :: rest) : c ≠ '/' := by
  have hhead := List.head?_dropWhile_not (· = '/') key.toList
  rw [← lstripped, h] at hhead
  simpa using hhead

/-- Keys whose objects overlap make one tenant reach the other. -/
theorem reaches_of_overlaps {space : Char → Bool} {t u key other : String}
    (hkey : IsObjectKey space key) (h : Overlaps t key u other) : Reaches space t u := by
  obtain ⟨rest, hu, hkeyRest⟩ := h
  cases rest with
  | nil => exact absurd rfl (ne_slash_of_lstripped hkeyRest)
  | cons c rest =>
      have hc : c ≠ '/' := ne_slash_of_lstripped hkeyRest
      refine ⟨c, rest, hu, hc, ?_⟩
      have hsuffix : lstripped key <:+ key.toList := List.dropWhile_suffix _
      have hlength := hsuffix.length_le
      have hshort := hkey.short
      simp only [hkeyRest, List.length_append, List.length_cons] at hlength
      by_cases hspace : space c = true
      · -- the key has a slash in front, or it would begin with white space
        have hlonger : (lstripped key).length ≠ key.toList.length := by
          intro heq
          have hwhole : lstripped key = key.toList := hsuffix.eq_of_length heq
          have hhead := hkey.head c (by rw [← hwhole, hkeyRest]; rfl)
          rw [hspace] at hhead
          cases hhead
        simp only [hkeyRest, List.length_append, List.length_cons] at hlonger
        rw [if_pos hspace]
        omega
      · rw [if_neg hspace]
        omega

/-- A tenant that reaches another has a key for the object that the other has
under the empty key. -/
theorem exists_overlap_of_reaches {space : Char → Bool} (hslash : space '/' = false)
    {t u : String} (h : Reaches space t u) :
    ∃ key, IsObjectKey space key ∧ IsObjectKey space "" ∧ Overlaps t key u "" := by
  obtain ⟨c, rest, hu, hc, hlength⟩ := h
  let folder := (if space c then ['/'] else []) ++ c :: (rest ++ ['/'])
  have hlast : folder.getLast? = some '/' := by
    have hsplit : folder = ((if space c then ['/'] else []) ++ c :: rest) ++ ['/'] := by
      simp [folder]
    rw [hsplit, List.getLast?_concat]
  have hstripped : lstripped (String.ofList folder) = c :: (rest ++ ['/']) := by
    rw [lstripped, String.toList_ofList]
    by_cases hspace : space c = true <;> simp [folder, hspace, hc]
  have hempty : IsObjectKey space "" := ⟨by simp, by simp, by simp⟩
  refine ⟨String.ofList folder, ⟨?_, ?_, ?_⟩, hempty, c :: rest, hu, ?_⟩
  · rw [String.toList_ofList]
    by_cases hspace : space c = true <;> simp [folder, hspace] at hlength ⊢ <;> omega
  · intro d hd
    rw [String.toList_ofList] at hd
    by_cases hspace : space c = true
    · obtain rfl : '/' = d := by simpa [folder, hspace] using hd
      exact hslash
    · obtain rfl : c = d := by simpa [folder, hspace] using hd
      simpa using hspace
  · intro d hd
    rw [String.toList_ofList, hlast] at hd
    obtain rfl := Option.some.inj hd
    exact hslash
  · rw [hstripped]
    simp [lstripped]

/-- **When two tenants are kept apart.**  If the validation library strips no
slashes: two different tenants have no object in common, under any keys that
the tools take, exactly if neither goes on, after a slash, from the other in a
way that a key can begin with.  For two given keys the objects differ exactly
if neither tenant goes on into the key of the other. -/
theorem tenantKeys_disjoint_iff {space : Char → Bool} (hslash : space '/' = false)
    {t u : String} (hne : t ≠ u) :
    ((∀ key other, IsObjectKey space key → IsObjectKey space other →
      tenantKey t key ≠ tenantKey u other) ↔ ¬ Reaches space t u ∧ ¬ Reaches space u t) ∧
    ∀ key other, tenantKey t key ≠ tenantKey u other ↔
      ¬ Overlaps t key u other ∧ ¬ Overlaps u other t key := by
  refine ⟨⟨fun h => ⟨fun hreaches => ?_, fun hreaches => ?_⟩, ?_⟩, fun key other => ?_⟩
  · obtain ⟨key, hkey, hempty, hoverlaps⟩ := exists_overlap_of_reaches hslash hreaches
    exact h key "" hkey hempty ((tenantKey_eq_iff hne key "").mpr (Or.inl hoverlaps))
  · obtain ⟨key, hkey, hempty, hoverlaps⟩ := exists_overlap_of_reaches hslash hreaches
    exact h "" key hempty hkey ((tenantKey_eq_iff hne "" key).mpr (Or.inr hoverlaps))
  · rintro ⟨htu, hut⟩ key other hkey hother heq
    rcases (tenantKey_eq_iff hne key other).mp heq with hoverlaps | hoverlaps
    · exact htu (reaches_of_overlaps hkey hoverlaps)
    · exact hut (reaches_of_overlaps hother hoverlaps)
  · rw [ne_eq, tenantKey_eq_iff hne, not_or]

/-- Two tenants whose objects are apart, whatever their keys are. -/
theorem acme_globex_disjoint :
    (isSpace '/' = false ∧ ("acme" : String) ≠ "globex") ∧
      (∀ key other, IsObjectKey isSpace key → IsObjectKey isSpace other →
        tenantKey "acme" key ≠ tenantKey "globex" other) ∧
      (tenantKey "acme" "report" ≠ tenantKey "globex" "report" ↔
        ¬ Overlaps "acme" "report" "globex" "report" ∧
          ¬ Overlaps "globex" "report" "acme" "report") := by
  have hslash : isSpace '/' = false := by decide
  have hne : ("acme" : String) ≠ "globex" := by decide
  have hapart : ¬ Reaches isSpace "acme" "globex" ∧ ¬ Reaches isSpace "globex" "acme" := by
    constructor <;> rintro ⟨c, rest, hu, -⟩ <;> simp at hu
  obtain ⟨htenants, hkeys⟩ := tenantKeys_disjoint_iff hslash hne
  exact ⟨⟨hslash, hne⟩, htenants.mpr hapart, hkeys _ _⟩

/-- The object `c` of the tenant `a/b` is the object `b/c` of the tenant
`a`. -/
theorem nested_tenants_share :
    ("a" : String) ≠ "a/b" ∧ IsObjectKey isSpace "b/c" ∧ IsObjectKey isSpace "c" ∧
      tenantKey "a" "b/c" = tenantKey "a/b" "c" := by
  refine ⟨by decide, ⟨by decide, ?_, ?_⟩, ⟨by decide, ?_, ?_⟩, by decide⟩
  · intro c hc
    obtain rfl : 'b' = c := by simpa using hc
    decide
  all_goals
    intro c hc
    obtain rfl : 'c' = c := by simpa using hc
    decide

/-- Two dispatches for tenants of which neither reaches the other are about
different objects. -/
theorem objectKey_ne [PyFloat F] [UnicodeDb] {space : Char → Bool} {f g : Flight F}
    (hf : IsObjectKey space (textField f.args "key"))
    (hg : IsObjectKey space (textField g.args "key"))
    (hne : f.envelope.tenant ≠ g.envelope.tenant)
    (hfg : ¬ Reaches space f.envelope.tenant g.envelope.tenant)
    (hgf : ¬ Reaches space g.envelope.tenant f.envelope.tenant) : f.objectKey ≠ g.objectKey := by
  intro heq
  rcases (tenantKey_eq_iff hne _ _).mp heq with hoverlaps | hoverlaps
  · exact hfg (reaches_of_overlaps hf hoverlaps)
  · exact hgf (reaches_of_overlaps hg hoverlaps)

end Server
