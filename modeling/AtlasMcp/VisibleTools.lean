import AtlasMcp.Dispatch

/-!
# The tools a client is shown

`ToolRegistry.list_visible` filters the tools by the scopes of the client, and the start of
`dispatch` checks these scopes again.  The two are written separately: for the filter the
admin scope stands for every scope, for `dispatch` only for those that start with `tool:`.
`listVisible_agrees_iff` says when they agree.
-/

namespace Server

open PyJson PyText Tools

variable {F : Type}

/-- What a client is shown of a tool.  The scopes that a call of it needs are
not in it. -/
structure MCPToolSpec (F : Type) where
  name : String
  description : String
  inputSchema : Value F

/-- What only `_to_mcp_spec` reads of a tool: its description, and the JSON
schema that the validation library makes of its input schema. -/
structure ToolTexts (F : Type) where
  description : Tool F → String
  modelJsonSchema : Tool F → Value F

/-- `Tool.to_mcp_spec`: what a client is told of a tool. -/
def toMcpSpec (texts : ToolTexts F) (tool : Tool F) : MCPToolSpec F where
  name := tool.metadata.name
  description := texts.description tool
  inputSchema := texts.modelJsonSchema tool

/-- The admin scope stands for any other. -/
def scopesSatisfied (required held : List String) : Bool :=
  if required.isEmpty then true
  else required.all fun scope => scope ∈ held || "tool:*:admin" ∈ held

/-- The tools in the order of their registration. -/
def registered (r : ToolRegistry F) : List (Tool F) := (r.tools.entries.map Sigma.snd).reverse

/-- `ToolRegistry.list_visible`; the tenant is not used. -/
def listVisible (r : ToolRegistry F) (texts : ToolTexts F) (_tenant : String)
    (scopes : List String) : List (MCPToolSpec F) :=
  ((registered r).filter fun tool => scopesSatisfied tool.metadata.scopesRequired scopes).map
    (toMcpSpec texts)

/-- A tool with this name is among them.  Nothing else of it is compared. -/
def Lists (specs : List (MCPToolSpec F)) (tool : Tool F) : Prop :=
  ∃ spec ∈ specs, spec.name = tool.metadata.name

/-- The scopes of a tool are satisfied if all of them are held, or that of an
administrator is. -/
theorem scopesSatisfied_iff {required held : List String} :
    scopesSatisfied required held = true ↔
      ∀ scope ∈ required, scope ∈ held ∨ "tool:*:admin" ∈ held := by
  cases required <;> simp [scopesSatisfied]

/-- A context has a scope if it is held, or if it is one of a tool and that of
an administrator is held. -/
theorem hasScope_iff {ctx : RequestContext} {required : String} :
    ctx.hasScope required = true ↔ required ∈ ctx.scopes ∨
      startsWith required "tool:" = true ∧ "tool:*:admin" ∈ ctx.scopes := by
  simp [RequestContext.hasScope]

/-- A tool is registered if it is the one under its name. -/
theorem mem_registered_iff {r : ToolRegistry F} {tool : Tool F} :
    tool ∈ registered r ↔ r.tools.lookup tool.metadata.name = some tool := by
  simp only [registered, List.mem_reverse, List.mem_map]
  constructor
  · rintro ⟨⟨name, tool⟩, hentry, rfl⟩
    have hlookup := AList.mem_lookup_iff.mpr hentry
    rwa [r.named name tool hlookup]
  · intro hlookup
    exact ⟨⟨tool.metadata.name, tool⟩, AList.mem_lookup_iff.mp hlookup, rfl⟩

/-- Two registered tools have two names. -/
theorem eq_of_registered {r : ToolRegistry F} {tool other : Tool F}
    (htool : tool ∈ registered r) (hother : other ∈ registered r)
    (hname : tool.metadata.name = other.metadata.name) : tool = other := by
  rw [mem_registered_iff] at htool hother
  rw [hname, hother] at htool
  exact (Option.some.inj htool).symm

/-- A tool is listed by its scopes. -/
theorem lists_listVisible_iff {r : ToolRegistry F} {texts : ToolTexts F} {tenant : String}
    {scopes : List String} {tool : Tool F} (htool : tool ∈ registered r) :
    Lists (listVisible r texts tenant scopes) tool ↔
      scopesSatisfied tool.metadata.scopesRequired scopes = true := by
  simp only [Lists, listVisible, List.mem_map, List.mem_filter]
  constructor
  · rintro ⟨_, ⟨other, ⟨hother, hscopes⟩, rfl⟩, hname⟩
    rwa [← eq_of_registered hother htool hname]
  · intro hscopes
    exact ⟨_, ⟨tool, ⟨htool, hscopes⟩, rfl⟩, rfl⟩

/-- **When a client is shown the tools it may call.**  The listed tools are
those whose scopes `dispatch` accepts, unless the client holds the admin scope
and some tool requires another scope that the client does not hold and that
does not start with `tool:`. -/
theorem listVisible_agrees_iff [UnicodeDb] (r : ToolRegistry F) (texts : ToolTexts F)
    (ctx : RequestContext) :
    (∀ tool ∈ registered r, (Lists (listVisible r texts ctx.tenant ctx.scopes) tool ↔
        checkScopes (F := F) ctx tool.metadata.scopesRequired = .ok ())) ↔
      ("tool:*:admin" ∈ ctx.scopes → ∀ tool ∈ registered r,
        ∀ required ∈ tool.metadata.scopesRequired,
          required ∈ ctx.scopes ∨ startsWith required "tool:" = true) := by
  constructor
  · intro hagree hadmin tool htool required hrequired
    have hlisted : Lists (listVisible r texts ctx.tenant ctx.scopes) tool :=
      (lists_listVisible_iff htool).mpr (scopesSatisfied_iff.mpr fun _ _ => Or.inr hadmin)
    have hheld := checkScopes_ok.mp ((hagree tool htool).mp hlisted) required hrequired
    exact (hasScope_iff.mp hheld).imp_right And.left
  · intro htools tool htool
    rw [lists_listVisible_iff htool, scopesSatisfied_iff, checkScopes_ok]
    refine forall₂_congr fun required hrequired => ?_
    rw [hasScope_iff]
    constructor
    · rintro (hheld | hadmin)
      · exact Or.inl hheld
      · exact (htools hadmin tool htool required hrequired).imp_right fun htool => ⟨htool, hadmin⟩
    · exact Or.imp_right And.right

/-- A tool whose scope does not start with `tool:`. -/
def reportTool : Tool ℕ where
  metadata := { name := "report", scopesRequired := ["report:read"] }
  inputSchema _ := .ok .empty

/-- A registry with one tool. -/
def reportRegistry : ToolRegistry ℕ where
  tools := AList.singleton "report" reportTool
  named := by
    intro name tool h
    obtain ⟨rfl, rfl⟩ : name = "report" ∧ tool = reportTool := by
      simpa [AList.singleton] using AList.mem_lookup_iff.mp h
    rfl

/-- Someone with the scope of an administrator. -/
def adminContext : RequestContext where
  subject := "role:admin"
  tenant := "acme"
  scopes := ["tool:*:admin"]

/-- An administrator is shown a tool that it cannot call, because its scope is
none of a tool. -/
theorem admin_shown_uncallable_tool :
    ¬ ∀ tool ∈ registered reportRegistry,
      (Lists (listVisible reportRegistry ⟨fun _ => "", fun _ => .none⟩ adminContext.tenant
          adminContext.scopes) tool ↔
        checkScopes (F := ℕ) adminContext tool.metadata.scopesRequired = .ok ()) := by
  intro hagree
  have hlisted : Lists (listVisible reportRegistry ⟨fun _ => "", fun _ => .none⟩
      adminContext.tenant adminContext.scopes) reportTool :=
    ⟨_, List.mem_singleton_self _, rfl⟩
  have hok := (hagree reportTool (List.mem_singleton_self _)).mp hlisted
  exact absurd (checkScopes_ok.mp hok "report:read" (List.mem_singleton_self _)) (by decide)

end Server
