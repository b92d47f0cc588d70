import AtlasMcp.ToolRegistry

/-!
# The built-in tools and their discovery

`discover` registers the ten built-in tools one after another and sets its flag at the end.  When
a name is taken it raises, and the tools before it stay registered; `server.ping` is the first,
so the next `discover` raises there (`discover_retry`).  Only a registry in which that name itself
is taken is left as it was (`discover_atomic_iff`).
-/

namespace Tools

open PyJson Errors

variable {F : Type}

/-- The tools that `discover` loads, in the order in which it registers them. -/
inductive Builtin
  | ping
  | postgresQuery
  | elasticsearchSearch
  | vectorSearch
  | s3Get
  | s3Put
  | httpFetch
  | semanticSearch
  | hybridSearch
  | customerContext
  deriving DecidableEq

namespace Builtin

/-- The metadata of the tools, as their classes have it. -/
def metadata : Builtin → ToolMetadata
  | ping =>
      { name := "server.ping"
        cacheable := false }
  | postgresQuery =>
      { name := "postgres.query"
        scopesRequired := ["tool:postgres:read"]
        cacheTtlSeconds := 30 }
  | elasticsearchSearch =>
      { name := "elasticsearch.search"
        scopesRequired := ["tool:elasticsearch:read"]
        cacheTtlSeconds := 30 }
  | vectorSearch =>
      { name := "vector.search"
        scopesRequired := ["tool:vector:read"]
        cacheTtlSeconds := 300 }
  | s3Get =>
      { name := "s3.get_object"
        scopesRequired := ["tool:s3:read"]
        cacheTtlSeconds := 300 }
  | s3Put =>
      { name := "s3.put_object"
        scopesRequired := ["tool:s3:write"]
        destructive := true
        cacheable := false }
  | httpFetch =>
      { name := "http.fetch"
        scopesRequired := ["tool:http:fetch"]
        cacheable := false }
  | semanticSearch =>
      { name := "semantic_search"
        scopesRequired := ["tool:vector:read", "tool:postgres:read"]
        cacheTtlSeconds := 120 }
  | hybridSearch =>
      { name := "hybrid_search"
        scopesRequired := ["tool:vector:read", "tool:elasticsearch:read"]
        cacheTtlSeconds := 120 }
  | customerContext =>
      { name := "customer.build_context"
        scopesRequired := ["tool:postgres:read", "tool:elasticsearch:read", "tool:vector:read"]
        cacheTtlSeconds := 30 }

/-- The name under which a tool is registered. -/
def name (b : Builtin) : String := b.metadata.name

/-- In the order of their registration. -/
def all : List Builtin :=
  [ping, postgresQuery, elasticsearchSearch, vectorSearch, s3Get, s3Put, httpFetch,
    semanticSearch, hybridSearch, customerContext]

theorem mem_all (b : Builtin) : b ∈ all := by cases b <;> decide

theorem name_injective : Function.Injective name := by
  intro b b' h
  have hall : ∀ b ∈ all, ∀ b' ∈ all, b.name = b'.name → b = b' := by decide
  exact hall b (mem_all b) b' (mem_all b') h

/-- A built-in tool, with the input schemas of the built-in tools given. -/
def tool (schemas : Builtin → List (String × Value F) → Except (Rejection F) (BaseModel F))
    (b : Builtin) : Tool F where
  metadata := b.metadata
  inputSchema := schemas b

end Builtin

/-- A registry with the flag of its discovery, which is set when all the tools
are registered, and not before. -/
structure LoadedRegistry (F : Type) extends ToolRegistry F where
  discovered : Bool := false

namespace ToolRegistry

variable [UnicodeDb]

/-- `ToolRegistry.unregister`: the tool goes, or there is an error because it
is not there. -/
def unregister (r : ToolRegistry F) (name : String) : Except (ToolError F) (ToolRegistry F) :=
  if name ∈ r.tools then .ok
    { tools := r.tools.erase name
      named := by
        intro other t h
        by_cases hname : other = name
        · rw [hname, AList.lookup_erase] at h
          cases h
        · rw [AList.lookup_erase_ne hname] at h
          exact r.named other t h }
  else .error (toolNotFoundError name)

/-- Registers tools until a name is taken; what was registered stays. -/
def registerAll (r : ToolRegistry F) : List (Tool F) → Except String Unit × ToolRegistry F
  | [] => (.ok (), r)
  | tool :: tools =>
      match r.register tool with
      | .ok r' => r'.registerAll tools
      | .error e => (.error e, r)

/-- Unregisters tools, all of which are there. -/
def unregisterAll (r : ToolRegistry F) (names : List String) :
    Except (ToolError F) (ToolRegistry F) :=
  names.foldlM unregister r

/-- What is registered was not there before, and is there now. -/
theorem register_eq_ok {r r' : ToolRegistry F} {tool : Tool F} (h : r.register tool = .ok r') :
    tool.metadata.name ∉ r.tools ∧ r'.tools = r.tools.insert tool.metadata.name tool := by
  unfold register at h
  split at h
  · cases h
  next hfree => exact ⟨hfree, by rw [← Except.ok.inj h]⟩

/-- A name that is there is not registered a second time. -/
theorem register_eq_error {r : ToolRegistry F} (tool : Tool F)
    (h : tool.metadata.name ∈ r.tools) :
    r.register tool =
      .error ("tool " ++ PyText.pyRepr tool.metadata.name ++ " already registered") := by
  rw [register, if_pos h]

/-- A tool whose name is free can be registered, so the only error of
`register` is that of a name which is taken. -/
theorem exists_register {r : ToolRegistry F} (tool : Tool F) (h : tool.metadata.name ∉ r.tools) :
    ∃ r', r.register tool = .ok r' := by
  rw [register, if_neg h]
  exact ⟨_, rfl⟩

/-- Registering takes no tool away. -/
theorem mem_registerAll {tools : List (Tool F)} {name : String} {r : ToolRegistry F}
    (h : name ∈ r.tools) : name ∈ (r.registerAll tools).2.tools := by
  induction tools generalizing r with
  | nil => exact h
  | cons tool tools ih =>
      rw [registerAll]
      split
      next r' hok =>
        apply ih
        rw [(register_eq_ok hok).2, AList.mem_insert]
        exact Or.inr h
      next => exact h

/-- Tools whose names are free are all registered. -/
theorem registerAll_of_free {tools : List (Tool F)} {r : ToolRegistry F}
    (hnames : (tools.map fun tool => tool.metadata.name).Nodup)
    (hfree : ∀ tool ∈ tools, tool.metadata.name ∉ r.tools) :
    ∃ r', r.registerAll tools = (.ok (), r') ∧
      (∀ tool ∈ tools, r'.tools.lookup tool.metadata.name = some tool) ∧
      ∀ name ∉ tools.map fun tool => tool.metadata.name,
        r'.tools.lookup name = r.tools.lookup name := by
  induction tools generalizing r with
  | nil => exact ⟨r, rfl, by simp, fun _ _ => rfl⟩
  | cons tool tools ih =>
      rw [List.map_cons, List.nodup_cons] at hnames
      obtain ⟨hnew, hnames⟩ := hnames
      obtain ⟨r₁, hok⟩ := exists_register tool (hfree tool List.mem_cons_self)
      have htools := (register_eq_ok hok).2
      have hfree₁ : ∀ other ∈ tools, other.metadata.name ∉ r₁.tools := by
        intro other hother hmem
        rw [htools, AList.mem_insert] at hmem
        rcases hmem with hsame | hold
        · exact hnew (hsame ▸ List.mem_map_of_mem hother)
        · exact hfree other (List.mem_cons_of_mem _ hother) hold
      obtain ⟨r', hrun, hthere, hothers⟩ := ih hnames hfree₁
      refine ⟨r', ?_, ?_, ?_⟩
      · rw [registerAll, hok]
        exact hrun
      · intro other hother
        rcases List.mem_cons.mp hother with rfl | hother
        · rw [hothers _ hnew, htools, AList.lookup_insert]
        · exact hthere other hother
      · intro name hname
        rw [List.map_cons, List.mem_cons, not_or] at hname
        rw [hothers name hname.2, htools, AList.lookup_insert_ne hname.1]

/-- A name that is taken makes it raise. -/
theorem registerAll_of_taken (tools : List (Tool F)) {r : ToolRegistry F}
    (h : ∃ tool ∈ tools, tool.metadata.name ∈ r.tools) :
    ∃ e, (r.registerAll tools).1 = .error e := by
  induction tools generalizing r with
  | nil =>
      obtain ⟨_, htool, -⟩ := h
      cases htool
  | cons tool tools ih =>
      rw [registerAll]
      split
      next r' hok =>
        obtain ⟨other, hother, htaken⟩ := h
        obtain ⟨hfree, htools⟩ := register_eq_ok hok
        rcases List.mem_cons.mp hother with rfl | hother
        · exact absurd htaken hfree
        · refine ih ⟨other, hother, ?_⟩
          rw [htools, AList.mem_insert]
          exact Or.inr htaken
      next e _ => exact ⟨e, rfl⟩

/-- What is unregistered was there before, and nothing else goes with it. -/
theorem unregister_eq_ok {r r' : ToolRegistry F} {name : String}
    (h : r.unregister name = .ok r') : name ∈ r.tools ∧ r'.tools = r.tools.erase name := by
  unfold unregister at h
  split at h
  next hmem => exact ⟨hmem, by rw [← Except.ok.inj h]⟩
  · cases h

/-- What is left after tools have been unregistered. -/
theorem unregisterAll_of_mem {names : List String} {r : ToolRegistry F} (hnames : names.Nodup)
    (hmem : ∀ name ∈ names, name ∈ r.tools) :
    ∃ r', r.unregisterAll names = .ok r' ∧
      ∀ name, name ∈ r'.tools ↔ name ∈ r.tools ∧ name ∉ names := by
  induction names generalizing r with
  | nil => exact ⟨r, rfl, by simp⟩
  | cons first names ih =>
      rw [List.nodup_cons] at hnames
      obtain ⟨r₁, hok⟩ : ∃ r₁, r.unregister first = .ok r₁ := by
        rw [unregister, if_pos (hmem first List.mem_cons_self)]
        exact ⟨_, rfl⟩
      have htools := (unregister_eq_ok hok).2
      obtain ⟨r', hrun, hleft⟩ := ih (r := r₁) hnames.2 fun name hname => by
        rw [htools, AList.mem_erase]
        exact ⟨fun h => hnames.1 (h ▸ hname), hmem name (List.mem_cons_of_mem _ hname)⟩
      refine ⟨r', ?_, fun name => ?_⟩
      · rw [unregisterAll, List.foldlM_cons, hok]
        exact hrun
      · rw [hleft, htools, AList.mem_erase, List.mem_cons, not_or]
        tauto

/-- Unregistering takes no other tool away. -/
theorem mem_unregisterAll {names : List String} {name : String} {r r' : ToolRegistry F}
    (h : r.unregisterAll names = .ok r') (hname : name ∉ names) (hmem : name ∈ r.tools) :
    name ∈ r'.tools := by
  induction names generalizing r with
  | nil =>
      obtain rfl := Except.ok.inj h
      exact hmem
  | cons first names ih =>
      rw [List.mem_cons, not_or] at hname
      rw [unregisterAll, List.foldlM_cons] at h
      cases hfirst : r.unregister first with
      | error e =>
          rw [hfirst] at h
          cases h
      | ok r₁ =>
          rw [hfirst] at h
          refine ih h hname.2 ?_
          rw [(unregister_eq_ok hfirst).2, AList.mem_erase]
          exact ⟨hname.1, hmem⟩

end ToolRegistry

namespace LoadedRegistry

open ToolRegistry

section Discover

variable [UnicodeDb]
variable (schemas : Builtin → List (String × Value F) → Except (Rejection F) (BaseModel F))

/-- `ToolRegistry.discover`: the tools are registered one after the other, and
if one of them fails, those before it stay although nothing was discovered. -/
def discover (r : LoadedRegistry F) : Except String Unit × LoadedRegistry F :=
  if r.discovered then (.ok (), r)
  else
    match r.registerAll (Builtin.all.map (Builtin.tool schemas)) with
    | (.ok _, r') => (.ok (), { toToolRegistry := r', discovered := true })
    | (.error e, r') => (.error e, { toToolRegistry := r', discovered := false })

/-- What can happen to a registry: a tool comes or goes, or all of them are
discovered. -/
inductive Change (F : Type)
  | register (tool : Tool F)
  | unregister (name : String)
  | discover

/-- A change; one that raises leaves what it has done. -/
def apply (r : LoadedRegistry F) : Change F → LoadedRegistry F
  | .register tool =>
      match r.register tool with
      | .ok r' => { r with toToolRegistry := r' }
      | .error _ => r
  | .unregister name =>
      match r.unregister name with
      | .ok r' => { r with toToolRegistry := r' }
      | .error _ => r
  | .discover => (r.discover schemas).2

/-- The built-in names that are taken. -/
def conflicts (r : LoadedRegistry F) : List String :=
  (Builtin.all.map Builtin.name).filter fun name => name ∈ r.tools

/-- What a discovery should do.  One that raises leaves the registry as it
was, and another one succeeds when the tools in its way have been
unregistered; after one that succeeds, no later one changes anything. -/
structure Atomic (r : LoadedRegistry F) : Prop where
  unchanged : ∀ e r', r.discover schemas = (.error e, r') → r' = r
  retried : ∀ e r', r.discover schemas = (.error e, r') →
    ∃ cleared loaded, r'.unregisterAll r.conflicts = .ok cleared ∧
      LoadedRegistry.discover schemas { r' with toToolRegistry := cleared } = (.ok (), loaded) ∧
      ∀ b : Builtin, loaded.tools.lookup b.name = some (b.tool schemas)
  settled : ∀ r', r.discover schemas = (.ok (), r') → ∀ changes : List (Change F),
    let later := changes.foldl (apply schemas) r'
    later.discover schemas = (.ok (), later)

variable {schemas} {r : LoadedRegistry F}

/-- A second discovery changes nothing and does not fail. -/
theorem discover_of_discovered (h : r.discovered = true) :
    r.discover schemas = (.ok (), r) := by
  rw [discover, if_pos h]

variable (schemas) in
/-- With the built-in names free, the built-in tools are registered. -/
theorem discover_of_free (hfresh : r.discovered = false) (hfree : ∀ b : Builtin, b.name ∉ r.tools) :
    ∃ r', r.discover schemas = (.ok (), r') ∧
      ∀ b : Builtin, r'.tools.lookup b.name = some (b.tool schemas) := by
  have hnames : ((Builtin.all.map (Builtin.tool schemas)).map
      fun tool => tool.metadata.name).Nodup := by
    rw [List.map_map]
    exact List.Nodup.map Builtin.name_injective (by decide)
  obtain ⟨r', hrun, hthere, -⟩ := registerAll_of_free (r := r.toToolRegistry) hnames
    (List.forall_mem_map.mpr fun b _ => hfree b)
  refine ⟨{ toToolRegistry := r', discovered := true }, ?_, fun b => ?_⟩
  · rw [discover, if_neg (by simp [hfresh]), hrun]
  · exact hthere (b.tool schemas) (List.mem_map_of_mem (Builtin.mem_all b))

variable (schemas) in
/-- It raises at the first tool if the name of that is taken. -/
theorem discover_of_ping (hfresh : r.discovered = false) (hping : Builtin.ping.name ∈ r.tools) :
    r.discover schemas = (.error ("tool " ++ PyText.pyRepr Builtin.ping.name ++
      " already registered"), r) := by
  have herror := register_eq_error (Builtin.tool schemas .ping) hping
  rw [discover, if_neg (by simp [hfresh]), Builtin.all, List.map_cons, registerAll, herror]
  obtain ⟨r, discovered⟩ := r
  obtain rfl : discovered = false := hfresh
  rfl

variable (schemas) in
/-- **A failed discovery.**  It raises if a name is taken, and if that is not
the first, the first tool stays registered. -/
theorem discover_of_taken (hfresh : r.discovered = false) {b : Builtin}
    (htaken : b.name ∈ r.tools) :
    ∃ e r', r.discover schemas = (.error e, r') ∧ r'.discovered = false ∧
      Builtin.ping.name ∈ r'.tools := by
  obtain ⟨e, herror⟩ := registerAll_of_taken (r := r.toToolRegistry)
    (Builtin.all.map (Builtin.tool schemas))
    ⟨b.tool schemas, List.mem_map_of_mem (Builtin.mem_all b), htaken⟩
  refine ⟨e, ⟨(r.registerAll (Builtin.all.map (Builtin.tool schemas))).2, false⟩, ?_, rfl, ?_⟩
  · rw [discover, if_neg (by simp [hfresh])]
    split
    next hok => simp [hok] at herror
    next e' r' hrun =>
      rw [hrun] at herror ⊢
      rw [Except.error.inj herror]
  · by_cases hping : Builtin.ping.name ∈ r.tools
    · exact mem_registerAll hping
    · obtain ⟨r₁, hok⟩ := exists_register (Builtin.tool schemas .ping) hping
      rw [Builtin.all, List.map_cons, registerAll, hok]
      apply mem_registerAll
      rw [(register_eq_ok hok).2, AList.mem_insert]
      exact Or.inl rfl

/-- **The retry.**  After a discovery that raised, another one raises at the
first tool, unless that one was unregistered too. -/
theorem discover_retry {e : String} {r' : LoadedRegistry F} {names : List String}
    {cleared : ToolRegistry F} (h : r.discover schemas = (.error e, r'))
    (hcleared : r'.unregisterAll names = .ok cleared) (hnames : Builtin.ping.name ∉ names) :
    LoadedRegistry.discover schemas { r' with toToolRegistry := cleared } =
      (.error ("tool " ++ PyText.pyRepr Builtin.ping.name ++ " already registered"),
        { r' with toToolRegistry := cleared }) := by
  have hfresh : r.discovered = false := by
    by_contra hdiscovered
    cases (discover_of_discovered (Bool.not_eq_false _ ▸ hdiscovered)).symm.trans h
  have htaken : ∃ b : Builtin, b.name ∈ r.tools := by
    by_contra hfree
    push Not at hfree
    obtain ⟨loaded, hok, -⟩ := discover_of_free schemas hfresh hfree
    cases hok.symm.trans h
  obtain ⟨b, hb⟩ := htaken
  obtain ⟨e', r₁, hrun, hfresh', hping⟩ := discover_of_taken schemas hfresh hb
  obtain rfl := (Prod.mk.inj (hrun.symm.trans h)).2
  exact discover_of_ping schemas hfresh' (mem_unregisterAll hcleared hnames hping)

theorem discovered_of_ok {r' : LoadedRegistry F} (h : r.discover schemas = (.ok (), r')) :
    r'.discovered = true := by
  unfold discover at h
  split at h
  next hdiscovered =>
    obtain rfl := (Prod.mk.inj h).2
    exact hdiscovered
  next =>
    split at h
    · rw [← (Prod.mk.inj h).2]
    · cases (Prod.mk.inj h).1

/-- No change takes the flag back. -/
theorem discovered_apply (h : r.discovered = true) (change : Change F) :
    (r.apply schemas change).discovered = true := by
  cases change with
  | register tool =>
      rw [apply]
      split <;> exact h
  | unregister name =>
      rw [apply]
      split <;> exact h
  | discover =>
      rw [apply, discover_of_discovered h]
      exact h

/-- What was discovered stays so, whatever is registered or unregistered
afterwards. -/
theorem discovered_foldl (h : r.discovered = true) (changes : List (Change F)) :
    (changes.foldl (apply schemas) r).discovered = true := by
  induction changes generalizing r with
  | nil => exact h
  | cons change changes ih => exact ih (discovered_apply h change)

/-- With the tools in its way unregistered, a discovery succeeds. -/
theorem discover_cleared (hfresh : r.discovered = false) :
    ∃ cleared loaded, r.unregisterAll r.conflicts = .ok cleared ∧
      LoadedRegistry.discover schemas { r with toToolRegistry := cleared } = (.ok (), loaded) ∧
      ∀ b : Builtin, loaded.tools.lookup b.name = some (b.tool schemas) := by
  have hnames : r.conflicts.Nodup :=
    (List.Nodup.map Builtin.name_injective (by decide)).filter _
  obtain ⟨cleared, hcleared, hleft⟩ := unregisterAll_of_mem (r := r.toToolRegistry) hnames
    fun name hname => by simpa using List.of_mem_filter hname
  obtain ⟨loaded, hloaded, hthere⟩ := discover_of_free schemas
    (r := { r with toToolRegistry := cleared }) hfresh fun b hb => by
      obtain ⟨hmem, hnot⟩ := (hleft b.name).mp hb
      exact hnot (List.mem_filter.mpr
        ⟨List.mem_map_of_mem (Builtin.mem_all b), by simpa using hmem⟩)
  exact ⟨cleared, loaded, hcleared, hloaded, hthere⟩

/-- **When a discovery is atomic.**  The tools were loaded already, or no
built-in name is taken, or the name of the first built-in tool is. -/
theorem discover_atomic_iff : Atomic schemas r ↔
    r.discovered = true ∨ (∀ b : Builtin, b.name ∉ r.tools) ∨ Builtin.ping.name ∈ r.tools := by
  have hsettled : ∀ r', r.discover schemas = (.ok (), r') → ∀ changes : List (Change F),
      (changes.foldl (apply schemas) r').discover schemas =
        (.ok (), changes.foldl (apply schemas) r') :=
    fun r' hok changes => discover_of_discovered (discovered_foldl (discovered_of_ok hok) changes)
  cases hfresh : r.discovered with
  | true =>
      have hok : r.discover schemas = (.ok (), r) := discover_of_discovered hfresh
      refine ⟨fun _ => Or.inl rfl, fun _ => ⟨fun e r' h => ?_, fun e r' h => ?_, hsettled⟩⟩
      · cases hok.symm.trans h
      · cases hok.symm.trans h
  | false =>
      constructor
      · intro hatomic
        refine Or.inr (or_iff_not_imp_left.mpr fun htaken => ?_)
        push Not at htaken
        obtain ⟨b, hb⟩ := htaken
        obtain ⟨e, r', hrun, -, hping⟩ := discover_of_taken schemas hfresh hb
        exact hatomic.unchanged e r' hrun ▸ hping
      · rintro (hdiscovered | hfree | hping)
        · cases hdiscovered
        · obtain ⟨loaded, hok, -⟩ := discover_of_free schemas hfresh hfree
          refine ⟨fun e r' h => ?_, fun e r' h => ?_, hsettled⟩
          · cases hok.symm.trans h
          · cases hok.symm.trans h
        · have hrun := discover_of_ping schemas hfresh hping
          refine ⟨fun e r' h => ?_, fun e r' h => ?_, hsettled⟩
          · exact (Prod.mk.inj (hrun.symm.trans h)).2.symm
          · obtain rfl := (Prod.mk.inj (hrun.symm.trans h)).2
            exact discover_cleared hfresh

end Discover

/-- A registry in which the name of the second built-in tool is taken. -/
def queryRegistry : LoadedRegistry ℕ where
  tools := AList.singleton "postgres.query" (Builtin.tool (fun _ _ => .ok .empty) .postgresQuery)
  named := by
    intro name tool h
    obtain ⟨rfl, rfl⟩ : name = "postgres.query" ∧
        tool = Builtin.tool (fun _ _ => .ok .empty) .postgresQuery := by
      simpa [AList.singleton] using AList.mem_lookup_iff.mp h
    rfl

/-- The discovery raises there, and `server.ping` stays. -/
theorem queryRegistry_not_atomic : ¬ Atomic (fun _ _ => .ok .empty) queryRegistry := by
  intro hatomic
  have htaken : Builtin.postgresQuery.name ∈ queryRegistry.tools :=
    AList.mem_keys.mpr (List.mem_singleton_self _)
  obtain ⟨e, r', hrun, -, hping⟩ :=
    discover_of_taken (fun _ _ => .ok .empty) rfl htaken
  rw [hatomic.unchanged e r' hrun] at hping
  exact absurd (List.mem_singleton.mp (AList.mem_keys.mp hping)) (by decide)

end LoadedRegistry

end Tools
