import AtlasMcp.BooleanQueries
import AtlasMcp.SearchTools
import Mathlib.Data.Set.Basic

/-!
# Documents of one tenant

The collections behind the search tools hold the documents of all tenants.  Both tools put
a clause for the tenant into what they send.  `readQuery` reads a query as the backends do:
a combination of `must`, `should` and `must_not` clauses, nested to any depth, over
conditions that are the backend's own.

`selected_of_tenant` is what the clause is for: a request selects exactly the documents of
its tenant that match the query, or the filter, of the caller.
-/

namespace Server

open PyJson PyText Errors Dialogues BooleanQueries

variable {F : Type}

/-- Elasticsearch writes a combination as `{"bool": {..}}`, and has `filter`
clauses that are like `must`; Qdrant writes it as `{..}`. -/
inductive Dialect
  | elasticsearch
  | qdrant

/-- The clauses of a filter that hold queries. -/
def clauseNames : List String := ["must", "should", "must_not"]

mutual

/-- The query that a value writes down; what is no combination is a
condition. -/
def readQuery (dialect : Dialect) : Value F → Query (Value F)
  | .dict kvs =>
      match dialect, kvs with
      | .elasticsearch, [("bool", .dict clauses)] =>
          .bool (readClause dialect "must" clauses ++ readClause dialect "filter" clauses)
            (readClause dialect "should" clauses) (readClause dialect "must_not" clauses)
      | .qdrant, kvs =>
          if kvs.all fun kv => kv.1 ∈ clauseNames then
            .bool (readClause dialect "must" kvs) (readClause dialect "should" kvs)
              (readClause dialect "must_not" kvs)
          else .leaf (.dict kvs)
      | _, kvs => .leaf (.dict kvs)
  | v => .leaf v
termination_by structural v => v

/-- The queries of a clause: those of a list, or one that stands alone. -/
def readClause (dialect : Dialect) (name : String) :
    List (String × Value F) → List (Query (Value F))
  | [] => []
  | (key, .list vs) :: kvs =>
      if key = name then readQueries dialect vs else readClause dialect name kvs
  | (key, .none) :: kvs => if key = name then [] else readClause dialect name kvs
  | (key, v) :: kvs => if key = name then [readQuery dialect v] else readClause dialect name kvs
termination_by structural kvs => kvs

/-- The queries of a list. -/
def readQueries (dialect : Dialect) : List (Value F) → List (Query (Value F))
  | [] => []
  | v :: vs => readQuery dialect v :: readQueries dialect vs
termination_by structural vs => vs

end

/-- A collection: the tenant of each document, and which conditions hold of
it.  The clause for a tenant holds of the documents of that tenant. -/
structure Collection (F D : Type) (tenantClause : String → PyDict F) where
  tenant : D → String
  holds : D → Value F → Prop
  holds_tenantClause : ∀ t d, holds d (.dict (tenantClause t).val) ↔ tenant d = t

/-- The document matches the query.  What the conditions of the query hold of is
up to the collection. -/
def Collection.Selects {D : Type} {tenantClause : String → PyDict F}
    (c : Collection F D tenantClause) (dialect : Dialect) (query : Value F) (d : D) : Prop :=
  (readQuery dialect query).Matches (c.holds d)

/-- The document matches the request. -/
def SelectedBy {D : Type} (es : Collection F D ElasticsearchSearchTool.tenantTerm)
    (vectors : Collection F D VectorSearchTool.tenantClause) (call : BackendCall F) (d : D) :
    Prop :=
  match call with
  | .search _ _ body => ∃ query, dictGet body.val "query" = some query ∧
      es.Selects .elasticsearch query d
  | .vectorSearch _ _ _ filter => vectors.Selects .qdrant (.dict filter.val) d
  | _ => False

/-- The filter has only lists of conditions under the three names, or
nothing. -/
def IsFilter (filter : PyDict F) : Prop :=
  ∀ kv ∈ filter.val, kv.1 ∈ clauseNames ∧ (kv.2 = .none ∨ ∃ vs, kv.2 = .list vs)

/-! ## Reading what the tools send -/

/-- The clause under a name is read from what the dictionary has there. -/
theorem readClause_eq (dialect : Dialect) (name : String) (kvs : List (String × Value F)) :
    readClause dialect name kvs =
      match dictGet kvs name with
      | none => []
      | some .none => []
      | some (.list vs) => readQueries dialect vs
      | some v => [readQuery dialect v] := by
  induction kvs with
  | nil => rfl
  | cons kv kvs ih =>
      obtain ⟨key, v⟩ := kv
      by_cases hkey : key = name
      · subst hkey
        cases v <;> simp [readClause, dictGet, List.lookup]
      · have hother : (name == key) = false := by simpa using Ne.symm hkey
        have hget : dictGet ((key, v) :: kvs) name = dictGet kvs name := by
          simp [dictGet, List.lookup, hother]
        rw [hget, ← ih]
        cases v <;> simp [readClause, hkey]

/-- The request of `elasticsearch.search` holds the query of the caller beside
the clause for the tenant. -/
theorem readQuery_tenantQuery (tenant : String) (query : PyDict F) :
    readQuery .elasticsearch (.dict (ElasticsearchSearchTool.tenantQuery tenant query).val) =
      .bool [readQuery .elasticsearch (.dict query.val),
        .leaf (.dict (ElasticsearchSearchTool.tenantTerm (F := F) tenant).val)] [] [] := by
  rfl

/-- The conditions under a name. -/
def conditions (filter : PyDict F) (name : String) : List (Value F) :=
  match dictGet filter.val name with
  | some (.list vs) => vs
  | _ => []

/-- A filter is read clause by clause. -/
theorem readQuery_of_isFilter {filter : PyDict F} (h : IsFilter filter) :
    readQuery .qdrant (.dict filter.val) =
      .bool (readQueries .qdrant (conditions filter "must"))
        (readQueries .qdrant (conditions filter "should"))
        (readQueries .qdrant (conditions filter "must_not")) := by
  have hnames : filter.val.all (fun kv => kv.1 ∈ clauseNames) = true := by
    simpa using fun kv v hkv => (h (kv, v) hkv).1
  have hclause : ∀ name, readClause .qdrant name filter.val =
      readQueries .qdrant (conditions filter name) := by
    intro name
    rw [readClause_eq, conditions]
    cases hget : dictGet filter.val name with
    | none => rfl
    | some v =>
        obtain ⟨before, after, hfilter, -⟩ := List.lookup_eq_some_iff.mp hget
        obtain ⟨-, rfl | ⟨vs, rfl⟩⟩ := h (name, v) (by simp [hfilter])
        · rfl
        · rfl
  simp only [readQuery, hnames, if_true, hclause]

section Combined

variable [PyFloat F]

/-- A clause of a filter that is not empty is the list of its conditions. -/
theorem clauseOf_spec {filter : PyDict F} (h : IsFilter filter) (name : String) :
    (VectorSearchTool.clauseOf filter name = none ∧ conditions filter name = []) ∨
      ∃ v, VectorSearchTool.clauseOf filter name = some v ∧
        v.val = .list (conditions filter name) := by
  have hget := filter.map_get? name
  unfold VectorSearchTool.clauseOf conditions
  cases hv : filter.get? name with
  | none =>
      rw [hv] at hget
      left
      rw [← hget]
      exact ⟨rfl, rfl⟩
  | some v =>
      obtain ⟨w, hw⟩ := v
      have hsome : dictGet filter.val name = some w := by rw [← hget, hv]; rfl
      obtain ⟨before, after, hfilter, -⟩ := List.lookup_eq_some_iff.mp hsome
      rw [hsome]
      obtain ⟨-, hnone | ⟨vs, hvs⟩⟩ := h (name, w) (by simp [hfilter])
      · obtain rfl : w = .none := hnone
        exact Or.inl ⟨rfl, rfl⟩
      · obtain rfl : w = .list vs := hvs
        cases vs with
        | nil => exact Or.inl ⟨rfl, rfl⟩
        | cons x vs => exact Or.inr ⟨_, rfl, rfl⟩

omit [PyFloat F] in
/-- A list set under one of the names is a clause of the filter, beside the
others. -/
theorem isFilter_set {g : PyDict F} (h : IsFilter g) {name : String}
    (hname : name ∈ clauseNames) {v : PyValue F} {vs : List (Value F)} (hv : v.val = .list vs) :
    IsFilter (g.set name v) ∧ conditions (g.set name v) name = vs ∧
      ∀ other, other ≠ name → conditions (g.set name v) other = conditions g other := by
  refine ⟨fun kv hkv => ?_, ?_, fun other hother => ?_⟩
  · rcases mem_dictSet hkv with hold | rfl
    · exact h kv hold
    · exact ⟨hname, Or.inr ⟨vs, hv⟩⟩
  · rw [conditions, PyDict.set, dictGet_dictSet_self, hv]
  · rw [conditions, PyDict.set, dictGet_dictSet_of_ne _ hother]
    rfl

/-- A clause of the caller is taken over where there was none. -/
theorem addClause_spec {filter g : PyDict F} (h : IsFilter filter) (hg : IsFilter g)
    {name : String} (hname : name ∈ clauseNames) (hnone : conditions g name = []) :
    IsFilter (VectorSearchTool.addClause g filter name) ∧
      conditions (VectorSearchTool.addClause g filter name) name = conditions filter name ∧
      ∀ other, other ≠ name →
        conditions (VectorSearchTool.addClause g filter name) other = conditions g other := by
  unfold VectorSearchTool.addClause
  rcases clauseOf_spec h name with ⟨hclause, hempty⟩ | ⟨v, hclause, hv⟩
  · rw [hclause, hempty]
    exact ⟨hg, hnone, fun _ _ => rfl⟩
  · rw [hclause]
    exact isFilter_set hg hname hv

/-- **Merging loses nothing and adds the tenant.**  What `vector.search` makes
of a filter is a filter with the conditions of the caller, clause by clause,
and the clause for the tenant before those that must hold. -/
theorem combined_spec (tenant : String) {filter : PyDict F} (h : IsFilter filter) :
    ∃ g, VectorSearchTool.combined tenant (some filter) = .ok g ∧ IsFilter g ∧
      conditions g "must" =
        .dict (VectorSearchTool.tenantClause tenant).val :: conditions filter "must" ∧
      conditions g "should" = conditions filter "should" ∧
      conditions g "must_not" = conditions filter "must_not" := by
  let clause : PyValue F := .dict (VectorSearchTool.tenantClause tenant)
  let base : PyDict F := .ofPairs [("must", .list [clause])] (by simp)
  have hbase : IsFilter base := by
    intro kv hkv
    obtain rfl : kv = ("must", (PyValue.list [clause]).val) := by
      simpa [base, PyDict.ofPairs] using hkv
    exact ⟨by simp [clauseNames], Or.inr ⟨[clause.val], rfl⟩⟩
  cases hempty : filter.val.isEmpty with
  | true =>
      have hnone : ∀ name, conditions filter name = [] := by
        intro name
        rw [conditions, List.isEmpty_iff.mp hempty]
        rfl
      refine ⟨base, by simp [VectorSearchTool.combined, hempty]; rfl, hbase, ?_, ?_, ?_⟩ <;>
        rw [hnone] <;> rfl
  | false =>
      obtain ⟨must, hmust, hconditions⟩ : ∃ must : List (PyValue F),
          ((VectorSearchTool.clauseOf filter "must").getD (.list [])).iter = .ok must ∧
            must.map Subtype.val = conditions filter "must" := by
        rcases clauseOf_spec h "must" with ⟨hclause, hnone⟩ | ⟨v, hclause, hv⟩
        · exact ⟨[], by rw [hclause]; rfl, hnone.symm⟩
        · obtain ⟨xs, hiter, hxs⟩ := PyValue.iter_of_list hv
          exact ⟨xs, by rw [hclause]; exact hiter, hxs⟩
      obtain ⟨hfirst, hmustFirst, hrestFirst⟩ := isFilter_set hbase
        (show "must" ∈ clauseNames by decide) (show (PyValue.list (clause :: must)).val =
          .list (clause.val :: conditions filter "must") by simp [PyValue.list, ← hconditions])
      obtain ⟨hsecond, hshould, hrestSecond⟩ := addClause_spec h hfirst
        (show "should" ∈ clauseNames by decide) (by rw [hrestFirst _ (by decide)]; rfl)
      obtain ⟨hthird, hmustNot, hrestThird⟩ := addClause_spec h hsecond
        (show "must_not" ∈ clauseNames by decide)
        (by rw [hrestSecond _ (by decide), hrestFirst _ (by decide)]; rfl)
      refine ⟨_, by simp [VectorSearchTool.combined, hempty, hmust]; rfl, hthird, ?_, ?_, hmustNot⟩
      · rw [hrestThird _ (by decide), hrestSecond _ (by decide), hmustFirst]
        rfl
      · rw [hrestThird _ (by decide), hshould]

/-- The filter that is sent asks for the tenant and for what the caller asks
for. -/
theorem combined_selects {D : Type} (vectors : Collection F D VectorSearchTool.tenantClause)
    {tenant : String} {filter : Option (PyDict F)} (h : ∀ f, filter = some f → IsFilter f)
    {g : PyDict F} (hg : VectorSearchTool.combined tenant filter = .ok g) (d : D) :
    vectors.Selects .qdrant (.dict g.val) d ↔ vectors.tenant d = tenant ∧
      ∀ f, filter = some f → vectors.Selects .qdrant (.dict f.val) d := by
  -- the clause for the tenant is a condition of the backend
  have hclause : readQuery .qdrant (.dict (VectorSearchTool.tenantClause (F := F) tenant).val) =
      .leaf (.dict (VectorSearchTool.tenantClause tenant).val) := rfl
  cases filter with
  | none =>
      obtain rfl := Except.ok.inj hg
      have hread : readQuery (F := F) .qdrant
          (.dict [("must", .list [.dict (VectorSearchTool.tenantClause tenant).val])]) =
            .bool [.leaf (.dict (VectorSearchTool.tenantClause tenant).val)] [] [] := rfl
      refine (iff_of_eq (congrArg (Query.Matches (vectors.holds d)) hread)).trans ?_
      simp [Query.matches_must_iff, Query.MatchAll, Query.matches_leaf_iff,
        vectors.holds_tenantClause]
  | some f =>
      obtain ⟨g', hg', hfilter, hmust, hshould, hmustNot⟩ := combined_spec tenant (h f rfl)
      obtain rfl : g' = g := Except.ok.inj (hg'.symm.trans hg)
      simp only [Collection.Selects, readQuery_of_isFilter hfilter, hmust, hshould, hmustNot,
        readQueries, hclause, Query.matches_restrict_iff, Query.matches_leaf_iff,
        vectors.holds_tenantClause, Option.some.injEq, forall_eq',
        readQuery_of_isFilter (h f rfl)]

/-- **A search is confined to its tenant and to nothing more.**  Whatever the
query of the caller, and whatever its filter if that has only lists of
conditions: the request selects, of any documents, those of the tenant that
match the query or the filter. -/
theorem selected_of_tenant {D : Type}
    (es : Collection F D ElasticsearchSearchTool.tenantTerm)
    (vectors : Collection F D VectorSearchTool.tenantClause) (tenant : String) :
    (∀ (input : ElasticsearchSearchInput F) l r,
      Program.Talk (ElasticsearchSearchTool.run tenant input) l r →
        ∃ call answer, l = [⟨call, answer⟩] ∧ ∀ docs : Set D,
          {d ∈ docs | SelectedBy es vectors call d} = {d ∈ docs | es.tenant d = tenant ∧
            es.Selects .elasticsearch (.dict input.query.val) d}) ∧
    ∀ input : VectorSearchInput F, (∀ f, input.filter = some f → IsFilter f) →
      ∀ l r, Program.Talk (VectorSearchTool.run tenant input) l r →
        ∃ call answer, l = [⟨call, answer⟩] ∧ ∀ docs : Set D,
          {d ∈ docs | SelectedBy es vectors call d} = {d ∈ docs | vectors.tenant d = tenant ∧
            ∀ f, input.filter = some f → vectors.Selects .qdrant (.dict f.val) d} := by
  constructor
  · intro input l r htalk
    obtain ⟨answer, rfl, -⟩ := Program.talk_asking_iff.mp htalk
    refine ⟨_, answer, rfl, fun docs => Set.ext fun d => and_congr_right fun _ => ?_⟩
    have hquery : dictGet (ElasticsearchSearchTool.requestBody tenant input).val "query" =
        some (.dict (ElasticsearchSearchTool.tenantQuery tenant input.query).val) := by
      unfold ElasticsearchSearchTool.requestBody
      split
      · have hne : ("query" : String) ≠ "_source" := by decide
        rw [PyDict.set, dictGet_dictSet_of_ne _ hne]
        rfl
      · rfl
    simp only [SelectedBy, hquery, Option.some.injEq, exists_eq_left', Collection.Selects,
      readQuery_tenantQuery, Query.matches_must_iff, Query.MatchAll, Query.matches_leaf_iff,
      es.holds_tenantClause, and_true]
    exact and_comm
  · intro input hinput l r htalk
    rcases Program.talk_bind_iff.mp htalk with ⟨e, hcombined, -⟩ | ⟨g, first, rest, rfl, hg, hask⟩
    · -- a filter of lists can be merged
      obtain ⟨-, herror⟩ := Program.talk_ofExcept_iff.mp hcombined
      cases hfilter : input.filter with
      | none =>
          rw [hfilter] at herror
          cases herror
      | some f =>
          obtain ⟨g, hg, -⟩ := combined_spec tenant (hinput f hfilter)
          rw [hfilter, hg] at herror
          cases herror
    · obtain ⟨rfl, hok⟩ := Program.talk_ofExcept_iff.mp hg
      obtain ⟨answer, rfl, -⟩ := Program.talk_asking_iff.mp hask
      exact ⟨_, answer, rfl, fun docs => Set.ext fun d => and_congr_right fun _ =>
        combined_selects vectors hinput hok.symm d⟩

end Combined

/-- A document with a tenant and other fields, to have something to search
in. -/
structure TaggedDocument where
  owner : String
  fields : List (String × String)
  deriving DecidableEq

/-- Conditions on one field; `tenantField` is the one that holds the owner. -/
def TaggedDocument.has (tenantField : String) (d : TaggedDocument) (field value : String) :
    Prop :=
  if field = tenantField then d.owner = value else d.fields.lookup field = some value

/-- An index of tagged documents. -/
def taggedIndex : Collection WholeFloat TaggedDocument ElasticsearchSearchTool.tenantTerm where
  tenant := TaggedDocument.owner
  holds d v := ∃ field value, v = .dict [("term", .dict [(field, .str value)])] ∧
    d.has "_tenant" field value
  holds_tenantClause t d := by
    constructor
    · rintro ⟨field, value, hv, hd⟩
      obtain ⟨rfl, rfl⟩ : "_tenant" = field ∧ t = value := by
        simpa [ElasticsearchSearchTool.tenantTerm, PyDict.ofPairs, PyValue.dict, PyValue.str]
          using hv
      exact hd
    · exact fun h => ⟨"_tenant", t, rfl, h⟩

/-- A collection of tagged vectors. -/
def taggedVectors : Collection WholeFloat TaggedDocument VectorSearchTool.tenantClause where
  tenant := TaggedDocument.owner
  holds d v := ∃ field value,
    v = .dict [("key", .str field), ("match", .dict [("value", .str value)])] ∧
      d.has "tenant" field value
  holds_tenantClause t d := by
    constructor
    · rintro ⟨field, value, hv, hd⟩
      obtain ⟨rfl, rfl⟩ : "tenant" = field ∧ t = value := by
        simpa [VectorSearchTool.tenantClause, PyDict.ofPairs, PyValue.dict, PyValue.str]
          using hv
      exact hd
    · exact fun h => ⟨"tenant", t, rfl, h⟩

/-- A search for documents in English or French. -/
def languageSearch : VectorSearchInput WholeFloat where
  collection := "docs"
  vector := [⟨1⟩]
  filter := some ⟨[("should", .list
    [.dict [("key", .str "lang"), ("match", .dict [("value", .str "en")])],
      .dict [("key", .str "lang"), ("match", .dict [("value", .str "fr")])]])],
    by simp [Value.Wf, Value.WfMembers, Value.WfItems]⟩

/-- Of the documents of two tenants it selects those of `acme` in one of the
languages. -/
theorem language_search_of_acme :
    ∃ l r, Program.Talk (VectorSearchTool.run "acme" languageSearch) l r ∧
      ∃ call answer, l = [⟨call, answer⟩] ∧
        ∀ docs : Set TaggedDocument, {d ∈ docs | SelectedBy taggedIndex taggedVectors call d} =
          {d ∈ docs | taggedVectors.tenant d = "acme" ∧ ∀ f, languageSearch.filter = some f →
            taggedVectors.Selects .qdrant (.dict f.val) d} := by
  have hfilter : ∀ f, languageSearch.filter = some f → IsFilter f := by
    rintro f hf kv hkv
    obtain rfl := Option.some.inj hf
    obtain rfl := List.mem_singleton.mp hkv
    exact ⟨by simp [clauseNames], Or.inr ⟨_, rfl⟩⟩
  let found : (call : BackendCall WholeFloat) → BackendAnswer WholeFloat call
    | .vectorSearch .. => .ok (.list [])
    | _ => .error .cancelled
  have htalk := Dialogue.talk_play (fun _ => found)
    (ExceptT.run (VectorSearchTool.run "acme" languageSearch))
  exact ⟨_, _, htalk,
    (selected_of_tenant taggedIndex taggedVectors "acme").2 languageSearch hfilter _ _ htalk⟩

end Server
