import AtlasMcp.Gatherings
import AtlasMcp.PostgresQuery
import AtlasMcp.SearchTools

/-!
# The composed search tools

`semantic_search` embeds its query, searches the vectors, and looks the documents up in
Postgres if it is asked to.  `hybrid_search` searches Elasticsearch and embeds its query at
once, and then searches the vectors.  Both call the other tools past the pipeline, on inputs
they build for them.

The ranks by which `hybrid_search` fuses what it has found are floats; what it makes of the
two results is a parameter.

None of these tools returns when a call of a backend has failed (`heeds_run`,
`answered_of_ran`).
-/

namespace Server

open PyJson PyText Errors Dialogues

variable {F : Type}

/-- The call has not failed: the backend has given the reply that the call asks
for. -/
def Answered (x : Exchange (BackendCall F) (BackendAnswer F)) : Prop := ∃ reply, x.2 = .ok reply

/-- `elasticsearch.search` succeeds only if its call was answered. -/
theorem ElasticsearchSearchTool.heeds_run (tenant : String) (input : ElasticsearchSearchInput F) :
    Program.Heeds Answered (ElasticsearchSearchTool.run tenant input) := by
  apply Program.heeds_asking
  intro answer result h
  cases answer with
  | ok resp => exact ⟨resp, rfl⟩
  | error failure => cases h

/-- `vector.search` succeeds only if its call was answered. -/
theorem VectorSearchTool.heeds_run [PyFloat F] (tenant : String) (input : VectorSearchInput F) :
    Program.Heeds Answered (VectorSearchTool.run tenant input) := by
  refine (Program.heeds_ofExcept _).bind fun filter => Program.heeds_asking ?_
  intro answer result h
  cases answer with
  | ok found => exact ⟨found, rfl⟩
  | error failure => cases h

/-- `postgres.query` succeeds only if its call was answered. -/
theorem PostgresQueryTool.heeds_run [UnicodeDb] (tenant : String) (input : PostgresQueryInput F) :
    Program.Heeds Answered (PostgresQueryTool.run tenant input) := by
  apply Program.heeds_asking
  intro answer result h
  cases answer with
  | ok rows => exact ⟨rows, rfl⟩
  | error failure => cases h

/-- An input that one tool builds for another. -/
def PostgresQueryInput.build [UnicodeDb] (sql : String) (params : List (Value F)) (maxRows : ℤ) :
    Except (Exc F) (PostgresQueryInput F) :=
  match SelectGuard.mustBeSelect sql with
  | .ok sql =>
      if 1 ≤ maxRows ∧ maxRows ≤ 1000 then .ok { sql, params, maxRows }
      else .error (.other "ValidationError")
  | .error _ => .error (.other "ValidationError")

/-- The model of the search, whose bounds are checked when it is built. -/
def VectorSearchInput.build (collection : String) (vector : List F) (topK : ℤ) :
    Except (Exc F) (VectorSearchInput F) :=
  if vector ≠ [] ∧ 1 ≤ topK ∧ topK ≤ 100 then .ok { collection, vector, topK }
  else .error (.other "ValidationError")

/-- `vectors[0]`. -/
def firstVector : List (List F) → Except (Exc F) (List F)
  | [] => .error (.other "IndexError")
  | vector :: _ => .ok vector

/-- A failure of the embedder is not handled. -/
def unhandled : BackendFailure F → Exc F
  | .upstream e => .tool e
  | .raised typeName _ _ => .other typeName
  | .cancelled => .cancelled

/-- `await self.embedder.embed([query])`. -/
def embedded (query : String) : ToolProgram F (List (List F)) :=
  .asking (.embed [query]) fun
    | .ok vectors => .ok vectors
    | .error failure => .error (unhandled failure)

/-- The embedder succeeds only if its call was answered. -/
theorem heeds_embedded (query : String) :
    Program.Heeds Answered (embedded (F := F) query) := by
  apply Program.heeds_asking
  intro answer result h
  cases answer with
  | ok vectors => exact ⟨vectors, rfl⟩
  | error failure => cases h

/-! ## Semantic search -/

/-- The arguments of `semantic_search`: what is searched for and where, and
whether the documents are looked up as well. -/
structure SemanticSearchInput where
  query : String
  collection : String
  topK : ℤ := 5
  hydrateFromPostgres : Bool := true

namespace SemanticSearchTool

/-- `v[:n]`. -/
def sliceTo (v : PyValue F) (n : ℕ) : Except (Exc F) (PyValue F) :=
  match v.val with
  | .str s => .ok (.str (String.ofList (s.toList.take n)))
  | .list _ => do
      let xs ← v.iter
      return .list (xs.take n)
  | _ => .error (.other "TypeError")

/-- `{k: v for k, v in payload.items() if k != "text"}`. -/
def metadataOf (payload : PyValue F) : Except (Exc F) (PyValue F) :=
  match payload.asDict? with
  | some members => .ok (.dict (members.without "text"))
  | none => .error (.other "AttributeError")

section Results

variable [PyFloat F]

/-- A match with the first characters of its text. -/
def previewOf (m : PyValue F) : Except (Exc F) (PyValue F) := do
  let id ← m.item "id"
  let score ← m.item "score"
  let payload ← m.item "payload"
  let text ← payload.get "text" .none
  let preview ← sliceTo (text.orElse (.str "")) 300
  let metadata ← metadataOf payload
  return .dict (.ofPairs
    [("id", id), ("score", score), ("preview", preview), ("metadata", metadata)] (by simp))

variable [UnicodeDb]

/-- `str(v["id"])`. -/
def idText (v : PyValue F) : Except (Exc F) String := do
  let id ← v.item "id"
  return pyStrValue id.val

/-- The rows by their ids; a later row takes the place of an earlier one. -/
def byId (rows : List (PyValue F)) : Except (Exc F) (List (String × PyValue F)) :=
  rows.foldlM (fun found row => do return dictSet found (← idText row) row) []

/-- A match with the document that was found for it. -/
def hydratedOf (docs : List (String × PyValue F)) (m : PyValue F) :
    Except (Exc F) (PyValue F) := do
  let doc := (docs.lookup (← idText m)).getD (.dict (.ofPairs [] List.nodup_nil))
  let id ← m.item "id"
  let score ← m.item "score"
  let title ← doc.get "title" .none
  let body ← doc.get "body" .none
  let url ← doc.get "url" .none
  let metadata ← metadataOf (← m.item "payload")
  return .dict (.ofPairs
    [("id", id), ("score", score), ("title", title), ("body", body), ("url", url),
      ("metadata", metadata)] (by simp))

/-- What is returned. -/
def resultOf (query : String) (results : List (PyValue F)) : PyDict F :=
  .ofPairs [("query", .str query), ("results", .list results)] (by simp)

/-- The documents of the matches are fetched. -/
def hydrated (tenant : String) (input : SemanticSearchInput) (found : List (PyValue F)) :
    ToolProgram F (PyDict F) := do
  let ids ← .ofExcept (found.mapM idText)
  let query ← .ofExcept (PostgresQueryInput.build
    "SELECT id, title, body, url FROM documents WHERE id = ANY($1::text[])"
    [.list (ids.map .str)] input.topK)
  let fetched ← PostgresQueryTool.run tenant query
  .ofExcept do
    let rows ← (PyValue.dict fetched).item "rows"
    let docs ← byId (← rows.iter)
    return resultOf input.query (← found.mapM (hydratedOf docs))

/-- `SemanticSearchTool.run`. -/
def run (tenant : String) (input : SemanticSearchInput) : ToolProgram F (PyDict F) := do
  let vectors ← embedded input.query
  let vector ← .ofExcept (firstVector vectors)
  let search ← .ofExcept (VectorSearchInput.build input.collection vector input.topK)
  let searched ← VectorSearchTool.run tenant search
  let found ← .ofExcept do (← (PyValue.dict searched).item "matches").iter
  if found.isEmpty then return resultOf input.query []
  else if input.hydrateFromPostgres then hydrated tenant input found
  else .ofExcept do return resultOf input.query (← found.mapM previewOf)

/-- The documents are added only if their query was answered. -/
theorem heeds_hydrated (tenant : String) (input : SemanticSearchInput)
    (found : List (PyValue F)) : Program.Heeds Answered (hydrated tenant input found) := by
  refine (Program.heeds_ofExcept _).bind fun ids => ?_
  refine (Program.heeds_ofExcept _).bind fun query => ?_
  exact (PostgresQueryTool.heeds_run tenant query).bind fun fetched => Program.heeds_ofExcept _

/-- `semantic_search` succeeds only if all its calls were answered. -/
theorem heeds_run (tenant : String) (input : SemanticSearchInput) :
    Program.Heeds Answered (run (F := F) tenant input) := by
  refine (heeds_embedded input.query).bind fun vectors => ?_
  refine (Program.heeds_ofExcept _).bind fun vector => ?_
  refine (Program.heeds_ofExcept _).bind fun search => ?_
  refine (VectorSearchTool.heeds_run tenant search).bind fun searched => ?_
  refine (Program.heeds_ofExcept _).bind fun found => ?_
  split
  · exact Program.heeds_pure _
  · split
    · exact heeds_hydrated tenant input found
    · exact Program.heeds_ofExcept _

end Results

end SemanticSearchTool

/-! ## Hybrid search -/

/-- The arguments of `hybrid_search`: what is searched for, where in each of the
two backends, and by which constant the ranks are damped. -/
structure HybridSearchInput where
  query : String
  esIndex : String
  vectorCollection : String
  topK : ℤ := 10
  rrfK : ℤ := 60

namespace HybridSearchTool

/-- The search of Elasticsearch for the query. -/
def lexicalInput (input : HybridSearchInput) : ElasticsearchSearchInput F where
  index := input.esIndex
  query := .ofPairs [("multi_match", .dict (.ofPairs
    [("query", .str input.query), ("fields", .list [.str "title^2", .str "body"])]
    (by simp)))] (by simp)
  size := input.topK * 2

variable [PyFloat F]

/-- After both have returned: the search of the vectors, and the fusion. -/
def dense (fuse : HybridSearchInput → PyDict F → PyDict F → Except (Exc F) (PyDict F))
    (tenant : String) (input : HybridSearchInput) (found : PyDict F × List (List F)) :
    ToolProgram F (PyDict F) := do
  let vector ← .ofExcept (firstVector found.2)
  let search ← .ofExcept (VectorSearchInput.build input.vectorCollection vector (input.topK * 2))
  let searched ← VectorSearchTool.run tenant search
  .ofExcept (fuse input found.1 searched)

/-- `HybridSearchTool.run`: it can have these exchanges and end like this. -/
def Ran (fuse : HybridSearchInput → PyDict F → PyDict F → Except (Exc F) (PyDict F))
    (tenant : String) (input : HybridSearchInput)
    (l : List (Exchange (BackendCall F) (BackendAnswer F))) (r : Except (Exc F) (PyDict F)) :
    Prop :=
  let gathered := Program.Joined (ElasticsearchSearchTool.run tenant (lexicalInput input))
    (embedded input.query)
  (∃ e, gathered l (.error e) ∧ r = .error e) ∨
    ∃ found first rest, l = first ++ rest ∧ gathered first (.ok found) ∧
      Program.Talk (dense fuse tenant input found) rest r

/-- If `hybrid_search` succeeds, all its calls were answered. -/
theorem answered_of_ran
    {fuse : HybridSearchInput → PyDict F → PyDict F → Except (Exc F) (PyDict F)}
    {tenant : String} {input : HybridSearchInput}
    {l : List (Exchange (BackendCall F) (BackendAnswer F))} {result : PyDict F}
    (h : Ran fuse tenant input l (.ok result)) : ∀ x ∈ l, Answered x := by
  rcases h with ⟨e, -, hr⟩ | ⟨found, first, rest, rfl, hgathered, hdense⟩
  · cases hr
  · have hfirst := (ElasticsearchSearchTool.heeds_run tenant (lexicalInput input)).joined
      (heeds_embedded input.query) hgathered
    have hheeds : Program.Heeds Answered (dense fuse tenant input found) := by
      refine (Program.heeds_ofExcept _).bind fun vector => ?_
      refine (Program.heeds_ofExcept _).bind fun search => ?_
      exact (VectorSearchTool.heeds_run tenant search).bind fun searched =>
        Program.heeds_ofExcept _
    exact List.forall_mem_append.mpr ⟨hfirst, hheeds rest result hdense⟩

end HybridSearchTool

end Server
