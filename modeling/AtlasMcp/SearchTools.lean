import AtlasMcp.Backends

/-!
# The search tools

`elasticsearch.search` wraps the query of the caller, and `vector.search` takes the filter
of the caller apart, to put a clause for the tenant beside it.
-/

namespace Server

open PyJson PyText Errors Dialogues

variable {F : Type}

/-! ## Elasticsearch -/

/-- The arguments of `elasticsearch.search`. -/
structure ElasticsearchSearchInput (F : Type) where
  index : String
  query : PyDict F
  size : ℤ := 20
  fields : Option (List String) := none

namespace ElasticsearchSearchTool

/-- `{"term": {"_tenant": tenant}}`. -/
def tenantTerm (tenant : String) : PyDict F :=
  .ofPairs [("term", .dict (.ofPairs [("_tenant", .str tenant)] (by simp)))] (by simp)

/-- The query of the caller beside the clause for the tenant. -/
def tenantQuery (tenant : String) (query : PyDict F) : PyDict F :=
  .ofPairs [("bool", .dict (.ofPairs
    [("must", .list [.dict query]), ("filter", .list [.dict (tenantTerm tenant)])]
    (by simp)))] (by simp)

/-- The body of the request: the query is wrapped in the one for the tenant,
and the fields are named where there are some. -/
def requestBody (tenant : String) (input : ElasticsearchSearchInput F) : PyDict F :=
  let body : PyDict F := .ofPairs
    [("query", .dict (tenantQuery tenant input.query)), ("size", .int input.size)] (by simp)
  match input.fields with
  | some (field :: fields) => body.set "_source" (.list ((field :: fields).map .str))
  | _ => body

/-- What `run` makes of a failure of the backend. -/
def failed : BackendFailure F → Exc F
  | .upstream e => .tool e
  | .raised _ text status => .tool
      { cls := .upstreamError
        code := "elasticsearch_error"
        retryable := match status with
          | .int n => n ∈ [408, 429, 500, 502, 503, 504]
          | _ => false
        hint := if text = "" then "elasticsearch query failed" else hintOf text
        context := some [("status", status)] }
  | .cancelled => .cancelled

/-- One hit. -/
def hitOf (h : PyValue F) : Except (Exc F) (PyValue F) := do
  let id ← h.get "_id" .none
  let score ← h.get "_score" .none
  let source ← h.get "_source" (.dict (.ofPairs [] (by simp)))
  return .dict (.ofPairs [("id", id), ("score", score), ("source", source)] (by simp))

/-- What the tool returns of the answer: the hits, each in its short form, and
how many there were. -/
def resultOf (resp : PyDict F) : Except (Exc F) (PyDict F) := do
  let outer := (resp.get? "hits").getD (.dict (.ofPairs [] (by simp)))
  let hits ← outer.get "hits" (.list [])
  let total ← outer.get "total" (.dict (.ofPairs [] (by simp)))
  let count := match total.asDict? with
    | some d => (d.get? "value").getD .none
    | none => total
  let shown ← (← hits.iter).mapM hitOf
  return .ofPairs
    [("total", count), ("took_ms", (resp.get? "took").getD .none), ("hits", .list shown)]
    (by simp)

/-- `ElasticsearchSearchTool.run`. -/
def run (tenant : String) (input : ElasticsearchSearchInput F) : ToolProgram F (PyDict F) :=
  .asking (.search tenant input.index (requestBody tenant input)) fun
    | .ok resp => resultOf resp
    | .error failure => .error (failed failure)

end ElasticsearchSearchTool

/-! ## Vectors -/

/-- The arguments of `vector.search`. -/
structure VectorSearchInput (F : Type) where
  collection : String
  vector : List F
  topK : ℤ := 10
  filter : Option (PyDict F) := none

namespace VectorSearchTool

/-- `{"key": "tenant", "match": {"value": tenant}}`. -/
def tenantClause (tenant : String) : PyDict F :=
  .ofPairs [("key", .str "tenant"), ("match", .dict (.ofPairs [("value", .str tenant)] (by simp)))]
    (by simp)

/-- What `run` makes of a failure of the backend. -/
def failed : BackendFailure F → Exc F
  | .upstream e => .tool e
  | .raised _ text _ => .tool
      { cls := .upstreamError
        code := "vector_error"
        retryable := true
        hint := if text = "" then "vector search failed" else hintOf text }
  | .cancelled => .cancelled

section Filters

variable [PyFloat F]

/-- The clause of the filter under a name, if it is there and not empty. -/
def clauseOf (filter : PyDict F) (name : String) : Option (PyValue F) :=
  (filter.get? name).filter fun v => v.val.truthy

/-- `if filter.get(name): combined[name] = filter[name]`. -/
def addClause (combined filter : PyDict F) (name : String) : PyDict F :=
  match clauseOf filter name with
  | some clause => combined.set name clause
  | none => combined

/-- The filter of the caller with the clause for the tenant before its
others. -/
def combined (tenant : String) (filter : Option (PyDict F)) : Except (Exc F) (PyDict F) := do
  let base : PyDict F := .ofPairs [("must", .list [.dict (tenantClause tenant)])] (by simp)
  match filter with
  | none => return base
  | some f =>
      if f.val.isEmpty then return base
      let must ← ((clauseOf f "must").getD (.list [])).iter
      let base := base.set "must" (.list (.dict (tenantClause tenant) :: must))
      return addClause (addClause base f "should") f "must_not"

/-- One match. -/
def matchOf (m : PyValue F) : Except (Exc F) (PyValue F) := do
  let id ← m.get "id" .none
  let score ← m.get "score" .none
  let payload ← m.get "payload" .none
  return .dict (.ofPairs
    [("id", id), ("score", score),
      ("payload", payload.orElse (.dict (.ofPairs [] (by simp))))] (by simp))

/-- What the tool returns of the answer: the matches, each in its short
form. -/
def resultOf (found : PyValue F) : Except (Exc F) (PyDict F) := do
  let shown ← (← found.iter).mapM matchOf
  return .ofPairs [("matches", .list shown)] (by simp)

/-- `VectorSearchTool.run`. -/
def run (tenant : String) (input : VectorSearchInput F) : ToolProgram F (PyDict F) := do
  let filter ← .ofExcept (combined tenant input.filter)
  .asking (.vectorSearch input.collection input.vector input.topK filter) fun
    | .ok found => resultOf found
    | .error failure => .error (failed failure)

end Filters

end VectorSearchTool

end Server
