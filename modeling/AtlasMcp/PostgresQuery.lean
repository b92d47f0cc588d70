import AtlasMcp.Backends
import AtlasMcp.DispatchRuns
import AtlasMcp.SelectGuard

/-!
# The Postgres query tool

`postgres.query` hands one guarded statement to its backend and returns the rows.  The
input schema is the validation library's; of it the pipeline relies on the fields of the
model and on the guard of the statement, `mustBeSelect`.
-/

namespace Server

open PyJson PyText Errors Tools Auth Dialogues

variable {F : Type}

/-- The characters at which `str.splitlines` ends a line. -/
def isLineEnd (c : Char) : Bool :=
  c.toNat ∈ [0x0a, 0x0b, 0x0c, 0x0d, 0x1c, 0x1d, 0x1e, 0x85, 0x2028, 0x2029]

/-- The validated arguments. -/
structure PostgresQueryInput (F : Type) where
  sql : String
  params : List (Value F) := []
  maxRows : ℤ := 100

/-- The arguments as they are dumped. -/
def PostgresQueryInput.dump (input : PostgresQueryInput F) : List (String × Value F) :=
  [("sql", .str input.sql), ("params", .list input.params), ("max_rows", .int input.maxRows)]

/-- Of the schema: the model has these fields, and its statement is the one
the guard makes of the argument. -/
structure PostgresQueryTool (F : Type) [UnicodeDb] where
  inputSchema : List (String × Value F) → Except (Rejection F) (BaseModel F)
  accepts : ∀ arguments args, inputSchema arguments = .ok args →
    ∃ (sql : String) (input : PostgresQueryInput F), dictGet arguments "sql" = some (.str sql) ∧
      SelectGuard.mustBeSelect sql = .ok input.sql ∧ args.dump = input.dump

namespace PostgresQueryTool

variable [UnicodeDb]

/-- `postgres.query` as it is registered: its results are cached for half a
minute. -/
def tool (query : PostgresQueryTool F) : Tool F where
  metadata :=
    { name := "postgres.query"
      scopesRequired := ["tool:postgres:read"]
      destructive := false
      cacheable := true
      cacheTtlSeconds := 30 }
  inputSchema := query.inputSchema

/-- The errors of the driver after which it makes sense to try again. -/
def isTransient (typeName : String) : Bool :=
  typeName ∈ ["ConnectionDoesNotExistError", "InterfaceError", "TooManyConnectionsError",
    "ConnectionFailureError"]

/-- What `run` makes of a failure of the backend. -/
def failed : BackendFailure F → Exc F
  | .upstream e => .tool e
  | .raised typeName text sqlstate => .tool
      { cls := .upstreamError
        code := "postgres_error"
        retryable := isTransient typeName
        hint := if text = "" then "postgres query failed"
          else hintOf (String.ofList (text.toList.takeWhile (!isLineEnd ·)))
        context := some [("sqlstate", sqlstate)] }
  | .cancelled => .cancelled

/-- The rows with their columns, as the first row has them. -/
def resultOf (maxRows : ℤ) (rows : List (PyDict F)) : PyDict F :=
  .ofPairs
    [("columns", .list (match rows with
        | [] => []
        | row :: _ => row.val.map fun column => .str column.1)),
      ("rows", .list (rows.map .dict)), ("row_count", .int rows.length),
      ("truncated", .bool (maxRows ≤ rows.length))] (by simp)

/-- `PostgresQueryTool.run`. -/
def run (tenant : String) (input : PostgresQueryInput F) : ToolProgram F (PyDict F) :=
  .asking (.fetch tenant input.sql input.params input.maxRows) fun
    | .ok rows => .ok (resultOf input.maxRows rows)
    | .error failure => .error (failed failure)

end PostgresQueryTool

end Server
