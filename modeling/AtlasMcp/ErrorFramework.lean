import Mathlib
import AtlasMcp.PyText

/-!
# The structured error recovery framework

Every error an agent sees is a `ToolError`: a code, whether a retry can help, a
hint, and a context for operators.  The subclasses matter in two ways only: some
build their fields from other arguments, and the circuit breaker asks whether an
error is an `UpstreamError`.

`normaliseException` maps any other exception into this vocabulary, and
`asCallToolResult` turns it into the result an MCP handler returns.
-/

namespace Errors

open PyJson PyText

/-- The class of a `ToolError`.  The handlers of the pipeline tell the errors
apart by it. -/
inductive ErrorClass
  | toolError
  | authError
  | policyError
  | validationError
  | rateLimitError
  | upstreamError
  | circuitOpenError
  | timeoutError
  | toolNotFoundError
  | pendingApprovalError
  deriving DecidableEq

/-- An error of a tool, with all that its caller is told of it: a code, whether
it makes sense to try again, and a hint. -/
structure ToolError (F : Type) where
  cls : ErrorClass
  code : String
  retryable : Bool := false
  hint : Option String := none
  context : Option (List (String × Value F)) := none

/-- What a call can end with besides a value: a `ToolError`, the cancellation
of the task, or any other exception, of which the type name is kept. -/
inductive Exc (F : Type)
  | tool (e : ToolError F)
  | cancelled
  | other (typeName : String)

section

variable {F : Type}

/-- A Python `str | None`. -/
def optStr : Option String → Value F
  | some s => .str s
  | none => .none

/-- `exc.hint or ''`. -/
def ToolError.hintText (e : ToolError F) : String := e.hint.getD ""

/-- `f"{exc.code}: {exc.hint or ''}"`. -/
def ToolError.text (e : ToolError F) : String := e.code ++ ": " ++ e.hintText

/-- The error as it goes over the wire. -/
def ToolError.toDict (e : ToolError F) : List (String × Value F) :=
  [("code", .str e.code), ("retryable", .bool e.retryable), ("hint", optStr e.hint),
    ("context", .dict (e.context.getD []))]

/-- The error of a call beyond its quota. -/
def rateLimitError [PyFloat F] (retryAfterSeconds : F) : ToolError F where
  cls := .rateLimitError
  code := "rate_limited"
  retryable := true
  hint := "retry after " ++ PyFloat.fixed1 retryAfterSeconds ++ "s"
  context := some [("retry_after_seconds", .float retryAfterSeconds)]

/-- The error of a call that is rejected by an open breaker. -/
def circuitOpenError [UnicodeDb] (tool : String) (recoverySeconds : ℤ) :
    ToolError F where
  cls := .circuitOpenError
  code := "circuit_open"
  retryable := true
  hint := "tool " ++ pyRepr tool ++ " is temporarily disabled; retry after " ++
    String.ofList (intText recoverySeconds) ++ "s"
  context := some [("tool", .str tool), ("recovery_seconds", .int recoverySeconds)]

/-- The error of a call that took too long. -/
def timeoutError [UnicodeDb] (tool : String) (budgetMs : ℤ) : ToolError F where
  cls := .timeoutError
  code := "timeout"
  retryable := true
  hint := "tool " ++ pyRepr tool ++ " exceeded " ++
    String.ofList (intText budgetMs) ++ "ms budget"
  context := some [("tool", .str tool), ("budget_ms", .int budgetMs)]

/-- The error of a call of a tool that is not there. -/
def toolNotFoundError [UnicodeDb] (name : String) : ToolError F where
  cls := .toolNotFoundError
  code := "tool_not_found"
  retryable := false
  hint := "no tool named " ++ pyRepr name ++ " is registered"
  context := some [("tool", .str name)]

/-- Any exception that is not a `ToolError` becomes an `UpstreamError` that
names its type to operators only. -/
def normaliseException (exc : Exc F) (tool : Option String) : ToolError F :=
  match exc with
  | .tool e => e
  | .cancelled => internalError "CancelledError"
  | .other typeName => internalError typeName
where
  internalError (typeName : String) : ToolError F :=
    { cls := .upstreamError
      code := "internal_error"
      retryable := false
      hint := "an unexpected error occurred; retry or contact an operator"
      context := some (("exception_type", .str typeName) ::
        match tool with
        | some t => if t ≠ "" then [("tool", .str t)] else []
        | none => []) }

/-- An MCP `CallToolResult`; its content is text blocks, and what is structured
goes beside them. -/
structure CallToolResult (F : Type) where
  content : List String
  structuredContent : Option (List (String × Value F))
  isError : Bool

/-- The result of a call that has failed with an error of a tool. -/
def toCallToolError (e : ToolError F) : CallToolResult F :=
  ⟨[e.text], some e.toDict, true⟩

/-- The result of a call that has raised, whatever the exception was. -/
def asCallToolResult (exc : Exc F) (tool : Option String) : CallToolResult F :=
  toCallToolError (normaliseException exc tool)

/-- A `ToolError` reaches the agent as it is. -/
@[simp]
theorem normaliseException_tool (e : ToolError F) (tool : Option String) :
    normaliseException (.tool e) tool = e :=
  rfl

end

section Sequences

variable {ε α β : Type}

/-- A sequence that comes to a result had one in its first part. -/
theorem exists_of_bind_ok {x : Except ε α} {f : α → Except ε β} {b : β}
    (h : x >>= f = .ok b) : ∃ a, x = .ok a ∧ f a = .ok b := by
  cases x with
  | error e => cases h
  | ok a => exact ⟨a, rfl, h⟩

/-- A list that is gone through without an exception gives its results one by
one. -/
theorem forall₂_of_mapM {f : α → Except ε β} {xs : List α} {ys : List β}
    (h : xs.mapM f = .ok ys) : List.Forall₂ (fun x y => f x = .ok y) xs ys := by
  induction xs generalizing ys with
  | nil =>
      obtain rfl : [] = ys := Except.ok.inj h
      exact .nil
  | cons x xs ih =>
      rw [List.mapM_cons] at h
      obtain ⟨y, hy, h⟩ := exists_of_bind_ok h
      obtain ⟨rest, hrest, h⟩ := exists_of_bind_ok h
      obtain rfl : y :: rest = ys := Except.ok.inj h
      exact .cons hy (ih hrest)

end Sequences

end Errors
