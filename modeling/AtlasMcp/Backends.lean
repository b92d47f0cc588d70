import AtlasMcp.Dialogues
import AtlasMcp.PyValues

/-!
# Calls of the backends

What the tools ask of the systems behind them: rows of Postgres, documents of
Elasticsearch, the nearest vectors, and the vectors of texts.  Each call ends with an
answer or fails; which, is up to the backend.

A tool is a `ToolProgram`: its calls in their order, and the result or exception it makes
of the answers.
-/

namespace Server

open PyJson Errors Dialogues

variable {F : Type}

/-- How a call of a backend fails: with an `UpstreamError`, with any other
exception, of which the type, the text and an error number are kept, or by
being cancelled. -/
inductive BackendFailure (F : Type)
  | upstream (e : ToolError F)
  | raised (typeName text : String) (number : Value F)
  | cancelled

/-- What the tools ask of the backends, with all that they send: Postgres for
rows, Elasticsearch and the vectors for documents, and the embedder for vectors
of texts. -/
inductive BackendCall (F : Type)
  | fetch (tenant sql : String) (params : List (Value F)) (maxRows : ℤ)
  | search (tenant index : String) (body : PyDict F)
  | vectorSearch (collection : String) (vector : List F) (topK : ℤ) (filter : PyDict F)
  | embed (texts : List String)

/-- What a call is answered with when it does not fail. -/
def BackendCall.Reply : BackendCall F → Type
  | .fetch .. => List (PyDict F)
  | .search .. => PyDict F
  | .vectorSearch .. => PyValue F
  | .embed .. => List (List F)

/-- A backend answers a call, or fails. -/
abbrev BackendAnswer (F : Type) (call : BackendCall F) : Type :=
  Except (BackendFailure F) call.Reply

/-- The code of a tool. -/
abbrev ToolProgram (F α : Type) : Type := Program (BackendCall F) (BackendAnswer F) (Exc F) α

/-- `str(exc)[:200]`. -/
def hintOf (text : String) : String := String.ofList (text.toList.take 200)

end Server
