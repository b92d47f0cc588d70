import Mathlib
import AtlasMcp.ErrorFramework
import AtlasMcp.JsonRoundTrip

/-!
# From the server's handler to the agent's client

A tool call ends on the server with a dictionary or with an exception.  The MCP
handler returns the dictionary, or the error as a `CallToolResult` with
`isError`; the MCP SDK sends either as the `result` member of the response
(`SdkResponse`).  The agent's client knows errors only as the `error` member of
a response: it reads `result` without looking at `isError`
(`callTool_of_content`).

`decoded_iff_returned` settles which calls survive the trip.
-/

namespace AgentWire

open PyJson PyText Errors

variable {F : Type} [PyFloat F]

/-! ## The client -/

/-- What the client gives the agent: either the value of a call that has
succeeded, or the code and the hint of an error. -/
structure ToolResult (F : Type) where
  ok : Bool
  value : Value F := .none
  errorCode : Value F := .none
  retryable : Bool := false
  hint : Value F := .none

/-- The `error` member of a response, as the client raises it.  Its members are
whatever the server has sent. -/
structure MCPError (F : Type) where
  code : Value F
  message : Value F
  data : Value F

/-- `v.get(key)` of a value that should be a dictionary. -/
def Value.get? (v : Value F) (key : String) : Except String (Value F) :=
  match v with
  | .dict kvs => .ok ((dictGet kvs key).getD .none)
  | _ => .error "AttributeError"

/-- `_rpc` on a response body: the `result` member, or the `error` member as
an `MCPError`. -/
def rpc (body : List (String × Value F)) :
    Except String (Value F ⊕ MCPError F) :=
  match dictGet body "error" with
  | some (.dict err) =>
      .ok (.inr
        { code := (dictGet err "code").getD (.int (-32000))
          message := (dictGet err "message").getD (.str "")
          data := (dictGet err "data").getD .none })
  | some _ => .error "AttributeError"
  | none => .ok (.inl ((dictGet body "result").getD (.dict [])))

/-- `a or b`. -/
def Value.orElse (a b : Value F) : Value F := if a.truthy then a else b

/-- `content[0]` of a true value that should be a list. -/
def firstBlock : Value F → Except String (Value F)
  | .list (block :: _) => .ok block
  | .list [] => .error "IndexError"
  | .str s => .ok (.str (String.ofList (s.toList.take 1)))
  | .dict _ => .error "KeyError"
  | _ => .error "TypeError"

/-- `json.loads(text)` with the text itself when it is no JSON. -/
def loadsOrText (text : Value F) : Except String (Value F) :=
  match text with
  | .str s => .ok ((loads s).getD (.str s))
  | _ => .error "TypeError"

/-- `AtlasMCPClient.call_tool` on a response body. -/
def callTool [UnicodeDb] (body : List (String × Value F)) :
    Except String (ToolResult F) := do
  match ← rpc body with
  | .inr exc =>
      let data := Value.orElse exc.data (.dict [])
      return { ok := false
               errorCode :=
                 Value.orElse (← Value.get? data "code") (.str (pyStrValue exc.code))
               retryable := (← Value.get? data "retryable").truthy
               hint := Value.orElse (← Value.get? data "hint") exc.message }
  | .inl resp =>
      let content := Value.orElse (← Value.get? resp "content") (.list [])
      if content.truthy then
        let block ← firstBlock content
        match ← Value.get? block "type" with
        | .str "text" => match block with
          | .dict kvs => match dictGet kvs "text" with
            | some text => return { ok := true, value := ← loadsOrText text }
            | none => .error "KeyError"
          | _ => .error "TypeError"
        | _ => return { ok := true, value := resp }
      else return { ok := true, value := resp }

/-! ## The server and the SDK -/

/-- What the MCP handler returns to the SDK: the dictionary that a dispatch has
returned, or the result that an exception was turned into. -/
inductive HandlerResult (F : Type)
  | dict (d : List (String × Value F))
  | callToolResult (r : CallToolResult F)

/-- The server's `call_tool` handler, for a dispatch that ended in `outcome`.
A cancellation is no `Exception` and passes through. -/
def handler (name : String) (outcome : Except (Exc F) (List (String × Value F))) :
    Except (Exc F) (HandlerResult F) :=
  match outcome with
  | .ok d => .ok (.dict d)
  | .error .cancelled => .error .cancelled
  | .error exc => .ok (.callToolResult (asCallToolResult exc (some name)))

/-- A text block of a result. -/
def textBlock (text : String) : Value F :=
  .dict [("type", .str "text"), ("text", .str text)]

/-- The result as it goes over the wire: the texts, the structure, and whether
it is an error. -/
def CallToolResult.toDict (r : CallToolResult F) : List (String × Value F) :=
  [("content", .list (r.content.map textBlock)),
    ("structuredContent", (r.structuredContent.map Value.dict).getD .none),
    ("isError", .bool r.isError)]

/-- A JSON-RPC response with a result. -/
def response (id : Value F) (r : CallToolResult F) : List (String × Value F) :=
  [("jsonrpc", .str "2.0"), ("id", id), ("result", .dict (CallToolResult.toDict r))]

/-- The responses the MCP SDK sends for what the handler returned: a
`CallToolResult` unchanged, a dictionary as one text block that holds one of
its JSON texts. -/
inductive SdkResponse (id : Value F) :
    HandlerResult F → List (String × Value F) → Prop
  | result (r : CallToolResult F) : SdkResponse id (.callToolResult r) (response id r)
  | dict (d : List (String × Value F)) (text : String)
      (structured : Option (List (String × Value F)))
      (htext : IsTextOf (.dict d) text) :
      SdkResponse id (.dict d) (response id ⟨[text], structured, false⟩)

/-- What the client should make of a call that ended in `outcome`. -/
def expected : Except (ToolError F) (List (String × Value F)) → ToolResult F
  | .ok d => { ok := true, value := .dict d }
  | .error e =>
      { ok := false, errorCode := .str e.code, retryable := e.retryable,
        hint := optStr e.hint }

/-! ## The trip -/

/-- The client takes the first text block of a result as a success, whatever
`isError` says. -/
theorem callTool_of_content [UnicodeDb] (id : Value F) (text : String)
    (texts : List String) (structured : Option (List (String × Value F)))
    (isError : Bool) :
    callTool (response id ⟨text :: texts, structured, isError⟩) =
      .ok { ok := true, value := (loads text).getD (.str text) } :=
  rfl

/-- So a `ToolError` sent as a result arrives as a success, with its text as
the value. -/
theorem callTool_asCallToolResult [UnicodeDb] (id : Value F) (e : ToolError F)
    (tool : Option String) :
    callTool (response id (asCallToolResult (.tool e) tool)) =
      .ok { ok := true, value := (loads e.text).getD (.str e.text) } := by
  rw [asCallToolResult, normaliseException_tool, toCallToolError]
  exact callTool_of_content id e.text [] _ true

/-- **Which calls survive the trip.**  Every response to a call is decoded to
what the call ended with if and only if the call ended with a dictionary: a
result always survives, a `ToolError` never does. -/
theorem decoded_iff_returned [UnicodeDb] (name : String) (id : Value F)
    (outcome : Except (ToolError F) (List (String × Value F))) :
    (∀ result body, handler name (outcome.mapError Exc.tool) = .ok result →
      SdkResponse id result body → callTool body = .ok (expected outcome)) ↔
      ∃ d, outcome = .ok d := by
  cases outcome with
  | error e =>
      constructor
      · intro h
        have hdecoded := h _ _ rfl (.result (asCallToolResult (.tool e) (some name)))
        rw [callTool_asCallToolResult] at hdecoded
        cases hdecoded
      · intro h
        obtain ⟨d, hd⟩ := h
        cases hd
  | ok d =>
      refine ⟨fun _ => ⟨d, rfl⟩, fun _ => ?_⟩
      intro result body hresult hbody
      cases hresult
      cases hbody with
      | dict _ text structured htext =>
          rw [callTool_of_content, loads_of_text htext]
          rfl

/-- A backend error that asks the agent to try again. -/
def slowBackend : ToolError WholeFloat where
  cls := .upstreamError
  code := "upstream_error"
  retryable := true
  hint := some "try later"

/-- The agent is told that the failed call succeeded. -/
theorem slowBackend_arrives_as_success :
    ¬ ∀ result body,
      handler "postgres.query" (.error (Exc.tool slowBackend)) = .ok result →
      SdkResponse .none result body →
      callTool body = .ok (expected (.error slowBackend)) := by
  intro h
  have hdecoded := h _ _ rfl (.result (asCallToolResult (.tool slowBackend) _))
  rw [callTool_asCallToolResult] at hdecoded
  cases hdecoded

end AgentWire
