import AtlasMcp.DispatchCounts
import AtlasMcp.Utf8

/-!
# The object store

`s3.get_object` reads the first bytes of an object, and `s3.put_object` writes one.  All
objects lie in one bucket, under keys that begin with the tenant.

A `Session` is a server over a store that answers a read with the first bytes of what was
written last under the key.  Its dispatches come one after the other: one arrives only
when none is in flight.  A put that fails, or is cut off, may have reached the store.
-/

namespace Server

open PyJson PyText Errors Tools Auth Governance RateLimit Reliability Cache FallibleState

variable {F : Type}

/-- `_tenant_key`. -/
def tenantKey (tenant key : String) : String :=
  tenant ++ "/" ++ String.ofList (key.toList.dropWhile (· = '/'))

/-- What a call of the store raises: an `UpstreamError`, or any other
exception, of which the error code of its response and the text are kept. -/
inductive StoreFailure (F : Type)
  | upstream (e : ToolError F)
  | raised (code : Option String) (text : String)

section Errors

variable [UnicodeDb]

/-- How an error of S3 is mapped: an object that does not exist is not to be
asked for again, and anything else may be. -/
def mapS3Error (code : Option String) (text key : String) : ToolError F :=
  if code = "NoSuchKey" then
    { cls := .upstreamError
      code := "not_found"
      retryable := false
      hint := "s3 key " ++ pyRepr key ++ " does not exist" }
  else
    let hint := String.ofList (text.toList.take 200)
    { cls := .upstreamError
      code := "s3_error"
      retryable := code = "InternalError" ∨ code = "SlowDown"
      hint := if hint = "" then "s3 operation failed" else hint
      context := some [("s3_code", optStr code)] }

/-- The error that the tool raises for a failure of the store. -/
def StoreFailure.exc (key : String) : StoreFailure F → Exc F
  | .upstream e => .tool e
  | .raised code text => .tool (mapS3Error code text key)

end Errors

/-- A text without the white space around it. -/
def stripText (s : String) : String := String.ofList (strip s.toList)

/-- The input schemas are the validation library's.  Of a put it takes a text
as content, and strips the white space around it. -/
structure S3Tools (F : Type) where
  getInput : List (String × Value F) → Except (Rejection F) (BaseModel F)
  putInput : List (String × Value F) → Except (Rejection F) (BaseModel F)
  put_content : ∀ arguments args, putInput arguments = .ok args →
    ∃ content stripped, dictGet arguments "content" = some (.str content) ∧
      args.getattr "content" = .str stripped ∧ (stripText content = content → stripped = content)

namespace S3Tools

/-- `s3.get_object` as it is registered: its results are cached for five
minutes. -/
def getTool (tools : S3Tools F) : Tool F where
  metadata :=
    { name := "s3.get_object"
      scopesRequired := ["tool:s3:read"]
      cacheable := true
      cacheTtlSeconds := 300 }
  inputSchema := tools.getInput

/-- `s3.put_object` as it is registered: destructive, and not cached. -/
def putTool (tools : S3Tools F) : Tool F where
  metadata :=
    { name := "s3.put_object"
      scopesRequired := ["tool:s3:write"]
      destructive := true
      cacheable := false }
  inputSchema := tools.putInput

end S3Tools

section Runs

variable [PyFloat F] [UnicodeDb]

/-- A field of the model that holds a text. -/
def textField (args : BaseModel F) (name : String) : String := pyStrValue (args.getattr name)

/-- How many bytes of the object are read. -/
def maxBytes (args : BaseModel F) : ℕ :=
  match args.getattr "max_bytes" with
  | .int n => n.toNat
  | _ => 0

namespace S3GetTool

/-- What the tool returns of an object: its bytes as a text, with a sign in
the place of those that are none. -/
def resultOf (key : String) (body : List ℕ) : ToolResult F :=
  ⟨[("key", .str key), ("size_bytes", .int body.length),
    ("content", .str (Utf8.decodeReplace body))], by simp [Value.Wf, Value.WfMembers]⟩

/-- `S3GetTool.run`, with what the store answers. -/
def run (args : BaseModel F) (answer : Except (StoreFailure F) (List ℕ)) :
    Except (Exc F) (ToolResult F) :=
  match answer with
  | .ok body => .ok (resultOf (textField args "key") body)
  | .error failure => .error (failure.exc (textField args "key"))

end S3GetTool

namespace S3PutTool

/-- The bytes that are stored. -/
def payload (args : BaseModel F) : List ℕ := utf8 (textField args "content")

/-- `S3PutTool.run`, with what the store answers. -/
def run (args : BaseModel F) (answer : Except (StoreFailure F) Unit) :
    Except (Exc F) (ToolResult F) :=
  match answer with
  | .ok _ => .ok
      ⟨[("key", .str (textField args "key")), ("bytes_written", .int (payload args).length)],
        by simp [Value.Wf, Value.WfMembers]⟩
  | .error failure => .error (failure.exc (textField args "key"))

end S3PutTool

/-- The object a dispatch of one of the tools is about. -/
def Flight.objectKey (f : Flight F) : String :=
  tenantKey f.envelope.tenant (textField f.args "key")

/-- The flight reads an object. -/
def Flight.IsGet (f : Flight F) : Prop := f.tool.metadata.name = "s3.get_object"

/-- The flight writes an object. -/
def Flight.IsPut (f : Flight F) : Prop := f.tool.metadata.name = "s3.put_object"

instance (f : Flight F) : Decidable f.IsGet := inferInstanceAs (Decidable (_ = _))

instance (f : Flight F) : Decidable f.IsPut := inferInstanceAs (Decidable (_ = _))

/-- The text under the name in the arguments of a call. -/
def Flight.argument (f : Flight F) (name : String) : String :=
  pyStrValue ((dictGet f.envelope.arguments name).getD .none)

end Runs

/-- A server and the objects behind it.  The code does not keep the rest: the
content of the last put of an object, if it has returned, and the get that
filled the cache under a key, if no put of its object has come since. -/
structure Session (F : Type) where
  system : System F
  objects : String → Option (List ℕ)
  written : String → Option String := fun _ => none
  filled : String → Option (Flight F) := fun _ => none

/-- What happens next: the store answers the run at place `i`, or fails it; or
any other event.  `lands` says whether a put that ends with it has reached the
store. -/
inductive Happening (F : Type)
  | answered (i : ℕ) (now : ℚ)
  | failed (i : ℕ) (failure : StoreFailure F) (now : ℚ) (lands : Bool)
  | event (e : Event F) (lands : Bool)

namespace Session

variable [PyFloat F] [UnicodeDb]

/-- The store answers a read with the first bytes of what it has under the
key. -/
def read (s : Session F) (f : Flight F) : Except (StoreFailure F) (List ℕ) :=
  match s.objects f.objectKey with
  | some body => .ok (body.take (maxBytes f.args))
  | none => .error (.raised (some "NoSuchKey") "")

/-- The event of the server. -/
def toEvent (s : Session F) : Happening F → Option (Event F)
  | .answered i now =>
      match s.system.inFlight[i]? with
      | some (f, .running _) =>
          if f.IsGet then some (.ran i (S3GetTool.run f.args (s.read f)) now)
          else if f.IsPut then some (.ran i (S3PutTool.run f.args (.ok ())) now)
          else none
      | _ => none
  | .failed i failure now _ =>
      match s.system.inFlight[i]? with
      | some (f, .running _) =>
          if f.IsGet then some (.ran i (S3GetTool.run f.args (.error failure)) now)
          else if f.IsPut then some (.ran i (S3PutTool.run f.args (.error failure)) now)
          else none
      | _ => none
  | .event (.dispatch ctx env clock) _ =>
      if s.system.inFlight = [] then some (.dispatch ctx env clock) else none
  | .event (.ran i outcome now) _ =>
      match s.system.inFlight[i]? with
      | some (f, .running _) =>
          if f.IsGet ∨ f.IsPut then none else some (.ran i outcome now)
      | _ => none
  | .event e _ => some e

/-- The put that runs at place `i`. -/
def putAt (s : Session F) (i : ℕ) : Option (Flight F) :=
  match s.system.inFlight[i]? with
  | some (f, .running _) => if f.IsPut then some f else none
  | _ => none

/-- The put that has reached the store. -/
def landed (s : Session F) : Happening F → Option (Flight F)
  | .answered i _ => s.putAt i
  | .failed i _ _ lands => if lands then s.putAt i else none
  | .event (.interrupt i _ _) lands => if lands then s.putAt i else none
  | .event _ _ => none

/-- The objects in the store after a happening: those of a put that lands are
overwritten. -/
def objectsAfter (s : Session F) (h : Happening F) : String → Option (List ℕ) :=
  match s.landed h with
  | some f => Function.update s.objects f.objectKey (some (S3PutTool.payload f.args))
  | none => s.objects

/-- A put has arrived. -/
def forget (s : Session F) (f : Flight F) : Session F :=
  { s with
    written := Function.update s.written f.objectKey none
    filled := fun key => (s.filled key).filter fun g => g.objectKey ≠ f.objectKey }

/-- A dispatch has returned the result of its run. -/
def remember (s : Session F) (f : Flight F) : Session F :=
  { s with
    written :=
      if f.IsPut then Function.update s.written f.objectKey (some (f.argument "content"))
      else s.written
    filled := match f.key with
      | some key => Function.update s.filled key (if f.IsGet then some f else none)
      | none => s.filled }

/-- The record after a move. -/
def note (s : Session F) (m : Move F) : Session F :=
  match m.place with
  | none => if m.flight.IsPut then s.forget m.flight else s
  | some i =>
      match s.system.inFlight[i]? with
      | some (f, .ending _ (.ok _)) => s.remember f
      | _ => s

/-- The session takes its next step: the server its event, the store its
write, and the notes what has moved. -/
def step (srv : AtlasServer F) (s : Session F) (h : Happening F) : Option (Session F) := do
  let e ← s.toEvent h
  let system ← s.system.step srv e
  let noted := match s.system.moved srv e with
    | some m => s.note m
    | none => s
  return { noted with system, objects := s.objectsAfter h }

/-- One happening. -/
def Step (srv : AtlasServer F) (s : Session F) (h : Happening F) (t : Session F) : Prop :=
  s.step srv h = some t

/-- A server in any state with nothing in flight, over any objects. -/
def start (s : ServerState F) (objects : String → Option (List ℕ)) : Session F where
  system := { server := s }
  objects

/-- The dispatch that returns with the happening, and its value. -/
def returned (srv : AtlasServer F) (s : Session F) (h : Happening F) :
    Option (Flight F × Value F) := do
  let e ← s.toEvent h
  let m ← s.system.moved srv e
  match m.next.1 with
  | .ended (.ok v) => some (m.flight, v)
  | _ => none

/-- The dispatch that reads the cache with the happening, the key, and the
time. -/
def reads (srv : AtlasServer F) (s : Session F) (h : Happening F) :
    Option (Flight F × String × ℚ) := do
  let e ← s.toEvent h
  let m ← s.system.moved srv e
  let key ← m.flight.key
  match m.place, e with
  | none, _ => some (m.flight, key, m.flight.clock.now)
  | some i, .woke _ now =>
      match s.system.inFlight[i]? with
      | some (_, .polling _) => some (m.flight, key, now)
      | _ => none
  | _, _ => none

end Session

end Server
