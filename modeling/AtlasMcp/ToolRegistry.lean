import AtlasMcp.ArgumentBounds
import AtlasMcp.JsonSorted
import AtlasMcp.Sha256

/-!
# Tools and their registry

A tool is its metadata and its input schema; what its `run` does is up to the
backends and stays open.  The schema is code of the validation library: a function
from the arguments to a model, of which the pipeline uses the two dumps.

`cacheKey_injective` is the isolation of cache keys: two calls share a key only if
they share tenant and tool and their digests agree, whatever the tenants are called.
-/

namespace Tools

open PyJson Errors Validation

variable {F : Type}

/-- The metadata of a tool, as far as the server uses them.  A tool that says
nothing else is cached and not destructive. -/
structure ToolMetadata where
  name : String
  scopesRequired : List String := []
  destructive : Bool := false
  cacheable : Bool := true
  cacheTtlSeconds : ℤ := 60

/-- A validated model: `model_dump()` and `model_dump(mode="json")`, the
latter made of JSON types. -/
structure BaseModel (F : Type) where
  dump : List (String × Value F)
  dumpJson : List (String × Value F)
  wf : (Value.dict dumpJson).Wf
  native : (Value.dict dumpJson).Native

/-- A model without fields. -/
def BaseModel.empty : BaseModel F where
  dump := []
  dumpJson := []
  wf := by simp [Value.Wf, Value.WfMembers]
  native := trivial

/-- `getattr(args, name)`: the fields of a model are those of its dump. -/
def BaseModel.getattr (args : BaseModel F) (name : String) : Value F :=
  (dictGet args.dump name).getD .none

/-- What a schema raises besides a `ValidationError` of this code: the errors
it lists, if it has any, each with its location and message; and its text. -/
structure SchemaError where
  errors : Option (List (List String × Option String))
  text : String

/-- How a schema rejects arguments: with an error of its own validators that the
server passes on, or with one of the library. -/
inductive Rejection (F : Type)
  | validation (e : ToolError F)
  | schema (e : SchemaError)

/-- A tool, with the validation of its arguments.  What it does when it runs is
up to the events of a run. -/
structure Tool (F : Type) where
  metadata : ToolMetadata
  inputSchema : List (String × Value F) → Except (Rejection F) (BaseModel F)

/-- The first of the errors of the model, where there is one, and else the
text of the exception. -/
def summarisePydanticError (exc : SchemaError) : String :=
  match exc.errors with
  | some ((loc, msg) :: _) => ".".intercalate loc ++ ": " ++ msg.getD "invalid"
  | _ => exc.text

namespace Tool

/-- `Tool.validate`: the tree of the arguments is bounded before the model
sees it. -/
def validate [PyFloat F] (tool : Tool F) (arguments : List (String × Value F)) :
    Except (ToolError F) (BaseModel F) :=
  match boundArguments arguments with
  | .error e => .error e
  | .ok _ =>
      match tool.inputSchema arguments with
      | .ok args => .ok args
      | .error (.validation e) => .error e
      | .error (.schema exc) => .error
          { cls := .validationError
            code := "invalid_arguments"
            hint := summarisePydanticError exc
            context := some [("tool", .str tool.metadata.name)] }

end Tool

/-- `str.encode()`: the UTF-8 bytes. -/
def utf8 (s : String) : List ℕ :=
  s.toList.flatMap fun c => (String.utf8EncodeChar c).map UInt8.toNat

section Key

variable [PyFloat F]

/-- The text the cache key digests. -/
def argsBlob (args : BaseModel F) : String :=
  dumpsSorted (.dict [("args", .dict args.dumpJson)])

/-- `hashlib.sha256(blob).hexdigest()[:24]`. -/
def digest (blob : String) : String :=
  String.ofList ((Sha256.hexdigest (utf8 blob)).take 24)

/-- The key under which a result is cached: the tenant, the name of the tool,
and the digest of the arguments. -/
def Tool.cacheKey (tool : Tool F) (tenant : String) (args : BaseModel F) : String :=
  "atlas:" ++ tenant ++ ":" ++ tool.metadata.name ++ ":" ++ digest (argsBlob args)

end Key

/-- A digest has no colon in it, so the parts of a key can be told apart. -/
theorem colon_notMem_digest (blob : String) : ':' ∉ (digest blob).toList := by
  rw [digest, String.toList_ofList]
  exact fun h => Sha256.colon_notMem_hexdigest _ (List.mem_of_mem_take h)

/-- A colon splits a text in one way if none comes after it. -/
theorem append_colon_inj {a b c d : List Char} (hb : ':' ∉ b) (hd : ':' ∉ d)
    (h : a ++ ':' :: b = c ++ ':' :: d) : a = c ∧ b = d := by
  rcases List.append_eq_append_iff.mp h with ⟨mid, rfl, hmid⟩ | ⟨mid, rfl, hmid⟩
  · cases mid with
    | nil => simpa using hmid
    | cons x mid =>
        obtain ⟨-, rfl⟩ : ':' = x ∧ b = mid ++ ':' :: d := by simpa using hmid
        simp at hb
  · cases mid with
    | nil => simpa [eq_comm] using hmid
    | cons x mid =>
        obtain ⟨-, rfl⟩ : ':' = x ∧ d = mid ++ ':' :: b := by simpa using hmid
        simp at hd

/-- A key made of tenant, name and digest gives back all three, if names have
no colon. -/
theorem key_injective {pre tenant tenant' name name' blob blob' : String}
    (hname : ':' ∉ name.toList) (hname' : ':' ∉ name'.toList)
    (h : pre ++ tenant ++ ":" ++ name ++ ":" ++ digest blob =
      pre ++ tenant' ++ ":" ++ name' ++ ":" ++ digest blob') :
    tenant = tenant' ∧ name = name' ∧ digest blob = digest blob' := by
  have hlist : (pre.toList ++ tenant.toList ++ ':' :: name.toList) ++
        ':' :: (digest blob).toList =
      (pre.toList ++ tenant'.toList ++ ':' :: name'.toList) ++
        ':' :: (digest blob').toList := by
    simpa using congrArg String.toList h
  obtain ⟨hbefore, hdigest⟩ :=
    append_colon_inj (colon_notMem_digest _) (colon_notMem_digest _) hlist
  obtain ⟨htenant, hnames⟩ := append_colon_inj hname hname' hbefore
  exact ⟨String.toList_injective (List.append_cancel_left htenant),
    String.toList_injective hnames, String.toList_injective hdigest⟩

/-- **Cache keys are isolated.**  For tools whose names have no colon, a key
gives back the tenant, the name of the tool, and the digest of the
arguments. -/
theorem cacheKey_injective [PyFloat F] {tool tool' : Tool F} {tenant tenant' : String}
    {args args' : BaseModel F} (hname : ':' ∉ tool.metadata.name.toList)
    (hname' : ':' ∉ tool'.metadata.name.toList)
    (h : tool.cacheKey tenant args = tool'.cacheKey tenant' args') :
    tenant = tenant' ∧ tool.metadata.name = tool'.metadata.name ∧
      digest (argsBlob args) = digest (argsBlob args') :=
  key_injective hname hname' h

/-- **The digested text gives back the arguments**, up to the order of
members. -/
theorem sortKeys_eq_of_argsBlob_eq [PyFloat F] {args args' : BaseModel F}
    (h : argsBlob args = argsBlob args') :
    (Value.dict args.dumpJson).sortKeys = (Value.dict args'.dumpJson).sortKeys := by
  have hwf : ∀ a : BaseModel F, (Value.dict [("args", .dict a.dumpJson)]).Wf :=
    fun a => ⟨by simp, a.wf, trivial⟩
  have hnative : ∀ a : BaseModel F, (Value.dict [("args", .dict a.dumpJson)]).Native :=
    fun a => ⟨a.native, trivial⟩
  have hsorted := sortKeys_eq_of_dumpsSorted_eq (hwf args) (hwf args') (hnative args)
    (hnative args') h
  simpa [Value.sortKeys, Value.sortKeysMembers] using hsorted

/-- Tools by name; the key of a tool is the name in its metadata, so a tool that
is found is the one that was asked for. -/
structure ToolRegistry (F : Type) where
  tools : AList (fun _ : String => Tool F)
  named : ∀ name tool, tools.lookup name = some tool → tool.metadata.name = name

namespace ToolRegistry

/-- No tool is registered. -/
def empty : ToolRegistry F := ⟨∅, by simp⟩

/-- `ToolRegistry.register`: a name that is taken raises. -/
def register [UnicodeDb] (r : ToolRegistry F) (tool : Tool F) :
    Except String (ToolRegistry F) :=
  if tool.metadata.name ∈ r.tools then
    .error ("tool " ++ PyText.pyRepr tool.metadata.name ++ " already registered")
  else .ok
    { tools := r.tools.insert tool.metadata.name tool
      named := by
        intro name t h
        by_cases hname : name = tool.metadata.name
        · subst hname
          rw [AList.lookup_insert] at h
          rw [Option.some.inj h]
        · rw [AList.lookup_insert_ne hname] at h
          exact r.named name t h }

/-- `ToolRegistry.get`: a tool that is not there raises. -/
def get [UnicodeDb] (r : ToolRegistry F) (name : String) :
    Except (ToolError F) (Tool F) :=
  match r.tools.lookup name with
  | some tool => .ok tool
  | none => .error (toolNotFoundError name)

/-- A tool found is registered, under the name in its metadata. -/
theorem lookup_of_get [UnicodeDb] {r : ToolRegistry F} {name : String} {tool : Tool F}
    (h : r.get name = .ok tool) :
    r.tools.lookup name = some tool ∧ tool.metadata.name = name := by
  unfold get at h
  cases hlookup : r.tools.lookup name with
  | none => simp [hlookup] at h
  | some t =>
      obtain rfl : t = tool := by simpa [hlookup] using h
      exact ⟨rfl, r.named name t hlookup⟩

/-- In a registry of one tool, that one is found. -/
theorem eq_of_lookup_single {r : ToolRegistry F} {name : String} {tool : Tool F} (key : String)
    (hkeys : r.tools.keys = [key]) (h : r.tools.lookup name = some tool) : name = key := by
  have hmem : name ∈ r.tools.keys := AList.mem_keys.mp (AList.lookup_isSome.mp (by simp [h]))
  rwa [hkeys, List.mem_singleton] at hmem

end ToolRegistry

end Tools
