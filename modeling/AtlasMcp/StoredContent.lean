import AtlasMcp.ObjectStore

/-!
# What a stored object reads back as

The input schemas strip the white space around every text, the content of a put included.  What
is put under a key and read back from it is therefore the content without the white space around
it, and the content itself exactly if there is none (`readBack_stripped`).

`Pydantic` is what the schemas use of the validation library; which characters it strips, how it
reads a number and how it words a rejection are its own matter.
-/

namespace Server

open PyJson PyText Errors Tools

variable {F : Type}

/-- The validation library: the white space it strips, the whole numbers it
takes, and the rejection of arguments. -/
structure Pydantic (F : Type) where
  space : Char → Bool
  toInt : Value F → Option ℤ
  rejection : List (String × Value F) → Rejection F
  isSpace_of_space : ∀ c, space c = true → isSpace c = true

/-- A text is what is left when its ends are trimmed if nothing is to be
trimmed there. -/
theorem trim_eq_self_iff (p : Char → Bool) (l : List Char) :
    (l.dropWhile p).rdropWhile p = l ↔
      (∀ c, l.head? = some c → p c = false) ∧ ∀ c, l.getLast? = some c → p c = false := by
  have hhead : l.dropWhile p = l ↔ ∀ c, l.head? = some c → p c = false := by
    cases l with
    | nil => simp
    | cons c l => simp [List.dropWhile_eq_self_iff]
  have hlast : l.rdropWhile p = l ↔ ∀ c, l.getLast? = some c → p c = false := by
    rw [List.rdropWhile_eq_self_iff]
    constructor
    · intro h c hc
      obtain ⟨ys, rfl⟩ := List.getLast?_eq_some_iff.mp hc
      simpa using h (by simp)
    · intro h hne
      simpa using h _ (List.getLast?_eq_some_getLast hne)
  rw [← hhead, ← hlast]
  constructor
  · intro h
    have hfront := List.rdropWhile_prefix p (l.dropWhile p)
    have hback := List.dropWhile_suffix (l := l) p
    have hdrop : l.dropWhile p = l :=
      hback.eq_of_length (le_antisymm hback.length_le (h ▸ hfront).length_le)
    exact ⟨hdrop, by rw [hdrop] at h; exact h⟩
  · rintro ⟨hdrop, hrdrop⟩
    rw [hdrop, hrdrop]

namespace Pydantic

/-- `str_strip_whitespace`. -/
def stripped (py : Pydantic F) (s : String) : String :=
  String.ofList ((s.toList.dropWhile py.space).rdropWhile py.space)

/-- No white space around the text.  Stripping leaves such a text as it is. -/
structure Unpadded (py : Pydantic F) (s : String) : Prop where
  head : ∀ c, s.toList.head? = some c → py.space c = false
  last : ∀ c, s.toList.getLast? = some c → py.space c = false

/-- A field `str = Field(..., max_length=n)`. -/
def strField (py : Pydantic F) (arguments : List (String × Value F)) (name : String)
    (maxLength : ℕ) : Option String :=
  match dictGet arguments name with
  | some (.str s) =>
      if (py.stripped s).toList.length ≤ maxLength then some (py.stripped s) else none
  | _ => none

/-- A field `str = Field(default, max_length=n)`. -/
def strFieldD (py : Pydantic F) (arguments : List (String × Value F)) (name default : String)
    (maxLength : ℕ) : Option String :=
  match dictGet arguments name with
  | none => some default
  | some _ => py.strField arguments name maxLength

/-- A field `int = Field(default, ge=lo, le=hi)`. -/
def intField (py : Pydantic F) (arguments : List (String × Value F)) (name : String)
    (default lo hi : ℤ) : Option ℤ :=
  match dictGet arguments name with
  | none => some default
  | some v => (py.toInt v).filter fun n => lo ≤ n ∧ n ≤ hi

/-- `extra="forbid"`. -/
def onlyFields (arguments : List (String × Value F)) (names : List String) : Bool :=
  arguments.all fun kv => kv.1 ∈ names

end Pydantic

/-- The arguments of `s3.get_object`: the key, and how much of the object is
read at most. -/
structure S3GetInput where
  key : String
  maxBytes : ℤ

/-- The arguments of `s3.put_object`: the key, and the object as a text. -/
structure S3PutInput where
  key : String
  content : String
  contentType : String

/-- They dump as they are. -/
def S3GetInput.toModel (x : S3GetInput) : BaseModel F where
  dump := [("key", .str x.key), ("max_bytes", .int x.maxBytes)]
  dumpJson := [("key", .str x.key), ("max_bytes", .int x.maxBytes)]
  wf := by simp [Value.Wf, Value.WfMembers]
  native := by simp [Value.Native, Value.NativeMembers]

/-- They dump as they are. -/
def S3PutInput.toModel (x : S3PutInput) : BaseModel F where
  dump := [("key", .str x.key), ("content", .str x.content), ("content_type", .str x.contentType)]
  dumpJson := [("key", .str x.key), ("content", .str x.content),
    ("content_type", .str x.contentType)]
  wf := by simp [Value.Wf, Value.WfMembers]
  native := by simp [Value.Native, Value.NativeMembers]

namespace Pydantic

/-- The fields of `S3GetInput`. -/
def getInput? (py : Pydantic F) (arguments : List (String × Value F)) : Option S3GetInput := do
  guard (onlyFields arguments ["key", "max_bytes"])
  let key ← py.strField arguments "key" 1024
  let maxBytes ← py.intField arguments "max_bytes" 1048576 1 10485760
  return { key, maxBytes }

/-- The fields of `S3PutInput`. -/
def putInput? (py : Pydantic F) (arguments : List (String × Value F)) : Option S3PutInput := do
  guard (onlyFields arguments ["key", "content", "content_type"])
  let key ← py.strField arguments "key" 1024
  let content ← py.strField arguments "content" 1000000
  let contentType ← py.strFieldD arguments "content_type" "text/plain" 128
  return { key, content, contentType }

variable {py : Pydantic F} {arguments : List (String × Value F)}

/-- A text field holds the stripped text of the argument. -/
theorem strField_eq_some {name s : String} {maxLength : ℕ}
    (h : py.strField arguments name maxLength = some s) :
    ∃ given, dictGet arguments name = some (.str given) ∧ s = py.stripped given := by
  unfold strField at h
  split at h
  next given hgiven =>
    split at h
    · exact ⟨given, hgiven, (Option.some.inj h).symm⟩
    · cases h
  next => cases h

/-- What the model reads has the key that came in, stripped. -/
theorem getInput?_eq_some {x : S3GetInput} (h : py.getInput? arguments = some x) :
    py.strField arguments "key" 1024 = some x.key := by
  simp only [getInput?, Option.bind_eq_bind, Option.bind_eq_some_iff] at h
  obtain ⟨_, -, key, hkey, maxBytes, -, hx⟩ := h
  obtain rfl := Option.some.inj hx
  exact hkey

/-- What the model writes has the key and the content that came in, both
stripped. -/
theorem putInput?_eq_some {x : S3PutInput} (h : py.putInput? arguments = some x) :
    py.strField arguments "key" 1024 = some x.key ∧
      py.strField arguments "content" 1000000 = some x.content := by
  simp only [putInput?, Option.bind_eq_bind, Option.bind_eq_some_iff] at h
  obtain ⟨_, -, key, hkey, content, hcontent, contentType, -, hx⟩ := h
  obtain rfl := Option.some.inj hx
  exact ⟨hkey, hcontent⟩

/-- Stripping leaves a text as it is if there is no white space around it, and
no other text. -/
theorem stripped_eq_self_iff (py : Pydantic F) (s : String) :
    py.stripped s = s ↔ py.Unpadded s := by
  rw [stripped, ← String.toList_inj, String.toList_ofList, trim_eq_self_iff]
  exact ⟨fun h => ⟨h.1, h.2⟩, fun h => ⟨h.1, h.2⟩⟩

/-- Stripping makes no text longer. -/
theorem stripped_infix (py : Pydantic F) (s : String) : (py.stripped s).toList <:+: s.toList := by
  rw [stripped, String.toList_ofList]
  exact (List.rdropWhile_prefix _ _).isInfix.trans (List.dropWhile_suffix _).isInfix

/-- The schema of a tool, from what it makes of the fields. -/
def schema (py : Pydantic F) (model? : List (String × Value F) → Option (BaseModel F))
    (arguments : List (String × Value F)) : Except (Rejection F) (BaseModel F) :=
  match model? arguments with
  | some args => .ok args
  | none => .error (py.rejection arguments)

/-- A model that is accepted is one that could be read. -/
theorem schema_eq_ok {model? : List (String × Value F) → Option (BaseModel F)}
    {args : BaseModel F} (h : py.schema model? arguments = .ok args) :
    model? arguments = some args := by
  unfold schema at h
  split at h
  next hmodel => rw [hmodel, Except.ok.inj h]
  next => cases h

/-- The schemas of the two tools. -/
def s3Tools (py : Pydantic F) : S3Tools F where
  getInput := py.schema fun arguments => (py.getInput? arguments).map S3GetInput.toModel
  putInput := py.schema fun arguments => (py.putInput? arguments).map S3PutInput.toModel
  put_content arguments args h := by
    obtain ⟨x, hx, rfl⟩ := Option.map_eq_some_iff.mp (schema_eq_ok h)
    obtain ⟨given, hgiven, hstripped⟩ := strField_eq_some (putInput?_eq_some hx).2
    refine ⟨given, x.content, hgiven, rfl, fun hsame => ?_⟩
    rw [hstripped, stripped_eq_self_iff]
    rw [stripText, PyText.strip, ← String.toList_inj, String.toList_ofList,
      trim_eq_self_iff] at hsame
    have hnot {c : Char} (hc : isSpace c = false) : py.space c = false := by
      by_contra hspace
      rw [py.isSpace_of_space c (by simpa using hspace)] at hc
      cases hc
    exact ⟨fun c hc => hnot (hsame.1 c hc), fun c hc => hnot (hsame.2 c hc)⟩

end Pydantic

/-- Arguments a tool accepts are arguments its schema accepts. -/
theorem inputSchema_of_validate [PyFloat F] {tool : Tool F} {arguments : List (String × Value F)}
    {args : BaseModel F} (h : tool.validate arguments = .ok args) :
    tool.inputSchema arguments = .ok args := by
  unfold Tool.validate at h
  split at h
  next => cases h
  next =>
    split at h
    next hschema => rw [hschema, Except.ok.inj h]
    next => cases h
    next => cases h

section RoundTrip

variable [PyFloat F] [UnicodeDb]

/-- The objects after a tenant's put. -/
def putObject (objects : String → Option (List ℕ)) (tenant : String) (args : BaseModel F) :
    String → Option (List ℕ) :=
  Function.update objects (tenantKey tenant (textField args "key")) (some (S3PutTool.payload args))

/-- What the store answers to a tenant's get. -/
def getObject (objects : String → Option (List ℕ)) (tenant : String) (args : BaseModel F) :
    Except (StoreFailure F) (List ℕ) :=
  match objects (tenantKey tenant (textField args "key")) with
  | some body => .ok (body.take (maxBytes args))
  | none => .error (.raised (some "NoSuchKey") "")

/-- What a get of the tenant finds under "content" when it comes after the
put. -/
def readBack (objects : String → Option (List ℕ)) (tenant : String)
    (putArgs getArgs : BaseModel F) : Option (Value F) :=
  match S3GetTool.run getArgs (getObject (putObject objects tenant putArgs) tenant getArgs) with
  | .ok result => dictGet result.val "content"
  | .error _ => none

/-- A get of the key of the put reads the bytes that were put. -/
theorem readBack_of_key (objects : String → Option (List ℕ)) (tenant : String)
    {putArgs getArgs : BaseModel F} (hkey : textField getArgs "key" = textField putArgs "key")
    (hsize : (S3PutTool.payload putArgs).length ≤ maxBytes getArgs) :
    readBack objects tenant putArgs getArgs = some (.str (textField putArgs "content")) := by
  have hfound : getObject (putObject objects tenant putArgs) tenant getArgs =
      .ok (S3PutTool.payload putArgs) := by
    rw [getObject, putObject, hkey, Function.update_self]
    simp only [List.take_of_length_le hsize]
  have hdecoded : Utf8.decodeReplace (S3PutTool.payload putArgs) = textField putArgs "content" :=
    Utf8.decodeReplace_encode _
  rw [readBack, hfound]
  simp only [S3GetTool.run, S3GetTool.resultOf, hdecoded]
  rfl

variable {py : Pydantic F} {putArguments getArguments : List (String × Value F)}
  {putArgs getArgs : BaseModel F} {content : String}

/-- The fields a put is left with. -/
theorem putFields (hput : py.s3Tools.putTool.validate putArguments = .ok putArgs)
    (hcontent : dictGet putArguments "content" = some (.str content)) :
    textField putArgs "content" = py.stripped content ∧
      ∃ key, dictGet putArguments "key" = some (.str key) ∧
        textField putArgs "key" = py.stripped key := by
  have hschema : py.schema (fun arguments => (py.putInput? arguments).map S3PutInput.toModel)
      putArguments = .ok putArgs := inputSchema_of_validate hput
  obtain ⟨x, hx, rfl⟩ := Option.map_eq_some_iff.mp (Pydantic.schema_eq_ok hschema)
  obtain ⟨hkey, hfield⟩ := Pydantic.putInput?_eq_some hx
  obtain ⟨key, hgiven, hstripped⟩ := Pydantic.strField_eq_some hkey
  obtain ⟨given, hargument, hfield⟩ := Pydantic.strField_eq_some hfield
  obtain rfl : content = given := by simpa using hcontent.symm.trans hargument
  exact ⟨hfield, key, hgiven, hstripped⟩

/-- The key a get is left with. -/
theorem getKey (hget : py.s3Tools.getTool.validate getArguments = .ok getArgs) {key : String}
    (hkey : dictGet getArguments "key" = some (.str key)) :
    textField getArgs "key" = py.stripped key := by
  have hschema : py.schema (fun arguments => (py.getInput? arguments).map S3GetInput.toModel)
      getArguments = .ok getArgs := inputSchema_of_validate hget
  obtain ⟨x, hx, rfl⟩ := Option.map_eq_some_iff.mp (Pydantic.schema_eq_ok hschema)
  obtain ⟨given, hgiven, hstripped⟩ := Pydantic.strField_eq_some (Pydantic.getInput?_eq_some hx)
  obtain rfl : key = given := by simpa using hkey.symm.trans hgiven
  exact hstripped

omit [UnicodeDb] in
/-- A part of a text has no more bytes than the text. -/
theorem utf8_length_le {s t : String} (h : s.toList <:+: t.toList) :
    (utf8 s).length ≤ (utf8 t).length := by
  obtain ⟨a, b, hab⟩ := h
  simp only [utf8, ← hab, List.flatMap_append, List.length_append]
  omega

/-- **What is read back.**  A get of the key of a put, of as many bytes as the
content of the put has, finds the content without the white space around it:
the content itself exactly if there is none. -/
theorem readBack_stripped (objects : String → Option (List ℕ)) (tenant : String)
    (hput : py.s3Tools.putTool.validate putArguments = .ok putArgs)
    (hget : py.s3Tools.getTool.validate getArguments = .ok getArgs)
    (hkey : dictGet getArguments "key" = dictGet putArguments "key")
    (hcontent : dictGet putArguments "content" = some (.str content))
    (hsize : (utf8 content).length ≤ maxBytes getArgs) :
    readBack objects tenant putArgs getArgs = some (.str (py.stripped content)) ∧
      (readBack objects tenant putArgs getArgs = some (.str content) ↔ py.Unpadded content) := by
  obtain ⟨hfield, key, hgiven, hputKey⟩ := putFields hput hcontent
  have hgetKey : textField getArgs "key" = py.stripped key := getKey hget (hkey.trans hgiven)
  have hbytes : (S3PutTool.payload putArgs).length ≤ maxBytes getArgs := by
    rw [S3PutTool.payload, hfield]
    exact le_trans (utf8_length_le (py.stripped_infix content)) hsize
  have hread := readBack_of_key objects tenant
    (hgetKey.trans hputKey.symm) hbytes
  rw [hfield] at hread
  refine ⟨hread, ?_⟩
  rw [hread, ← py.stripped_eq_self_iff]
  simp

end RoundTrip

/-- A library that strips what Python takes for white space. -/
def wholePydantic : Pydantic WholeFloat where
  space := isSpace
  toInt
    | .int n => some n
    | _ => none
  rejection _ := .schema ⟨none, "Field required"⟩
  isSpace_of_space _ h := h

/-- The arguments of a put of a file of one line. -/
def putLine : List (String × Value WholeFloat) :=
  [("key", .str "notes.txt"), ("content", .str "data\n")]

/-- The arguments of a read, for the tests. -/
def getLine : List (String × Value WholeFloat) := [("key", .str "notes.txt")]

/-- Nothing is stored. -/
def noObjects : String → Option (List ℕ) := fun _ => none

/-- The schemas take the arguments of the put and of a get. -/
theorem line_accepted :
    wholePydantic.s3Tools.putTool.validate putLine =
      .ok (S3PutInput.toModel ⟨"notes.txt", "data", "text/plain"⟩) ∧
    wholePydantic.s3Tools.getTool.validate getLine =
      .ok (S3GetInput.toModel ⟨"notes.txt", 1048576⟩) := by
  constructor
  · rfl
  · rfl

/-- The line is read back without its end. -/
theorem line_stripped : ∃ putArgs getArgs : BaseModel WholeFloat,
    wholePydantic.s3Tools.putTool.validate putLine = .ok putArgs ∧
    wholePydantic.s3Tools.getTool.validate getLine = .ok getArgs ∧
    dictGet putLine "content" = some (.str "data\n") ∧
    (utf8 "data\n").length ≤ maxBytes getArgs ∧
    readBack noObjects "acme" putArgs getArgs = some (.str "data") ∧
    readBack noObjects "acme" putArgs getArgs ≠ some (.str "data\n") := by
  have hread : readBack noObjects "acme"
      (S3PutInput.toModel ⟨"notes.txt", "data", "text/plain"⟩ : BaseModel WholeFloat)
      (S3GetInput.toModel ⟨"notes.txt", 1048576⟩) = some (.str "data") :=
    readBack_of_key noObjects "acme" rfl (by decide +kernel)
  refine ⟨_, _, line_accepted.1, line_accepted.2, rfl, by decide +kernel, hread, ?_⟩
  rw [hread]
  exact fun h => absurd (Value.str.inj (Option.some.inj h)) (by decide +kernel)

/-- A get after the put of the line. -/
theorem line_read_back :
    readBack noObjects "acme"
      (S3PutInput.toModel ⟨"notes.txt", "data", "text/plain"⟩ : BaseModel WholeFloat)
      (S3GetInput.toModel ⟨"notes.txt", 1048576⟩) =
        some (.str (wholePydantic.stripped "data\n")) :=
  (readBack_stripped noObjects "acme" line_accepted.1 line_accepted.2 rfl rfl
    (by decide +kernel)).1

end Server
