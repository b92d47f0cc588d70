import AtlasMcp.ArgumentTrees
import AtlasMcp.Discovery
import AtlasMcp.SelectGuard
import AtlasMcp.StoredContent
import AtlasMcp.TextGuards
import AtlasMcp.UrlHost

/-!
# The input schemas of the built-in tools

A schema is a list of fields, and a field a name, a type and a default.  The validation library
reads each field from the arguments, and the model is what it has read, in the order of the
fields.  The validators that the tools attach to their texts run after the library has stripped
and measured them.
-/

namespace Validation

open PyJson Errors Tools Server

variable {F : Type}

/-! ## Types of fields -/

/-- What a schema asks of a text: its length, its characters, and what its
validator makes of it.  The validator rejects it with a `ValueError`, or with
an error of its own. -/
structure TextRule (F : Type) where
  minLength : ℕ := 0
  maxLength : Option ℕ := none
  chars : Char → Bool := fun _ => true
  check : String → Except (Option (ToolError F)) String := .ok
  /-- A validator that accepts a text at least trims it in this way. -/
  trim : String → String := id
  eq_trim : ∀ s t, check s = .ok t → t = trim s := by
    intro s t h
    exact (Except.ok.inj h).symm

/-- The type of a field, with the bounds that its annotation sets.  The bounds
of numbers are inclusive, and those of a list are on its length. -/
inductive FieldType (F : Type)
  | str (rule : TextRule F)
  | int (ge le : ℤ)
  | float (ge le : ℚ)
  | bool
  /-- An enumeration of texts. -/
  | choice (options : List String)
  /-- `list[float]` -/
  | floats (minLength : ℕ)
  /-- `list[str]` -/
  | texts
  /-- `list[Any]` -/
  | values
  /-- `dict` -/
  | object
  /-- `dict[str, Any]` -/
  | namedValues
  /-- `dict[str, str]` -/
  | namedTexts

/-- A field of an input model, with its type and its default.  A field that has
no default is required. -/
structure SchemaField (F : Type) where
  name : String
  type : FieldType F
  default : Option (Value F) := none
  nullable : Bool := false

/-! ## Reading a field -/

/-- What else the schemas use of the validation library: the floats and truth
values it takes, the floats between two bounds, and the model it makes of what
it has read. -/
structure Library (F : Type) [PyFloat F] extends Pydantic F where
  toFloat : Value F → Option F
  toBool : Value F → Option Bool
  between : ℚ → ℚ → F → Bool
  toModel : List (String × Value F) → BaseModel F
  dump_toModel : ∀ dump, (toModel dump).dump = dump
  toInt_int : ∀ n, toInt (.int n) = some n
  toInt_whole : ∀ n : ℤ, |n| ≤ 2 ^ 53 → toInt (.float (PyFloat.ofRat n)) = some n
  toFloat_float : ∀ x, toFloat (.float x) = some x
  toFloat_int : ∀ n : ℤ, |n| ≤ 2 ^ 53 → toFloat (.int n) = some (PyFloat.ofRat n)
  toBool_bool : ∀ b, toBool (.bool b) = some b
  between_whole : ∀ (lo hi : ℚ) (n : ℤ), |n| ≤ 2 ^ 53 →
    (between lo hi (PyFloat.ofRat n) = true ↔ lo ≤ n ∧ n ≤ hi)

/-- The value is a text.  Pydantic takes nothing else for a `str`. -/
def text? : Value F → Option String
  | .str s => some s
  | _ => none

/-- The value is a list, with its items. -/
def items? : Value F → Option (List (Value F))
  | .list xs => some xs
  | _ => none

/-- The value is a dictionary, with its members. -/
def members? : Value F → Option (List (String × Value F))
  | .dict kvs => some kvs
  | _ => none

/-- The value is `None`, which only an optional field takes. -/
def isNull : Value F → Bool
  | .none => true
  | _ => false

/-- The text is short and long enough, and of these characters only. -/
def TextRule.fits (rule : TextRule F) (s : String) : Bool :=
  rule.minLength ≤ s.toList.length && rule.maxLength.all (s.toList.length ≤ ·) &&
    s.toList.all rule.chars

/-- What the library does not take is invalid. -/
def orInvalid {α : Type} : Option α → Except (Option (ToolError F)) α
  | some a => .ok a
  | none => .error none

section Read

variable [PyFloat F] (py : Library F)

/-- A dictionary with its names stripped. -/
def named {α : Type} (kvs : List (String × α)) : List (String × α) :=
  dictOf (kvs.map fun kv => (py.stripped kv.1, kv.2))

/-- What a field of this type makes of a value that came in: the value that
the tool gets, or a refusal.  A text is stripped before its length is compared
and before its validator sees it. -/
def FieldType.read : FieldType F → Value F → Except (Option (ToolError F)) (Value F)
  | .str rule, v =>
      match text? v with
      | none => .error none
      | some s =>
          if rule.fits (py.stripped s) then (rule.check (py.stripped s)).map .str
          else .error none
  | .int ge le, v => orInvalid (((py.toInt v).filter fun n => ge ≤ n ∧ n ≤ le).map .int)
  | .float ge le, v => orInvalid (((py.toFloat v).filter (py.between ge le)).map .float)
  | .bool, v => orInvalid ((py.toBool v).map .bool)
  | .choice options, v => orInvalid (((text? v).filter (· ∈ options)).map .str)
  | .floats minLength, v => orInvalid
      ((((items? v).bind fun xs => xs.mapM py.toFloat).filter (minLength ≤ ·.length)).map
        fun xs => .list (xs.map .float))
  | .texts, v => orInvalid (((items? v).bind fun xs => xs.mapM text?).map
      fun ts => .list (ts.map fun t => .str (py.stripped t)))
  | .values, v => orInvalid ((items? v).map .list)
  | .object, v => orInvalid ((members? v).map .dict)
  | .namedValues, v => orInvalid ((members? v).map fun kvs => .dict (named py kvs))
  | .namedTexts, v => orInvalid
      (((members? v).bind fun kvs => kvs.mapM fun kv => (text? kv.2).map (kv.1, ·)).map
        fun kvs => .dict ((named py kvs).map fun kv => (kv.1, .str (py.stripped kv.2))))

/-- What the model makes of the arguments for one field: its default where the
name is missing, and else what its type reads. -/
def SchemaField.read (f : SchemaField F) (arguments : List (String × Value F)) :
    Except (Option (ToolError F)) (Value F) :=
  match dictGet arguments f.name with
  | some v => if f.nullable && isNull v then .ok .none else f.type.read py v
  | none => orInvalid f.default

/-- The error that a validator raised past the library. -/
def raised : Except (Option (ToolError F)) (Value F) → Option (ToolError F)
  | .ok _ => none
  | .error e => e

/-- What is read of the fields; `extra="forbid"`. -/
def dumpOf (fields : List (SchemaField F)) (arguments : List (String × Value F)) :
    Option (List (String × Value F)) :=
  if Pydantic.onlyFields arguments (fields.map SchemaField.name) then
    fields.mapM fun f => (f.read py arguments).toOption.map (f.name, ·)
  else none

/-- `StrictToolModel.model_validate`.  An error of a validator's own ends it
at once. -/
def modelValidate (fields : List (SchemaField F)) (arguments : List (String × Value F)) :
    Except (Rejection F) (BaseModel F) :=
  match fields.findSome? fun f => raised (f.read py arguments) with
  | some e => .error (.validation e)
  | none =>
      match dumpOf py fields arguments with
      | some dump => .ok (py.toModel dump)
      | none => .error (py.rejection arguments)

end Read

/-! ## What is read -/

section MapM

variable {α β : Type} {f : α → Option β} {xs : List α} {ys : List β}

/-- A list is read item by item: all of it, or not at all. -/
theorem mapM_eq_some_iff : xs.mapM f = some ys ↔ xs.map f = ys.map some := by
  induction xs generalizing ys with
  | nil => cases ys <;> simp
  | cons x xs ih =>
      simp only [List.mapM_cons, Option.bind_eq_bind, Option.bind_eq_some_iff, ih]
      constructor
      · rintro ⟨y, hy, ys', hys, heq⟩
        obtain rfl := Option.some.inj heq
        rw [List.map_cons, List.map_cons, hy, hys]
      · intro h
        cases ys with
        | nil => cases h
        | cons y ys =>
            obtain ⟨hy, hys⟩ := List.cons.inj h
            exact ⟨y, hy, ys, hys, rfl⟩

/-- A list can be read if and only if each of its items can. -/
theorem exists_mapM_iff : (∃ ys, xs.mapM f = some ys) ↔ ∀ x ∈ xs, ∃ y, f x = some y := by
  have hrange := Set.ext_iff.mp (Set.range_list_map (some : β → Option β)) (xs.map f)
  simp only [Set.mem_range, Set.mem_ofPred_eq, List.forall_mem_map] at hrange
  simpa only [mapM_eq_some_iff, eq_comm] using hrange

/-- The items of what was read are what the items were read as. -/
theorem mem_iff_of_mapM (h : xs.mapM f = some ys) {y : β} : y ∈ ys ↔ ∃ x ∈ xs, f x = some y := by
  rw [← List.mem_map, mapM_eq_some_iff.mp h, List.mem_map]
  simp

/-- Where every item can be read, leaving out those that cannot be read leaves
out none. -/
theorem filterMap_of_mapM (h : xs.mapM f = some ys) : xs.filterMap f = ys := by
  have hmap : (xs.map f).filterMap id = (ys.map some).filterMap id := by
    rw [mapM_eq_some_iff.mp h]
  simpa [List.filterMap_map] using hmap

end MapM

/-- What counts as valid is exactly what could be read. -/
theorem orInvalid_eq_ok_iff {α : Type} {o : Option α} {a : α} :
    orInvalid (F := F) o = .ok a ↔ o = some a := by
  cases o <;> simp [orInvalid]

theorem text?_eq_some_iff {v : Value F} {s : String} : text? v = some s ↔ v = .str s := by
  cases v <;> simp [text?]

theorem items?_eq_some_iff {v : Value F} {xs : List (Value F)} :
    items? v = some xs ↔ v = .list xs := by
  cases v <;> simp [items?]

theorem members?_eq_some_iff {v : Value F} {kvs : List (String × Value F)} :
    members? v = some kvs ↔ v = .dict kvs := by
  cases v <;> simp [members?]

/-- Only `None` is null; an empty text or a zero is not. -/
theorem isNull_iff {v : Value F} : isNull v = true ↔ v = .none := by
  cases v <;> simp [isNull]

section Dumps

variable [PyFloat F] {py : Library F} {fields : List (SchemaField F)}
  {arguments : List (String × Value F)}

/-- A text that is read fits the rule, and its validator has trimmed it. -/
theorem read_str_eq_ok {rule : TextRule F} {v w : Value F}
    (h : (FieldType.str rule).read py v = .ok w) :
    ∃ s t, v = .str s ∧ rule.fits (py.stripped s) = true ∧ rule.check (py.stripped s) = .ok t ∧
      w = .str t := by
  rw [FieldType.read] at h
  split at h
  · cases h
  next s hs =>
    split at h
    next hfits =>
      cases hcheck : rule.check (py.stripped s) with
      | error e =>
          rw [hcheck] at h
          cases h
      | ok t =>
          rw [hcheck] at h
          exact ⟨s, t, text?_eq_some_iff.mp hs, hfits, hcheck, (Except.ok.inj h).symm⟩
    next => cases h

/-- A field is read as its default, or as what its type makes of the
argument. -/
theorem field_read_eq_ok {f : SchemaField F} {w : Value F} (h : f.read py arguments = .ok w) :
    (dictGet arguments f.name = none ∧ f.default = some w) ∨
      ∃ v, dictGet arguments f.name = some v ∧
        (f.nullable = true ∧ v = .none ∧ w = .none ∨ f.type.read py v = .ok w) := by
  unfold SchemaField.read at h
  split at h
  next v hv =>
    refine Or.inr ⟨v, hv, ?_⟩
    split at h
    next hnull =>
      obtain ⟨hnullable, hnone⟩ := Bool.and_eq_true_iff.mp hnull
      exact Or.inl ⟨hnullable, isNull_iff.mp hnone, (Except.ok.inj h).symm⟩
    next => exact Or.inr h
  next hmissing => exact Or.inl ⟨hmissing, orInvalid_eq_ok_iff.mp h⟩

/-- The model holds what was read of the fields. -/
theorem dumpOf_of_modelValidate {x : BaseModel F} (h : modelValidate py fields arguments = .ok x) :
    dumpOf py fields arguments = some x.dump := by
  unfold modelValidate at h
  split at h
  · cases h
  · split at h
    next dump hdump => rw [hdump, ← Except.ok.inj h, py.dump_toModel]
    next => cases h

omit [PyFloat F] in
/-- A field that could be read becomes a member of the arguments under its
name. -/
theorem map_toOption_eq_some {name : String} {r : Except (Option (ToolError F)) (Value F)}
    {kv : String × Value F} :
    r.toOption.map (name, ·) = some kv ↔ kv.1 = name ∧ r = .ok kv.2 := by
  cases r with
  | error e => simp [Except.toOption]
  | ok w => simp [Except.toOption, Prod.ext_iff, eq_comm]

/-- Every member of the dump is what a field was read as. -/
theorem mem_dump_iff {dump : List (String × Value F)} (h : dumpOf py fields arguments = some dump)
    {kv : String × Value F} :
    kv ∈ dump ↔ ∃ f ∈ fields, kv.1 = f.name ∧ f.read py arguments = .ok kv.2 := by
  unfold dumpOf at h
  split at h
  · simp only [mem_iff_of_mapM h, map_toOption_eq_some]
  · cases h

/-- All arguments have to name fields, and every field has to be read. -/
theorem exists_dumpOf_iff : (∃ dump, dumpOf py fields arguments = some dump) ↔
    Pydantic.onlyFields arguments (fields.map SchemaField.name) = true ∧
      ∀ f ∈ fields, ∃ w, f.read py arguments = .ok w := by
  unfold dumpOf
  split
  next honly =>
    rw [exists_mapM_iff]
    simp only [map_toOption_eq_some, honly, true_and]
    refine forall₂_congr fun f _ => ⟨?_, ?_⟩
    · rintro ⟨kv, -, hkv⟩
      exact ⟨kv.2, hkv⟩
    · rintro ⟨w, hw⟩
      exact ⟨(f.name, w), rfl, hw⟩
  next honly => simp [honly]

/-- A validator's own error leaves its field unread. -/
theorem exists_modelValidate_iff : (∃ x, modelValidate py fields arguments = .ok x) ↔
    ∃ dump, dumpOf py fields arguments = some dump := by
  constructor
  · rintro ⟨x, h⟩
    exact ⟨x.dump, dumpOf_of_modelValidate h⟩
  · rintro ⟨dump, hdump⟩
    have hnone : (fields.findSome? fun f => raised (f.read py arguments)) = none := by
      refine List.findSome?_eq_none_iff.mpr fun f hf => ?_
      obtain ⟨w, hw⟩ := (exists_dumpOf_iff.mp ⟨dump, hdump⟩).2 f hf
      rw [hw, raised]
    exact ⟨py.toModel dump, by rw [modelValidate, hnone, hdump]⟩

end Dumps

end Validation

/-! ## The tools -/

namespace Tools

open PyJson PyText Errors Validation

variable {F : Type}

/-- A text of at most this length. -/
def upTo (maxLength : ℕ) : FieldType F := .str { maxLength := some maxLength }

/-- A text that is not empty, of at most this length. -/
def someUpTo (maxLength : ℕ) : FieldType F := .str { minLength := 1, maxLength := some maxLength }

/-- A validator that raises a `ValueError`. -/
def rejecting (check : String → Except String String) (s : String) :
    Except (Option (ToolError F)) String :=
  (check s).mapError fun _ => none

/-- A validator that raises nothing returns what its check returns. -/
theorem rejecting_eq_ok {check : String → Except String String} {s t : String}
    (h : rejecting (F := F) check s = .ok t) : check s = .ok t := by
  unfold rejecting at h
  cases hs : check s with
  | error e =>
      rw [hs] at h
      cases h
  | ok out =>
      rw [hs] at h
      exact congrArg _ (Except.ok.inj h)

/-- `PingInput.message_must_be_clean`. -/
def messageMustBeClean (value : String) : Except (Option (ToolError F)) String :=
  (scrubText value "message" 200).mapError some

/-- The message of a ping is kept as it is, and it is clean: its validator
refuses a control character. -/
theorem messageMustBeClean_eq_ok {s t : String} (h : messageMustBeClean (F := F) s = .ok t) :
    Clean s ∧ t = s := by
  unfold messageMustBeClean at h
  cases hs : scrubText (F := F) s "message" 200 with
  | error e =>
      rw [hs] at h
      cases h
  | ok out =>
      rw [hs] at h
      obtain rfl := Except.ok.inj h
      exact (scrubText_eq_ok_iff.mp hs).2

/-- `urlparse(url).scheme`, of the URL without white space before it. -/
def scheme [UnicodeDb] (url : List Char) : List Char :=
  let url := (url.dropWhile fun c => c.toNat ≤ 0x20).filter fun c => c ∉ ['\t', '\r', '\n']
  let scheme := UrlHost.before ':' url
  if ':' ∈ url ∧ scheme.head?.any Char.isAlpha ∧ scheme.all UrlHost.isSchemeChar then
    UnicodeDb.lower scheme
  else []

/-- `HTTPFetchInput.must_be_https`. -/
def mustBeHttps [UnicodeDb] (value : String) : Except String String := do
  let hostname ← UrlHost.hostname value
  if scheme value.toList ≠ "https".toList then .error "only https:// URLs are permitted"
  else if hostname.isNone then .error "missing hostname"
  else .ok value

theorem mustBeHttps_eq_ok [UnicodeDb] {s t : String} (h : mustBeHttps s = .ok t) : t = s := by
  unfold mustBeHttps at h
  cases hhost : UrlHost.hostname s with
  | error e =>
      rw [hhost] at h
      cases h
  | ok hostname =>
      simp only [hhost, bind, Except.bind] at h
      split_ifs at h
      exact (Except.ok.inj h).symm

/-- The methods that `http.fetch` sends. -/
def allowedMethods : List String := ["GET", "POST", "PUT", "PATCH", "DELETE"]

/-- `HTTPFetchInput.method_allowed`. -/
def methodAllowed [UnicodeDb] (value : String) : Except String String :=
  let upper := String.ofList (upper value.toList)
  if upper ∉ allowedMethods then .error "unsupported method"
  else .ok upper

/-- The validator of the method returns one of the five, in capitals, whatever
the case of the letters it was given in. -/
theorem methodAllowed_eq_ok [UnicodeDb] {s t : String} (h : methodAllowed s = .ok t) :
    t ∈ allowedMethods ∧ t = String.ofList (upper s.toList) := by
  simp only [methodAllowed] at h
  split_ifs at h with hmem
  obtain rfl := Except.ok.inj h
  exact ⟨hmem, rfl⟩

/-- `[A-Za-z0-9\-_]` of the validation library, whose letters are ASCII. -/
def isCustomerIdChar (c : Char) : Bool := c.isAlphanum || c = '-' || c = '_'

namespace Builtin

variable [UnicodeDb]

omit [UnicodeDb] in
/-- The fields of `server.ping`, with the bounds of `PingInput`. -/
def pingInput : List (SchemaField F) :=
  [{ name := "message"
     type := .str
       { maxLength := some 200
         check := messageMustBeClean
         eq_trim := fun _ _ h => (messageMustBeClean_eq_ok h).2 }
     default := some (.str "ping") },
   { name := "mode"
     type := .choice ["echo", "silent"]
     default := some (.str "echo") }]

/-- The fields of `postgres.query`, with the bounds of
`PostgresQueryInput`. -/
def postgresQueryInput : List (SchemaField F) :=
  [{ name := "sql"
     type := .str
       { maxLength := some 8000
         check := rejecting SelectGuard.mustBeSelect
         trim := fun s => String.ofList (SelectGuard.stripped s)
         eq_trim := fun s t h =>
           ((SelectGuard.mustBeSelect_ok_iff s t).mp (rejecting_eq_ok h)).2.2.2 } },
   { name := "params"
     type := .values
     default := some (.list []) },
   { name := "max_rows"
     type := .int 1 1000
     default := some (.int 100) }]

omit [UnicodeDb] in
/-- The fields of `elasticsearch.search`, with the bounds of
`ElasticsearchSearchInput`. -/
def elasticsearchSearchInput : List (SchemaField F) :=
  [{ name := "index"
     type := upTo 200 },
   { name := "query"
     type := .object },
   { name := "size"
     type := .int 1 200
     default := some (.int 20) },
   { name := "fields"
     type := .texts
     default := some .none
     nullable := true }]

omit [UnicodeDb] in
/-- The fields of `vector.search`, with the bounds of `VectorSearchInput`. -/
def vectorSearchInput : List (SchemaField F) :=
  [{ name := "collection"
     type := upTo 200 },
   { name := "vector"
     type := .floats 1 },
   { name := "top_k"
     type := .int 1 100
     default := some (.int 10) },
   { name := "filter"
     type := .namedValues
     default := some .none
     nullable := true }]

omit [UnicodeDb] in
/-- The fields of `s3.get_object`, with the bounds of `S3GetInput`. -/
def s3GetInput : List (SchemaField F) :=
  [{ name := "key"
     type := upTo 1024 },
   { name := "max_bytes"
     type := .int 1 10485760
     default := some (.int 1048576) }]

omit [UnicodeDb] in
/-- The fields of `s3.put_object`, with the bounds of `S3PutInput`; its
content has no validator of its own. -/
def s3PutInput : List (SchemaField F) :=
  [{ name := "key"
     type := upTo 1024 },
   { name := "content"
     type := upTo 1000000 },
   { name := "content_type"
     type := upTo 128
     default := some (.str "text/plain") }]

/-- The fields of `http.fetch`, with the bounds of `HttpFetchInput`. -/
def httpFetchInput [PyFloat F] : List (SchemaField F) :=
  [{ name := "url"
     type := .str
       { maxLength := some 2048
         check := rejecting mustBeHttps
         eq_trim := fun _ _ h => mustBeHttps_eq_ok (rejecting_eq_ok h) } },
   { name := "method"
     type := .str
       { check := rejecting methodAllowed
         trim := fun s => String.ofList (upper s.toList)
         eq_trim := fun _ _ h => (methodAllowed_eq_ok (rejecting_eq_ok h)).2 }
     default := some (.str "GET") },
   { name := "headers"
     type := .namedTexts
     default := some .none
     nullable := true },
   { name := "body"
     type := .object
     default := some .none
     nullable := true },
   { name := "timeout_s"
     type := .float (1 / 2) 30
     default := some (.float (PyFloat.ofRat 10)) }]

omit [UnicodeDb] in
/-- The fields of `semantic_search`, with the bounds of
`SemanticSearchInput`. -/
def semanticSearchInput : List (SchemaField F) :=
  [{ name := "query"
     type := someUpTo 4000 },
   { name := "collection"
     type := upTo 200 },
   { name := "top_k"
     type := .int 1 25
     default := some (.int 5) },
   { name := "hydrate_from_postgres"
     type := .bool
     default := some (.bool true) }]

omit [UnicodeDb] in
/-- The fields of `hybrid_search`, with the bounds of `HybridSearchInput`. -/
def hybridSearchInput : List (SchemaField F) :=
  [{ name := "query"
     type := someUpTo 4000 },
   { name := "es_index"
     type := upTo 200 },
   { name := "vector_collection"
     type := upTo 200 },
   { name := "top_k"
     type := .int 1 50
     default := some (.int 10) },
   { name := "rrf_k"
     type := .int 10 200
     default := some (.int 60) }]

omit [UnicodeDb] in
/-- The fields of `customer.build_context`, with the bounds of
`CustomerContextInput`. -/
def customerContextInput : List (SchemaField F) :=
  [{ name := "customer_id"
     type := .str
       { minLength := 1
         maxLength := some 64
         chars := isCustomerIdChar } },
   { name := "question"
     type := someUpTo 2000 },
   { name := "include_orders"
     type := .bool
     default := some (.bool true) },
   { name := "include_tickets"
     type := .bool
     default := some (.bool true) },
   { name := "include_docs"
     type := .bool
     default := some (.bool true) },
   { name := "recent_orders_limit"
     type := .int 1 20
     default := some (.int 5) }]

/-- The fields of the input model of each of the ten tools. -/
def fields [PyFloat F] : Builtin → List (SchemaField F)
  | ping => pingInput
  | postgresQuery => postgresQueryInput
  | elasticsearchSearch => elasticsearchSearchInput
  | vectorSearch => vectorSearchInput
  | s3Get => s3GetInput
  | s3Put => s3PutInput
  | httpFetch => httpFetchInput
  | semanticSearch => semanticSearchInput
  | hybridSearch => hybridSearchInput
  | customerContext => customerContextInput

variable [PyFloat F]

/-- A built-in tool with its input schema. -/
def validated (py : Library F) (b : Builtin) : Tool F :=
  b.tool fun b => modelValidate py b.fields

/-- The bounds come first, then the schema. -/
theorem validated_ok_iff {py : Library F} {b : Builtin} {arguments : List (String × Value F)}
    {x : BaseModel F} : (b.validated py).validate arguments = .ok x ↔
      Bounded arguments ∧ modelValidate py b.fields arguments = .ok x := by
  rw [Tool.validate]
  by_cases hbounded : Bounded arguments
  · rw [boundArguments_ok_iff.mpr ⟨hbounded, rfl⟩]
    simp only [hbounded, true_and]
    cases hmodel : modelValidate py b.fields arguments with
    | ok y => simp [validated, tool, hmodel]
    | error rejection => cases rejection <;> simp [validated, tool, hmodel]
  · cases hbounds : boundArguments arguments with
    | error e => simp [hbounded]
    | ok bounded => exact absurd (boundArguments_ok_iff.mp hbounds).1 hbounded

end Builtin

end Tools

/-! ## A library of whole floats

For runs on concrete arguments. -/

namespace Validation

open PyJson PyText Errors Tools Server

/-- The value is no list and no dictionary, so it holds no further value. -/
def isScalar {F : Type} : Value F → Bool
  | .none => true
  | .bool _ => true
  | .int _ => true
  | .float _ => true
  | .str _ => true
  | .list _ => false
  | .dict _ => false
  | .other _ _ => false

/-- A value that holds no other one is JSON, and is well formed. -/
theorem json_of_isScalar {F : Type} {v : Value F} (h : isScalar v = true) : v.Wf ∧ v.Native := by
  cases v with
  | list xs => cases h
  | dict kvs => cases h
  | other typeName text => cases h
  | _ => exact ⟨trivial, trivial⟩

/-- A model that is written in JSON as it is if it is flat. -/
def flatModel {F : Type} (dump : List (String × Value F)) : BaseModel F :=
  if h : (dump.map Prod.fst).Nodup ∧ ∀ kv ∈ dump, isScalar kv.2 = true then
    { dump
      dumpJson := dump
      wf := ⟨h.1, Value.wfMembers_iff.mpr fun kv hkv => (json_of_isScalar (h.2 kv hkv)).1⟩
      native := Value.nativeMembers_iff.mpr fun kv hkv => (json_of_isScalar (h.2 kv hkv)).2 }
  else { BaseModel.empty with dump }

/-- A library for tests: Python's white space, floats that are whole numbers,
and numbers and booleans that are taken as they are. -/
def wholeLibrary : Library WholeFloat where
  space := isSpace
  toInt
    | .int n => some n
    | .float x => some x.whole
    | _ => none
  rejection _ := .schema ⟨none, "Field required"⟩
  isSpace_of_space _ h := h
  toFloat
    | .float x => some x
    | .int n => some ⟨n⟩
    | _ => none
  toBool
    | .bool b => some b
    | _ => none
  between lo hi x := lo ≤ x.whole ∧ x.whole ≤ hi
  toModel := flatModel
  dump_toModel dump := by
    unfold flatModel
    split <;> rfl
  toInt_int _ := rfl
  toInt_whole n _ := by simp [PyFloat.ofRat]
  toFloat_float _ := rfl
  toFloat_int n _ := by simp [PyFloat.ofRat]
  toBool_bool _ := rfl
  between_whole lo hi n _ := by simp [PyFloat.ofRat]

end Validation
