import AtlasMcp.InputSchemas

/-!
# Control characters in validated arguments

`scrubText` keeps control characters out of the message of a ping.  No other field has it: the
rest of the built-in tools take what the library has stripped, as long as it is short enough.
`clean_iff` lists the fields that let control characters through; the texts in them are all
that matters.
-/

namespace PyJson.Value

variable {F : Type}

mutual

/-- The texts in a value at any depth, the names of members included. -/
def strings : Value F → List String
  | str s => [s]
  | list xs => stringsOfItems xs
  | dict kvs => stringsOfMembers kvs
  | _ => []

/-- The texts in the items of a list, in their order. -/
def stringsOfItems : List (Value F) → List String
  | [] => []
  | v :: xs => v.strings ++ stringsOfItems xs

/-- The texts in the members of a dictionary: its keys and what is in its
values. -/
def stringsOfMembers : List (String × Value F) → List String
  | [] => []
  | (k, v) :: kvs => k :: (v.strings ++ stringsOfMembers kvs)

end

@[simp]
theorem strings_none : (none : Value F).strings = [] := rfl

@[simp]
theorem strings_bool (b : Bool) : (bool b : Value F).strings = [] := rfl

@[simp]
theorem strings_int (n : ℤ) : (int n : Value F).strings = [] := rfl

@[simp]
theorem strings_float (x : F) : (float x).strings = [] := rfl

@[simp]
theorem strings_str (s : String) : (str s : Value F).strings = [s] := rfl

@[simp]
theorem strings_list (xs : List (Value F)) : (list xs).strings = xs.flatMap strings := by
  rw [strings]
  induction xs with
  | nil => rfl
  | cons v xs ih => rw [stringsOfItems, ih, List.flatMap_cons]

/-- The texts of a dictionary are its keys and those of its values. -/
@[simp]
theorem strings_dict (kvs : List (String × Value F)) :
    (dict kvs).strings = kvs.flatMap fun kv => kv.1 :: kv.2.strings := by
  rw [strings]
  induction kvs with
  | nil => rfl
  | cons kv kvs ih => rw [stringsOfMembers, ih, List.flatMap_cons, List.cons_append]

end PyJson.Value

namespace Validation

open PyJson Errors Tools Server

variable {F : Type} [PyFloat F] {py : Library F} {t : FieldType F} {v w : Value F}

/-- The texts that a field of this type keeps of an argument: without the
white space around them, and without the members of a dictionary that are
overwritten by one of the same name. -/
def FieldType.keptTexts (py : Library F) : FieldType F → Value F → List String
  | .str rule, v => (text? v).toList.map fun s => rule.trim (py.stripped s)
  | .choice _, v => (text? v).toList
  | .texts, v => (((items? v).getD []).filterMap text?).map py.stripped
  | .values, v => v.strings
  | .object, v => v.strings
  | .namedValues, v =>
      (named py ((members? v).getD [])).flatMap fun kv => kv.1 :: kv.2.strings
  | .namedTexts, v =>
      (named py (((members? v).getD []).filterMap fun kv => (text? kv.2).map (kv.1, ·))).flatMap
        fun kv => [kv.1, py.stripped kv.2]
  | .int _ _, _ => []
  | .float _ _, _ => []
  | .bool, _ => []
  | .floats _, _ => []

/-- The texts of what is read are the texts that are kept. -/
theorem strings_read (h : t.read py v = .ok w) : w.strings = t.keptTexts py v := by
  cases t with
  | str rule =>
      obtain ⟨s, t, rfl, -, hcheck, rfl⟩ := read_str_eq_ok h
      simp [FieldType.keptTexts, text?, rule.eq_trim _ _ hcheck]
  | choice options =>
      obtain ⟨s, hs, rfl⟩ := Option.map_eq_some_iff.mp (orInvalid_eq_ok_iff.mp h)
      obtain ⟨hs, -⟩ := Option.filter_eq_some_iff.mp hs
      simp [FieldType.keptTexts, hs]
  | texts =>
      obtain ⟨ts, hts, rfl⟩ := Option.map_eq_some_iff.mp (orInvalid_eq_ok_iff.mp h)
      obtain ⟨xs, hxs, hts⟩ := Option.bind_eq_some_iff.mp hts
      simp [FieldType.keptTexts, hxs, filterMap_of_mapM hts, List.flatMap_map,
        ← List.map_eq_flatMap]
  | values =>
      obtain ⟨xs, hxs, rfl⟩ := Option.map_eq_some_iff.mp (orInvalid_eq_ok_iff.mp h)
      rw [FieldType.keptTexts, items?_eq_some_iff.mp hxs]
  | object =>
      obtain ⟨kvs, hkvs, rfl⟩ := Option.map_eq_some_iff.mp (orInvalid_eq_ok_iff.mp h)
      rw [FieldType.keptTexts, members?_eq_some_iff.mp hkvs]
  | namedValues =>
      obtain ⟨kvs, hkvs, rfl⟩ := Option.map_eq_some_iff.mp (orInvalid_eq_ok_iff.mp h)
      simp [FieldType.keptTexts, hkvs]
  | namedTexts =>
      obtain ⟨kvs, hkvs, rfl⟩ := Option.map_eq_some_iff.mp (orInvalid_eq_ok_iff.mp h)
      obtain ⟨members, hmembers, hkvs⟩ := Option.bind_eq_some_iff.mp hkvs
      simp [FieldType.keptTexts, hmembers, filterMap_of_mapM hkvs, List.flatMap_map]
  | int ge le =>
      obtain ⟨n, -, rfl⟩ := Option.map_eq_some_iff.mp (orInvalid_eq_ok_iff.mp h)
      rfl
  | float ge le =>
      obtain ⟨x, -, rfl⟩ := Option.map_eq_some_iff.mp (orInvalid_eq_ok_iff.mp h)
      rfl
  | bool =>
      obtain ⟨b, -, rfl⟩ := Option.map_eq_some_iff.mp (orInvalid_eq_ok_iff.mp h)
      rfl
  | floats minLength =>
      obtain ⟨xs, -, rfl⟩ := Option.map_eq_some_iff.mp (orInvalid_eq_ok_iff.mp h)
      simp [FieldType.keptTexts, List.flatMap_map]

/-- A null has no texts. -/
theorem keptTexts_none : t.keptTexts py .none = [] := by
  cases t <;> rfl

/-- What a field has read has the texts that its type keeps, and a field that
was left empty has none. -/
theorem strings_of_read {nullable : Bool}
    (h : nullable = true ∧ v = .none ∧ w = .none ∨ t.read py v = .ok w) :
    w.strings = t.keptTexts py v := by
  rcases h with ⟨-, rfl, rfl⟩ | h
  · rw [keptTexts_none, Value.strings_none]
  · exact strings_read h

/-- Whatever a field of this type is read as, its texts are clean.  This is a
property of the type alone, for every library and every value. -/
def FieldType.Guarded (t : FieldType F) : Prop :=
  ∀ (py : Library F) (v w : Value F), t.read py v = .ok w → ∀ s ∈ w.strings, Clean s

/-- A type that keeps no text lets no control character through. -/
theorem guarded_of_textless (h : ∀ (py : Library F) v, t.keptTexts py v = []) : t.Guarded := by
  intro py v w hread s hs
  rw [strings_read hread, h] at hs
  cases hs

@[simp]
theorem guarded_int (ge le : ℤ) : (FieldType.int ge le : FieldType F).Guarded :=
  guarded_of_textless fun _ _ => rfl

@[simp]
theorem guarded_float (ge le : ℚ) : (FieldType.float ge le : FieldType F).Guarded :=
  guarded_of_textless fun _ _ => rfl

@[simp]
theorem guarded_bool : (FieldType.bool : FieldType F).Guarded :=
  guarded_of_textless fun _ _ => rfl

@[simp]
theorem guarded_floats (minLength : ℕ) : (FieldType.floats minLength : FieldType F).Guarded :=
  guarded_of_textless fun _ _ => rfl

/-- An enumeration whose texts are clean lets nothing else through. -/
theorem guarded_choice {options : List String} (h : ∀ s ∈ options, Clean s) :
    (FieldType.choice options : FieldType F).Guarded := by
  intro py v w hread s hs
  obtain ⟨o, ho, rfl⟩ := Option.map_eq_some_iff.mp (orInvalid_eq_ok_iff.mp hread)
  obtain ⟨-, hmem⟩ := Option.filter_eq_some_iff.mp ho
  obtain rfl : s = o := by simpa using hs
  exact h s (by simpa using hmem)

/-- A text is guarded where what its rule takes and its validator returns is
clean. -/
theorem guarded_str {rule : TextRule F}
    (h : ∀ s t, rule.fits s = true → rule.check s = .ok t → Clean t) :
    (FieldType.str rule).Guarded := by
  intro py v w hread s hs
  obtain ⟨given, t, rfl, hfits, hcheck, rfl⟩ := read_str_eq_ok hread
  obtain rfl : s = t := by simpa using hs
  exact h _ s hfits hcheck

end Validation

namespace Tools.Builtin

open PyJson Validation

section Schemas

variable {F : Type} [PyFloat F] [UnicodeDb]

/-- The fields that take any text. -/
def unguarded : Builtin → List String
  | ping => []
  | postgresQuery => ["sql", "params"]
  | elasticsearchSearch => ["index", "query", "fields"]
  | vectorSearch => ["collection", "filter"]
  | s3Get => ["key"]
  | s3Put => ["key", "content", "content_type"]
  | httpFetch => ["url", "headers", "body"]
  | semanticSearch => ["query", "collection"]
  | hybridSearch => ["query", "es_index", "vector_collection"]
  | customerContext => ["question"]

omit [UnicodeDb] in
theorem clean_of_mem_allowedMethods {s : String} (h : s ∈ allowedMethods) : Clean s := by
  have hall : ∀ s ∈ allowedMethods, Clean s := by simp [allowedMethods, Clean, isControlChar]
  exact hall s h

omit [UnicodeDb] in
/-- The characters of a customer id are no control characters. -/
theorem isControlChar_of_isCustomerIdChar {c : Char} (h : isCustomerIdChar c = true) :
    isControlChar c = false := by
  have hrange (lo hi : Char) (h : c.val ≥ lo.val ∧ c.val ≤ hi.val) :
      lo.toNat ≤ c.toNat ∧ c.toNat ≤ hi.toNat :=
    ⟨UInt32.le_iff_toNat_le.mp h.1, UInt32.le_iff_toNat_le.mp h.2⟩
  have hprintable : 0x20 ≤ c.toNat ∧ c.toNat < 0x7f := by
    simp only [isCustomerIdChar, Char.isAlphanum, Char.isAlpha, Char.isUpper, Char.isLower,
      Char.isDigit, Bool.or_eq_true, Bool.and_eq_true, decide_eq_true_eq] at h
    rcases h with (((h | h) | h) | rfl) | rfl
    · exact (hrange 'A' 'Z' h).imp (le_trans (by decide)) (lt_of_le_of_lt · (by decide))
    · exact (hrange 'a' 'z' h).imp (le_trans (by decide)) (lt_of_le_of_lt · (by decide))
    · exact (hrange '0' '9' h).imp (le_trans (by decide)) (lt_of_le_of_lt · (by decide))
    · decide
    · decide
  simp [isControlChar]
  omega

/-- No other field takes one with a control character. -/
theorem guarded_of_not_unguarded (b : Builtin) :
    ∀ f ∈ (b.fields : List (SchemaField F)), f.name ∈ b.unguarded ∨ f.type.Guarded := by
  cases b with
  | ping =>
      simp only [fields, pingInput, List.forall_mem_cons]
      have hmode : ∀ s ∈ ["echo", "silent"], Clean s := by simp [Clean, isControlChar]
      refine ⟨Or.inr (guarded_str fun s t _ h => ?_), Or.inr (guarded_choice hmode), by simp⟩
      obtain ⟨hclean, rfl⟩ := messageMustBeClean_eq_ok h
      exact hclean
  | httpFetch =>
      simp only [fields, httpFetchInput, List.forall_mem_cons]
      refine ⟨Or.inl (by decide), Or.inr (guarded_str fun s t _ h => ?_), by simp [unguarded]⟩
      exact clean_of_mem_allowedMethods (methodAllowed_eq_ok (rejecting_eq_ok h)).1
  | customerContext =>
      simp only [fields, customerContextInput, List.forall_mem_cons]
      refine ⟨Or.inr (guarded_str fun s t hfits h => ?_), by simp [unguarded]⟩
      obtain rfl := Except.ok.inj h
      have hchars : ∀ c ∈ s.toList, isCustomerIdChar c = true := by
        simpa using (Bool.and_eq_true_iff.mp hfits).2
      exact fun c hc => isControlChar_of_isCustomerIdChar (hchars c hc)
  | postgresQuery => simp [fields, postgresQueryInput, unguarded]
  | elasticsearchSearch => simp [fields, elasticsearchSearchInput, unguarded]
  | vectorSearch => simp [fields, vectorSearchInput, unguarded]
  | s3Get => simp [fields, s3GetInput, unguarded]
  | s3Put => simp [fields, s3PutInput, unguarded]
  | semanticSearch => simp [fields, semanticSearchInput, unguarded]
  | hybridSearch => simp [fields, hybridSearchInput, unguarded]

/-- The schemas themselves have none. -/
theorem clean_field (b : Builtin) : ∀ f ∈ (b.fields : List (SchemaField F)),
    Clean f.name ∧ ∀ w, f.default = some w → ∀ s ∈ w.strings, Clean s := by
  cases b with
  | ping => simp [fields, pingInput, Clean, isControlChar]
  | postgresQuery => simp [fields, postgresQueryInput, Clean, isControlChar]
  | elasticsearchSearch => simp [fields, elasticsearchSearchInput, Clean, isControlChar]
  | vectorSearch => simp [fields, vectorSearchInput, Clean, isControlChar]
  | s3Get => simp [fields, s3GetInput, Clean, isControlChar]
  | s3Put => simp [fields, s3PutInput, Clean, isControlChar]
  | httpFetch => simp [fields, httpFetchInput, Clean, isControlChar]
  | semanticSearch => simp [fields, semanticSearchInput, Clean, isControlChar]
  | hybridSearch => simp [fields, hybridSearchInput, Clean, isControlChar]
  | customerContext => simp [fields, customerContextInput, Clean, isControlChar]

/-- **Which control characters are let through.**  Of the validated arguments
of a built-in tool, no text at any depth has a control character if and only
if none that an unguarded field keeps of its argument has one. -/
theorem clean_iff {py : Library F} {b : Builtin} {arguments : List (String × Value F)}
    {x : BaseModel F} (h : (b.validated py).validate arguments = .ok x) :
    (∀ s ∈ (Value.dict x.dump).strings, Clean s) ↔
      ∀ f ∈ (b.fields : List (SchemaField F)), f.name ∈ b.unguarded →
        ∀ v, dictGet arguments f.name = some v → ∀ s ∈ f.type.keptTexts py v, Clean s := by
  have hdump := dumpOf_of_modelValidate (validated_ok_iff.mp h).2
  simp only [Value.strings_dict, List.mem_flatMap, List.mem_cons]
  constructor
  · intro hclean f hf _ v hv s hs
    obtain ⟨w, hw⟩ := (exists_dumpOf_iff.mp ⟨x.dump, hdump⟩).2 f hf
    have hmem : (f.name, w) ∈ x.dump := (mem_dump_iff hdump).mpr ⟨f, hf, rfl, hw⟩
    refine hclean s ⟨(f.name, w), hmem, Or.inr ?_⟩
    rcases field_read_eq_ok hw with ⟨hmissing, -⟩ | ⟨v', hv', hread⟩
    · rw [hv] at hmissing
      cases hmissing
    · obtain rfl := Option.some.inj (hv.symm.trans hv')
      rwa [strings_of_read hread]
  · rintro hkept s ⟨⟨name, w⟩, hmem, hs⟩
    obtain ⟨f, hf, rfl, hw⟩ := (mem_dump_iff hdump).mp hmem
    obtain ⟨hname, hdefault⟩ := clean_field b f hf
    rcases hs with rfl | hs
    · exact hname
    rcases field_read_eq_ok hw with ⟨-, hw⟩ | ⟨v, hv, hread⟩
    · exact hdefault w hw s hs
    rcases guarded_of_not_unguarded b f hf with hunguarded | hguarded
    · exact hkept f hf hunguarded v hv s (strings_of_read hread ▸ hs)
    · rcases hread with ⟨-, -, rfl⟩ | hread
      · cases hs
      · exact hguarded py v w hread s hs

end Schemas

/-- The arguments of a put. -/
def putText (content : String) : List (String × Value WholeFloat) :=
  [("key", .str "notes.txt"), ("content", .str content)]

/-- What they are validated as if nothing is to be stripped. -/
def putModel (content : String) : BaseModel WholeFloat :=
  wholeLibrary.toModel
    [("key", .str "notes.txt"), ("content", .str content), ("content_type", .str "text/plain")]

/-- A null byte in the content of a put. -/
theorem null_byte_accepted :
    (s3Put.validated wholeLibrary).validate (putText "a\x00b") = .ok (putModel "a\x00b") ∧
      ¬ ∀ s ∈ (Value.dict (putModel "a\x00b").dump).strings, Clean s := by
  refine ⟨rfl, fun hclean => ?_⟩
  have hcontent : Clean "a\x00b" :=
    hclean _ (by simp [putModel, wholeLibrary.dump_toModel])
  simp [Clean, isControlChar] at hcontent

/-- A put of two lines of text. -/
theorem lines_clean :
    (s3Put.validated wholeLibrary).validate (putText "one\ntwo") = .ok (putModel "one\ntwo") ∧
      ∀ s ∈ (Value.dict (putModel "one\ntwo").dump).strings, Clean s := by
  have hvalidated : (s3Put.validated wholeLibrary).validate (putText "one\ntwo") =
      .ok (putModel "one\ntwo") := rfl
  have hkey : wholeLibrary.stripped "notes.txt" = "notes.txt" := by decide +kernel
  have hcontent : wholeLibrary.stripped "one\ntwo" = "one\ntwo" := by decide +kernel
  refine ⟨hvalidated, (clean_iff hvalidated).mpr ?_⟩
  simp only [fields, s3PutInput, List.forall_mem_cons]
  refine ⟨fun _ v hv s hs => ?_, fun _ v hv s hs => ?_, fun _ v hv => (nomatch hv),
    List.forall_mem_nil _⟩
  · obtain rfl := Option.some.inj hv
    obtain rfl := (List.mem_singleton.mp hs).trans hkey
    simp [Clean, isControlChar]
  · obtain rfl := Option.some.inj hv
    obtain rfl := (List.mem_singleton.mp hs).trans hcontent
    simp [Clean, isControlChar]

end Tools.Builtin
