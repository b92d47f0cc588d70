import AtlasMcp.InputSchemas

/-!
# Arguments that a published schema allows

`list_tools` publishes the input schema of each tool.  What it says of the fields is checked by
`validate`, but not before the ceilings of `boundArguments`, of which no schema speaks; and the
validation library strips texts before it measures them, and runs validators that it does not
publish.  `validate_published_iff` says that these are the only reasons to reject a call that the
published schema allows.
-/

namespace Validation

open PyJson Errors Tools Server TreeLevels

variable {F : Type} [PyFloat F] {py : Library F} {t : FieldType F} {v w : Value F}

/-! ## What is published -/

/-- The JSON schema of a type.  A float that is whole is an integer too. -/
def FieldType.Published (py : Library F) : FieldType F → Value F → Prop
  | .str rule, v => ∃ s, v = .str s ∧ rule.fits s = true
  | .int ge le, v => ∃ n : ℤ, (v = .int n ∨ v = .float (PyFloat.ofRat n)) ∧ ge ≤ n ∧ n ≤ le
  | .float ge le, v => (∃ x, v = .float x ∧ py.between ge le x = true) ∨
      ∃ n : ℤ, v = .int n ∧ ge ≤ n ∧ n ≤ le
  | .bool, v => ∃ b, v = .bool b
  | .choice options, v => ∃ s ∈ options, v = .str s
  | .floats minLength, v => ∃ xs, v = .list xs ∧ minLength ≤ xs.length ∧
      ∀ x ∈ xs, (∃ y, x = .float y) ∨ ∃ n, x = .int n
  | .texts, v => ∃ xs, v = .list xs ∧ ∀ x ∈ xs, ∃ s, x = .str s
  | .values, v => ∃ xs, v = .list xs
  | .object, v => ∃ kvs, v = .dict kvs
  | .namedValues, v => ∃ kvs, v = .dict kvs
  | .namedTexts, v => ∃ kvs, v = .dict kvs ∧ ∀ kv ∈ kvs, ∃ s, kv.2 = .str s

/-- What is checked besides: that the stripped text is still long enough and
its validator accepts it, and that the integers in a vector can be read as
floats. -/
def FieldType.PassesChecks (py : Library F) : FieldType F → Value F → Prop
  | .str rule, v => ∀ s, v = .str s → rule.minLength ≤ (py.stripped s).toList.length ∧
      ∃ t, rule.check (py.stripped s) = .ok t
  | .floats _, v => ∀ xs, v = .list xs → ∀ n, .int n ∈ xs → ∃ x, py.toFloat (.int n) = some x
  | _, _ => True

/-- Whole numbers between the bounds are floats. -/
def FieldType.Exact : FieldType F → Prop
  | .int ge le => -2 ^ 53 ≤ ge ∧ le ≤ 2 ^ 53
  | .float ge le => -2 ^ 53 ≤ ge ∧ le ≤ 2 ^ 53
  | _ => True

/-- The JSON schema of a model: no other members, the required ones, and the
type of each. -/
structure Published (py : Library F) (fields : List (SchemaField F))
    (arguments : List (String × Value F)) : Prop where
  only : Pydantic.onlyFields arguments (fields.map SchemaField.name) = true
  required : ∀ f ∈ fields, f.default = none → ∃ v, dictGet arguments f.name = some v
  typed : ∀ f ∈ fields, ∀ v, dictGet arguments f.name = some v →
    (f.nullable = true ∧ v = .none) ∨ f.type.Published py v

/-! ## Reading what is published -/

/-- Stripping keeps a text to its longest length and to its characters. -/
theorem fits_stripped_iff {rule : TextRule F} {s : String} (h : rule.fits s = true) :
    rule.fits (py.stripped s) = true ↔ rule.minLength ≤ (py.stripped s).toList.length := by
  have hpart := py.stripped_infix s
  simp only [TextRule.fits, Bool.and_eq_true, decide_eq_true_eq, List.all_eq_true] at h ⊢
  obtain ⟨⟨-, hmax⟩, hchars⟩ := h
  refine ⟨fun h => h.1.1, fun hmin => ⟨⟨hmin, ?_⟩, fun c hc => hchars c (hpart.subset hc)⟩⟩
  cases hlimit : rule.maxLength with
  | none => rfl
  | some limit =>
      have hle : s.toList.length ≤ limit := by simpa [hlimit] using hmax
      simpa using hpart.length_le.trans hle

omit [PyFloat F] in
/-- A value that was mapped is valid where the value was. -/
theorem exists_orInvalid_map_iff {α β : Type} {o : Option α} {g : α → β} :
    (∃ b, orInvalid (F := F) (o.map g) = .ok b) ↔ ∃ a, o = some a := by
  cases o <;> simp [orInvalid]

/-- A text is accepted if it is long enough once it was stripped, and its
validator takes it. -/
theorem exists_read_str_iff {rule : TextRule F} {s : String} (h : rule.fits s = true) :
    (∃ w, (FieldType.str rule).read py (.str s) = .ok w) ↔
      rule.minLength ≤ (py.stripped s).toList.length ∧
        ∃ t, rule.check (py.stripped s) = .ok t := by
  rw [← fits_stripped_iff h]
  constructor
  · rintro ⟨w, hw⟩
    obtain ⟨given, t, hgiven, hfits, hcheck, -⟩ := read_str_eq_ok hw
    obtain rfl := Value.str.inj hgiven
    exact ⟨hfits, t, hcheck⟩
  · rintro ⟨hfits, t, hcheck⟩
    refine ⟨.str t, ?_⟩
    rw [FieldType.read, text?]
    simp [hfits, hcheck, Except.map]

/-- A whole number is read as an integer within the bounds. -/
theorem toInt_of_published {n : ℤ} (hn : |n| ≤ 2 ^ 53)
    (hv : v = .int n ∨ v = .float (PyFloat.ofRat n)) : py.toInt v = some n := by
  rcases hv with rfl | rfl
  · exact py.toInt_int n
  · exact py.toInt_whole n hn

/-- A number between the bounds is read as a float between them. -/
theorem toFloat_of_published {ge le : ℚ} (hge : -2 ^ 53 ≤ ge) (hle : le ≤ 2 ^ 53)
    (h : (FieldType.float ge le).Published py v) :
    ∃ x, py.toFloat v = some x ∧ py.between ge le x = true := by
  rcases h with ⟨x, rfl, hx⟩ | ⟨n, rfl, hlo, hhi⟩
  · exact ⟨x, py.toFloat_float x, hx⟩
  · have hn : |n| ≤ 2 ^ 53 := by
      have hcast : |(n : ℚ)| ≤ 2 ^ 53 := abs_le.mpr ⟨hge.trans hlo, hhi.trans hle⟩
      exact_mod_cast hcast
    exact ⟨_, py.toFloat_int n hn, (py.between_whole ge le n hn).mpr ⟨hlo, hhi⟩⟩

/-- A vector is accepted if its integers are ones that a float can hold. -/
theorem exists_read_floats_iff {minLength : ℕ} {xs : List (Value F)}
    (hlength : minLength ≤ xs.length)
    (hxs : ∀ x ∈ xs, (∃ y, x = .float y) ∨ ∃ n, x = .int n) :
    (∃ w, (FieldType.floats minLength).read py (.list xs) = .ok w) ↔
      ∀ n, .int n ∈ xs → ∃ x, py.toFloat (.int n) = some x := by
  rw [FieldType.read, exists_orInvalid_map_iff, items?, Option.bind_some]
  constructor
  · rintro ⟨ys, hys⟩ n hn
    obtain ⟨hys, -⟩ := Option.filter_eq_some_iff.mp hys
    exact exists_mapM_iff.mp ⟨ys, hys⟩ _ hn
  · intro hints
    obtain ⟨ys, hys⟩ := exists_mapM_iff.mpr fun x hx => by
      rcases hxs x hx with ⟨y, rfl⟩ | ⟨n, rfl⟩
      · exact ⟨y, py.toFloat_float y⟩
      · exact hints n hx
    have hsame : xs.length = ys.length := by
      simpa using congrArg List.length (mapM_eq_some_iff.mp hys)
    exact ⟨ys, Option.filter_eq_some_iff.mpr ⟨hys, by simpa using hsame ▸ hlength⟩⟩

/-- **What is published of a type.**  A value that its schema allows is read
if it passes the other checks. -/
theorem exists_read_iff (hexact : t.Exact) (h : t.Published py v) :
    (∃ w, t.read py v = .ok w) ↔ t.PassesChecks py v := by
  cases t with
  | str rule =>
      obtain ⟨s, rfl, hfits⟩ := h
      rw [exists_read_str_iff hfits, FieldType.PassesChecks]
      simp
  | floats minLength =>
      obtain ⟨xs, rfl, hlength, hxs⟩ := h
      rw [exists_read_floats_iff hlength hxs, FieldType.PassesChecks]
      simp
  | int ge le =>
      obtain ⟨n, hv, hge, hle⟩ := h
      have hn : |n| ≤ 2 ^ 53 := abs_le.mpr ⟨hexact.1.trans hge, hle.trans hexact.2⟩
      rw [FieldType.read, exists_orInvalid_map_iff, toInt_of_published hn hv]
      exact iff_of_true ⟨n, by simp [hge, hle]⟩ trivial
  | float ge le =>
      obtain ⟨x, hx, hbetween⟩ := toFloat_of_published hexact.1 hexact.2 h
      rw [FieldType.read, exists_orInvalid_map_iff, hx]
      exact iff_of_true ⟨x, by simp [hbetween]⟩ trivial
  | bool =>
      obtain ⟨b, rfl⟩ := h
      exact iff_of_true ⟨.bool b, by rw [FieldType.read, py.toBool_bool]; rfl⟩ trivial
  | choice options =>
      obtain ⟨s, hs, rfl⟩ := h
      rw [FieldType.read, exists_orInvalid_map_iff, text?]
      exact iff_of_true ⟨s, Option.filter_eq_some_iff.mpr ⟨rfl, by simpa using hs⟩⟩ trivial
  | texts =>
      obtain ⟨xs, rfl, hxs⟩ := h
      rw [FieldType.read, exists_orInvalid_map_iff, items?, Option.bind_some, exists_mapM_iff]
      simp only [text?_eq_some_iff]
      exact iff_of_true hxs trivial
  | values =>
      obtain ⟨xs, rfl⟩ := h
      exact iff_of_true ⟨.list xs, rfl⟩ trivial
  | object =>
      obtain ⟨kvs, rfl⟩ := h
      exact iff_of_true ⟨.dict kvs, rfl⟩ trivial
  | namedValues =>
      obtain ⟨kvs, rfl⟩ := h
      exact iff_of_true ⟨.dict (named py kvs), rfl⟩ trivial
  | namedTexts =>
      obtain ⟨kvs, rfl, hkvs⟩ := h
      rw [FieldType.read, exists_orInvalid_map_iff, members?, Option.bind_some, exists_mapM_iff]
      refine iff_of_true (fun kv hkv => ?_) trivial
      obtain ⟨s, hs⟩ := hkvs kv hkv
      exact ⟨(kv.1, s), by rw [hs]; rfl⟩

/-- A null passes them. -/
theorem passesChecks_none : t.PassesChecks py .none := by
  cases t with
  | str rule => exact nofun
  | floats minLength => exact nofun
  | _ => trivial

/-! ## The ceilings -/

section Ceilings

variable {fields : List (SchemaField F)} {arguments : List (String × Value F)}

/-- The bounds of `boundArguments` besides the depth. -/
structure WithinCeilings (arguments : List (String × Value F)) : Prop where
  bytes : (Tools.utf8 (dumps (.dict arguments))).length ≤ maxArgumentBytes
  keys : ∀ n kvs, Below children n (.dict arguments) (.dict kvs) → kvs.length ≤ maxObjectKeys
  items : ∀ n xs, Below children n (.dict arguments) (.list xs) → xs.length ≤ maxListLength

/-- Where the arguments do not nest deeper than the bound allows, the bounds
are the other ceilings. -/
theorem bounded_iff_withinCeilings
    (hlevels : ∀ n v, Below children n (.dict arguments) v → n ≤ maxNestingDepth) :
    Bounded arguments ↔ WithinCeilings arguments :=
  ⟨fun h => ⟨h.bytes, h.keys, h.items⟩, fun h => ⟨h.bytes, hlevels, h.keys, h.items⟩⟩

/-- A field of arguments that the schema allows is read if its argument passes
the checks. -/
theorem exists_field_read_iff {f : SchemaField F} (hexact : f.type.Exact)
    (hpublished : Published py fields arguments) (hf : f ∈ fields) :
    (∃ w, f.read py arguments = .ok w) ↔
      ∀ v, dictGet arguments f.name = some v → f.type.PassesChecks py v := by
  unfold SchemaField.read
  split
  next v hv =>
    simp only [hv, Option.some.injEq, forall_eq']
    split
    next hnull =>
      obtain rfl := isNull_iff.mp (Bool.and_eq_true_iff.mp hnull).2
      exact iff_of_true ⟨.none, rfl⟩ passesChecks_none
    next hnull =>
      rcases hpublished.typed f hf v hv with ⟨hnullable, rfl⟩ | htype
      · exact absurd (by simp [hnullable, isNull]) hnull
      · exact exists_read_iff hexact htype
  next hmissing =>
    refine iff_of_true ?_ fun v hv => by simp [hmissing] at hv
    cases hdefault : f.default with
    | none =>
        obtain ⟨v, hv⟩ := hpublished.required f hf hdefault
        rw [hmissing] at hv
        cases hv
    | some w => exact ⟨w, rfl⟩

end Ceilings

end Validation

namespace Tools.Builtin

open PyJson Server Validation TreeLevels

section Schemas

variable {F : Type} [PyFloat F] [UnicodeDb]

/-- The bounds in the schemas are small. -/
theorem exact_field (b : Builtin) : ∀ f ∈ (b.fields : List (SchemaField F)), f.type.Exact := by
  cases b with
  | ping => simp [fields, pingInput, FieldType.Exact]
  | postgresQuery => simp [fields, postgresQueryInput, FieldType.Exact]
  | elasticsearchSearch => simp [fields, elasticsearchSearchInput, FieldType.Exact, upTo]
  | vectorSearch => simp [fields, vectorSearchInput, FieldType.Exact, upTo]
  | s3Get => simp [fields, s3GetInput, FieldType.Exact, upTo]
  | s3Put => simp [fields, s3PutInput, FieldType.Exact, upTo]
  | httpFetch => norm_num [fields, httpFetchInput, FieldType.Exact]
  | semanticSearch => simp [fields, semanticSearchInput, FieldType.Exact, upTo, someUpTo]
  | hybridSearch => simp [fields, hybridSearchInput, FieldType.Exact, upTo, someUpTo]
  | customerContext => simp [fields, customerContextInput, FieldType.Exact, someUpTo]

/-- **Calls that a published schema allows.**  Arguments of at most eight
levels that the schema of a built-in tool allows are accepted if and only if
they are within the ceilings and every one of them passes the checks that are
not published. -/
theorem validate_published_iff {py : Library F} {b : Builtin} {arguments : List (String × Value F)}
    (hpublished : Published py b.fields arguments)
    (hlevels : ∀ n v, Below children n (.dict arguments) v → n ≤ maxNestingDepth) :
    (∃ x, (b.validated py).validate arguments = .ok x) ↔
      WithinCeilings arguments ∧ ∀ f ∈ (b.fields : List (SchemaField F)), ∀ v,
        dictGet arguments f.name = some v → f.type.PassesChecks py v := by
  simp only [validated_ok_iff, exists_and_left, bounded_iff_withinCeilings hlevels,
    exists_modelValidate_iff, exists_dumpOf_iff, hpublished.only, true_and]
  refine and_congr_right fun _ => forall₂_congr fun f hf => ?_
  exact exists_field_read_iff (exact_field b f hf) hpublished hf

end Schemas

/-- A vector of more numbers than a list may have. -/
def longVector : List (String × Value WholeFloat) :=
  [("collection", .str "docs"), ("vector", .list (List.replicate 1001 (.int 0)))]

theorem longVector_published : Published wholeLibrary vectorSearch.fields longVector where
  only := rfl
  required := by
    simp only [fields, vectorSearchInput, List.forall_mem_cons]
    exact ⟨fun _ => ⟨_, rfl⟩, fun _ => ⟨_, rfl⟩, nofun, nofun, List.forall_mem_nil _⟩
  typed := by
    simp only [fields, vectorSearchInput, List.forall_mem_cons]
    refine ⟨fun v hv => Or.inr ?_, fun v hv => Or.inr ?_, fun v hv => (nomatch hv),
      fun v hv => (nomatch hv), List.forall_mem_nil _⟩
    · obtain rfl := Option.some.inj hv
      exact ⟨"docs", rfl, by decide⟩
    · obtain rfl := Option.some.inj hv
      refine ⟨_, rfl, by rw [List.length_replicate]; decide, fun x hx => ?_⟩
      exact Or.inr ⟨0, List.eq_of_mem_replicate hx⟩

theorem longVector_levels {n : ℕ} {v : Value WholeFloat}
    (h : Below children n (.dict longVector) v) : n ≤ 2 := by
  cases h with
  | self => decide
  | child hu h =>
      rcases List.mem_cons.mp hu with rfl | hu
      · rw [level_eq_zero rfl h]
        decide
      obtain rfl := List.mem_singleton.mp hu
      cases h with
      | self => decide
      | child hu h =>
          obtain rfl := List.eq_of_mem_replicate hu
          rw [level_eq_zero rfl h]

/-- The schema of `vector.search` allows it, and it is rejected. -/
theorem longVector_rejected :
    Published wholeLibrary vectorSearch.fields longVector ∧
      (∀ n v, Below children n (.dict longVector) v → n ≤ maxNestingDepth) ∧
        ¬ ∃ x, (vectorSearch.validated wholeLibrary).validate longVector = .ok x := by
  refine ⟨longVector_published, fun n v h => (longVector_levels h).trans (by decide), ?_⟩
  rintro ⟨x, hx⟩
  have hbelow : Below children 1 (.dict longVector) (.list (List.replicate 1001 (.int 0))) :=
    .child (List.mem_cons_of_mem _ List.mem_cons_self) (.self _)
  have hlong := (validated_ok_iff.mp hx).1.items _ _ hbelow
  rw [List.length_replicate] at hlong
  exact absurd hlong (by decide)

/-- The arguments of a read that the published schema allows. -/
theorem getLine_published : Published wholeLibrary s3Get.fields getLine where
  only := rfl
  required := by
    simp only [fields, s3GetInput, List.forall_mem_cons]
    exact ⟨fun _ => ⟨_, rfl⟩, nofun, List.forall_mem_nil _⟩
  typed := by
    simp only [fields, s3GetInput, List.forall_mem_cons]
    refine ⟨fun v hv => Or.inr ?_, fun v hv => (nomatch hv), List.forall_mem_nil _⟩
    obtain rfl := Option.some.inj hv
    exact ⟨"notes.txt", rfl, by decide⟩

theorem getLine_levels {n : ℕ} {v : Value WholeFloat} (h : Below children n (.dict getLine) v) :
    n ≤ 1 := by
  cases h with
  | self => decide
  | child hu h =>
      obtain rfl := List.mem_singleton.mp hu
      rw [level_eq_zero rfl h]

/-- A get is accepted, so it is within the ceilings. -/
theorem getLine_within : WithinCeilings getLine :=
  ((validate_published_iff getLine_published fun _ _ h => (getLine_levels h).trans (by decide)).mp
    ⟨wholeLibrary.toModel [("key", .str "notes.txt"), ("max_bytes", .int 1048576)], rfl⟩).1

end Tools.Builtin
