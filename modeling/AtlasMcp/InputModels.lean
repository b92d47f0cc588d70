import AtlasMcp.InputSchemas
import AtlasMcp.PostgresQuery

/-!
# The schemas and the inputs of the tools

The models of puts, gets and queries say what their schemas make of the arguments.  The schemas
that the tools declare are such schemas: those of the two S3 tools read what `getInput?` and
`putInput?` read, and an accepted query is one that `PostgresQueryTool` accepts.
-/

/-! ## The objects of S3

Their schemas are those with which puts and gets are modelled. -/

namespace Validation

open PyJson Errors Tools Server

variable {F : Type} [PyFloat F] {py : Library F} {arguments : List (String × Value F)}

theorem read_upTo (name : String) (maxLength : ℕ) :
    (({ name, type := upTo maxLength } : SchemaField F).read py arguments).toOption =
      (py.strField arguments name maxLength).map .str := by
  unfold SchemaField.read Pydantic.strField
  cases dictGet arguments name with
  | none => rfl
  | some v =>
      cases v with
      | str s =>
          simp only [Bool.false_and, Bool.false_eq_true, if_false, FieldType.read, upTo, text?]
          by_cases hle : (py.stripped s).toList.length ≤ maxLength
          · simp [TextRule.fits, hle, Except.map, Except.toOption]
          · simp [TextRule.fits, hle, Except.toOption]
      | _ => rfl

theorem read_upToD (name default : String) (maxLength : ℕ) :
    (({ name, type := upTo maxLength, default := some (.str default) } :
      SchemaField F).read py arguments).toOption =
      (py.strFieldD arguments name default maxLength).map .str := by
  have hread := @read_upTo F _ py arguments name maxLength
  unfold SchemaField.read at hread ⊢
  unfold Pydantic.strFieldD
  cases hgiven : dictGet arguments name with
  | none => rfl
  | some v => simpa only [hgiven] using hread

theorem read_int (name : String) (default ge le : ℤ) :
    (({ name, type := .int ge le, default := some (.int default) } :
      SchemaField F).read py arguments).toOption =
      (py.intField arguments name default ge le).map .int := by
  unfold SchemaField.read Pydantic.intField
  cases dictGet arguments name with
  | none => rfl
  | some v =>
      simp only [Bool.false_and, Bool.false_eq_true, if_false, FieldType.read]
      cases (py.toInt v).filter fun n => ge ≤ n ∧ n ≤ le with
      | none => rfl
      | some n => rfl

/-- **The schema of gets.** -/
theorem dumpOf_s3GetInput : dumpOf py Builtin.s3GetInput arguments =
    (py.getInput? arguments).map fun x => (S3GetInput.toModel x).dump := by
  simp only [dumpOf, Pydantic.getInput?, Builtin.s3GetInput, List.map_cons, List.map_nil,
    List.mapM_cons, List.mapM_nil, read_upTo, read_int]
  cases Pydantic.onlyFields arguments ["key", "max_bytes"] with
  | false => rfl
  | true =>
      cases py.strField arguments "key" 1024 with
      | none => rfl
      | some key =>
          cases py.intField arguments "max_bytes" 1048576 1 10485760 with
          | none => rfl
          | some maxBytes => rfl

/-- **The schema of puts.** -/
theorem dumpOf_s3PutInput : dumpOf py Builtin.s3PutInput arguments =
    (py.putInput? arguments).map fun x => (S3PutInput.toModel x).dump := by
  simp only [dumpOf, Pydantic.putInput?, Builtin.s3PutInput, List.map_cons, List.map_nil,
    List.mapM_cons, List.mapM_nil, read_upTo, read_upToD]
  cases Pydantic.onlyFields arguments ["key", "content", "content_type"] with
  | false => rfl
  | true =>
      cases py.strField arguments "key" 1024 with
      | none => rfl
      | some key =>
          cases py.strField arguments "content" 1000000 with
          | none => rfl
          | some content =>
              cases py.strFieldD arguments "content_type" "text/plain" 128 with
              | none => rfl
              | some contentType => rfl

end Validation

/-! ## The statement of `postgres.query`

The guard strips at least what the library has stripped before it, so it accepts a statement as
if it were given it as it is. -/

namespace PyText

section Trimming

variable {α : Type} {p q : α → Bool}

/-- To drop what the narrower condition takes first makes no difference to
what the wider one drops, at the start of a list. -/
theorem dropWhile_dropWhile_of_imp (h : ∀ a, q a = true → p a = true) (l : List α) :
    (l.dropWhile q).dropWhile p = l.dropWhile p := by
  induction l with
  | nil => rfl
  | cons a l ih =>
      by_cases hq : q a = true
      · rw [List.dropWhile_cons_of_pos hq, List.dropWhile_cons_of_pos (h a hq), ih]
      · rw [List.dropWhile_cons_of_neg hq]

theorem rdropWhile_rdropWhile_of_imp (h : ∀ a, q a = true → p a = true) (l : List α) :
    (l.rdropWhile q).rdropWhile p = l.rdropWhile p := by
  simp only [List.rdropWhile, List.reverse_reverse, dropWhile_dropWhile_of_imp h]

/-- It does not matter which end is trimmed first. -/
theorem dropWhile_rdropWhile (p q : α → Bool) (l : List α) :
    (l.rdropWhile q).dropWhile p = (l.dropWhile p).rdropWhile q := by
  induction l using List.reverseRecOn with
  | nil => rfl
  | append_singleton l a ih =>
      by_cases hq : q a = true
      · rw [List.rdropWhile_concat_pos _ _ _ hq, ih, List.dropWhile_append]
        split
        next hempty =>
          rw [List.isEmpty_iff.mp hempty]
          by_cases hp : p a = true <;> simp [hp, hq, List.rdropWhile_singleton]
        next => rw [List.rdropWhile_concat_pos _ _ _ hq]
      · rw [List.rdropWhile_concat_neg _ _ _ hq, List.dropWhile_append]
        split
        next => by_cases hp : p a = true <;> simp [hp, hq, List.rdropWhile_singleton]
        next => rw [List.rdropWhile_concat_neg _ _ _ hq]

end Trimming

end PyText

namespace Server.Pydantic

open PyText

variable {F : Type} [UnicodeDb]

omit [UnicodeDb] in
/-- Pydantic strips less than Python does, so that stripping after it comes to
the same. -/
theorem strip_stripped (py : Pydantic F) (s : String) :
    strip (py.stripped s).toList = strip s.toList := by
  rw [stripped, String.toList_ofList, strip, strip, dropWhile_rdropWhile,
    dropWhile_dropWhile_of_imp py.isSpace_of_space,
    rdropWhile_rdropWhile_of_imp py.isSpace_of_space]

/-- Whether a statement is a select is decided on the stripped text, so what
Pydantic has stripped makes no difference. -/
theorem mustBeSelect_stripped (py : Pydantic F) (s : String) :
    SelectGuard.mustBeSelect (py.stripped s) = SelectGuard.mustBeSelect s := by
  have hsame : SelectGuard.stripped (py.stripped s) = SelectGuard.stripped s := by
    rw [SelectGuard.stripped, SelectGuard.stripped, strip_stripped]
  rw [SelectGuard.mustBeSelect, SelectGuard.mustBeSelect, hsame]

end Server.Pydantic

namespace Validation

open PyJson Errors Tools Server

variable {F : Type} [PyFloat F] [UnicodeDb] {py : Library F} {arguments : List (String × Value F)}

/-- The statement of a query is the text that came in, stripped, and a
select. -/
theorem read_statement {f : SchemaField F} {rule : TextRule F} {w : Value F}
    (hdefault : f.default = none) (hnullable : f.nullable = false) (htype : f.type = .str rule)
    (hcheck : rule.check = rejecting SelectGuard.mustBeSelect)
    (h : f.read py arguments = .ok w) :
    ∃ sql out, dictGet arguments f.name = some (.str sql) ∧
      SelectGuard.mustBeSelect sql = .ok out ∧ w = .str out := by
  rcases field_read_eq_ok h with ⟨-, hw⟩ | ⟨v, hv, ⟨hnull, -⟩ | hread⟩
  · rw [hdefault] at hw
    cases hw
  · rw [hnullable] at hnull
    cases hnull
  · rw [htype] at hread
    obtain ⟨sql, out, rfl, -, haccepted, rfl⟩ := read_str_eq_ok hread
    rw [hcheck] at haccepted
    have hselect := rejecting_eq_ok haccepted
    rw [py.mustBeSelect_stripped] at hselect
    exact ⟨sql, out, hv, hselect, rfl⟩

omit [UnicodeDb] in
theorem read_list {name : String} {default : List (Value F)} {w : Value F}
    (h : ({ name, type := .values, default := some (.list default) } : SchemaField F).read py
      arguments = .ok w) : ∃ xs, w = .list xs := by
  rcases field_read_eq_ok h with ⟨-, hw⟩ | ⟨v, -, ⟨hnull, -⟩ | hread⟩
  · exact ⟨default, (Option.some.inj hw).symm⟩
  · cases hnull
  · obtain ⟨xs, -, rfl⟩ := Option.map_eq_some_iff.mp (orInvalid_eq_ok_iff.mp hread)
    exact ⟨xs, rfl⟩

omit [UnicodeDb] in
theorem read_whole {name : String} {default ge le : ℤ} {w : Value F}
    (h : ({ name, type := .int ge le, default := some (.int default) } : SchemaField F).read py
      arguments = .ok w) : ∃ n, w = .int n := by
  have hint := congrArg Except.toOption h
  rw [read_int] at hint
  obtain ⟨n, -, hn⟩ := Option.map_eq_some_iff.mp hint
  exact ⟨n, hn.symm⟩

/-- **The schema of queries** is one that the model of the tool is made
for. -/
theorem postgres_accepts {args : BaseModel F}
    (h : modelValidate py Builtin.postgresQueryInput arguments = .ok args) :
    ∃ (sql : String) (input : PostgresQueryInput F), dictGet arguments "sql" = some (.str sql) ∧
      SelectGuard.mustBeSelect sql = .ok input.sql ∧ args.dump = input.dump := by
  have hdump := dumpOf_of_modelValidate h
  rw [dumpOf] at hdump
  split at hdump
  next =>
    simp only [Builtin.postgresQueryInput, List.mapM_cons, List.mapM_nil, Option.bind_eq_bind,
      Option.bind_eq_some_iff, map_toOption_eq_some] at hdump
    obtain ⟨⟨_, _⟩, ⟨rfl, hsql⟩, _, ⟨⟨_, _⟩, ⟨rfl, hparams⟩, _,
      ⟨⟨_, _⟩, ⟨rfl, hrows⟩, _, hnil, hlast⟩, htail⟩, hall⟩ := hdump
    obtain ⟨sql, out, hgiven, hselect, rfl⟩ := read_statement rfl rfl rfl rfl hsql
    obtain ⟨params, rfl⟩ := read_list hparams
    obtain ⟨maxRows, rfl⟩ := read_whole hrows
    cases hnil
    cases hlast
    cases htail
    exact ⟨sql, { sql := out, params, maxRows }, hgiven, hselect, (Option.some.inj hall).symm⟩
  next => cases hdump

/-- The tool with its schema. -/
def postgresTool (py : Library F) : PostgresQueryTool F where
  inputSchema := modelValidate py Builtin.postgresQueryInput
  accepts _ _ h := postgres_accepts h

end Validation
