import AtlasMcp.ArgumentBounds
import AtlasMcp.JsonRoundTrip

/-!
# Guards on names and texts

`assertSafeIdentifier` matches a name against a regular expression, and `scrubText` looks for
control characters in a text.  A `$` at the end of an expression also matches before a line
break that ends the text; `accepts_safe_iff` says for which names this makes a difference.
-/

namespace Validation

open PyJson Errors

variable {F : Type}

/-! ## Names -/

/-- `[A-Za-z0-9._\-]`. -/
def isIdentifierChar (c : Char) : Bool := c.isAlphanum || c ∈ ['.', '_', '-']

/-- `$` matches before this rest of a text. -/
def atDollar (rest : List Char) : Bool := rest = [] ∨ rest = ['\n']

/-- `SAFE_IDENTIFIER.match`: `^[A-Za-z0-9][A-Za-z0-9._\-]{0,127}$`. -/
def matchesSafeIdentifier : List Char → Bool
  | [] => false
  | c :: rest => c.isAlphanum && (List.range 128).any fun n =>
      n ≤ rest.length && (rest.take n).all isIdentifierChar && atDollar (rest.drop n)

/-- The pattern of `_SAFE_IDENTIFIER_RE`. -/
def safeIdentifierPattern : String := "^[A-Za-z0-9][A-Za-z0-9._\\-]\x7b0,127\x7d$"

/-- `assert_safe_identifier`. -/
def assertSafeIdentifier (value field : String) : Except (ToolError F) String :=
  if matchesSafeIdentifier value.toList then .ok value
  else .error (invalidArguments (field ++ ": must match " ++ safeIdentifierPattern)
    (some [("field", .str field), ("value", .str (String.ofList (value.toList.take 64)))]))

/-- An ASCII letter or digit, followed by at most 127 of these, dots,
underscores and hyphens. -/
def SafeIdentifier (name : List Char) : Prop :=
  ∃ c rest, name = c :: rest ∧ c.isAlphanum = true ∧ rest.length ≤ 127 ∧
    ∀ d ∈ rest, isIdentifierChar d = true

/-- A dollar in a pattern fits at the end of a text, and also before a newline
that ends it. -/
theorem atDollar_iff {rest : List Char} : atDollar rest = true ↔ rest = [] ∨ rest = ['\n'] := by
  simp [atDollar]

/-- The expression matches a name, or a name and a line break. -/
theorem matchesSafeIdentifier_iff {s : List Char} : matchesSafeIdentifier s = true ↔
    ∃ name, SafeIdentifier name ∧ (s = name ∨ s = name ++ ['\n']) := by
  cases s with
  | nil =>
      refine iff_of_false nofun ?_
      rintro ⟨_, ⟨c, rest, rfl, -⟩, h | h⟩
      · cases h
      · cases h
  | cons c rest =>
      simp only [matchesSafeIdentifier, Bool.and_eq_true, List.any_eq_true, List.mem_range,
        decide_eq_true_eq, List.all_eq_true, atDollar_iff]
      constructor
      · rintro ⟨hc, n, hn, ⟨hle, hchars⟩, hend⟩
        refine ⟨c :: rest.take n, ⟨c, rest.take n, rfl, hc, ?_, hchars⟩, ?_⟩
        · rw [List.length_take]
          omega
        · rcases hend with hend | hend
          · left
            rw [List.take_of_length_le (List.drop_eq_nil_iff.mp hend)]
          · right
            rw [List.cons_append, ← hend, List.take_append_drop]
      · rintro ⟨_, ⟨d, name, rfl, hd, hlength, hchars⟩, h | h⟩
        · obtain ⟨rfl, rfl⟩ := List.cons.inj h
          exact ⟨hd, rest.length, by omega, ⟨le_rfl, by simpa using hchars⟩, Or.inl (by simp)⟩
        · obtain ⟨rfl, rfl⟩ := List.cons.inj h
          exact ⟨hd, name.length, by omega, ⟨by simp, by simpa using hchars⟩, Or.inr (by simp)⟩

/-- A line break is not part of a name. -/
theorem SafeIdentifier.not_concat {name t : List Char} (h : SafeIdentifier name) :
    name ≠ t ++ ['\n'] := by
  rintro rfl
  obtain ⟨c, rest, heq, hc, -, hchars⟩ := h
  cases t with
  | nil =>
      obtain ⟨rfl, -⟩ := List.cons.inj heq
      cases hc
  | cons d t =>
      obtain ⟨-, rfl⟩ := List.cons.inj heq
      cases hchars '\n' (by simp)

/-- The name is accepted, as it is. -/
def AcceptsIdentifier (F : Type) (value field : String) : Prop :=
  (assertSafeIdentifier value field : Except (ToolError F) String) = .ok value

/-- An identifier is accepted if and only if the pattern fits it. -/
theorem acceptsIdentifier_iff {value field : String} :
    AcceptsIdentifier F value field ↔ matchesSafeIdentifier value.toList = true := by
  rw [AcceptsIdentifier, assertSafeIdentifier]
  split_ifs with hmatch
  · exact iff_of_true rfl hmatch
  · exact iff_of_false nofun hmatch

/-- **When only safe names are accepted.**  A name is accepted if and only if
it is safe, except for a safe name that is followed by a line break. -/
theorem accepts_safe_iff (value field : String) :
    (AcceptsIdentifier F value field ↔ SafeIdentifier value.toList) ↔
      ¬ ∃ name, SafeIdentifier name ∧ value.toList = name ++ ['\n'] := by
  rw [acceptsIdentifier_iff, matchesSafeIdentifier_iff]
  constructor
  · rintro hsafe ⟨name, hname, hvalue⟩
    exact (hsafe.mp ⟨name, hname, Or.inr hvalue⟩).not_concat hvalue
  · intro hnot
    constructor
    · rintro ⟨name, hname, h | h⟩
      · exact h ▸ hname
      · exact absurd ⟨name, hname, h⟩ hnot
    · exact fun hsafe => ⟨_, hsafe, Or.inl rfl⟩

/-- The name of an index with a line break. -/
theorem orders_line_accepted :
    AcceptsIdentifier WholeFloat "orders\n" "index" ∧ ¬ SafeIdentifier "orders\n".toList := by
  refine ⟨acceptsIdentifier_iff.mpr (by decide), fun h => h.not_concat (t := "orders".toList) ?_⟩
  decide

/-! ## Texts -/

/-- `[\x00-\x08\x0b\x0c\x0e-\x1f\x7f]`. -/
def isControlChar (c : Char) : Bool :=
  c.toNat ≤ 0x08 || c.toNat = 0x0b || c.toNat = 0x0c || (0x0e ≤ c.toNat && c.toNat ≤ 0x1f) ||
    c.toNat = 0x7f

/-- `scrub_text`: a text that is too long is refused, and so is one that has a
control character in it. -/
def scrubText (value field : String) (maxLength : ℕ) : Except (ToolError F) String :=
  if maxLength < value.toList.length then
    .error (invalidArguments (field ++ ": exceeds max length " ++ toString maxLength)
      (some [("field", .str field), ("length", .int value.toList.length)]))
  else
    let cleaned := String.ofList (value.toList.filter (!isControlChar ·))
    if cleaned ≠ value then
      .error (invalidArguments (field ++ ": contains forbidden control characters")
        (some [("field", .str field)]))
    else .ok cleaned

/-- No control characters.  Tabs and line breaks are none of those that the
guard looks for. -/
def Clean (s : String) : Prop := ∀ c ∈ s.toList, isControlChar c = false

/-- What comes through is short enough and clean, and is the text itself. -/
theorem scrubText_eq_ok_iff {value field out : String} {maxLength : ℕ} :
    (scrubText value field maxLength : Except (ToolError F) String) = .ok out ↔
      value.toList.length ≤ maxLength ∧ Clean value ∧ out = value := by
  have hclean : String.ofList (value.toList.filter (!isControlChar ·)) = value ↔ Clean value := by
    rw [← String.toList_inj, String.toList_ofList, List.filter_eq_self, Clean]
    simp
  unfold scrubText
  by_cases hlong : maxLength < value.toList.length
  · simp [hlong, Nat.not_le.mpr hlong]
  have hshort := Nat.not_lt.mp hlong
  by_cases hsame : String.ofList (value.toList.filter (!isControlChar ·)) = value
  · simp [hlong, hshort, hsame, hclean.mp hsame, eq_comm]
  · simp [hlong, hsame, hclean.not.mp hsame]

end Validation
