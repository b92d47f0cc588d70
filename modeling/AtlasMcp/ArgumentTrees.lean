import AtlasMcp.ToolRegistry
import AtlasMcp.TreeLevels

/-!
# Which argument trees are bounded

`boundArguments` goes down the arguments with its depth, and stops at the first value that
is too deep or too wide.  `Bounded` says the same of the tree as a whole, without any order:
of its text, of the level at which each value lies, and of the width of each object and list.

`boundArgumentTree` comes to that only when the arguments have been written.  Lists nested so
deep that the encoder runs out of stack leave it as a `RecursionError`, before their depth is
looked at (`boundsExactly_iff`).
-/

namespace PyJson

/-! ## The text is ASCII -/

/-- Only ASCII characters, each of which is one byte.  The text of the arguments
has no others, because `json.dumps` escapes them. -/
def Ascii (cs : List Char) : Prop := ∀ c ∈ cs, c.toNat < 128

@[simp]
theorem ascii_nil : Ascii [] := List.forall_mem_nil _

/-- A text is of ASCII if its first character is, and so is the rest. -/
@[simp]
theorem ascii_cons {c : Char} {cs : List Char} : Ascii (c :: cs) ↔ c.toNat < 128 ∧ Ascii cs :=
  List.forall_mem_cons

@[simp]
theorem ascii_append {cs ds : List Char} : Ascii (cs ++ ds) ↔ Ascii cs ∧ Ascii ds :=
  List.forall_mem_append

theorem ascii_of_isDigit {ds : List Char} (h : ∀ c ∈ ds, c.isDigit = true) : Ascii ds := by
  intro c hc
  have hdigit := h c hc
  simp only [Char.isDigit, Bool.and_eq_true, decide_eq_true_eq] at hdigit
  have hle : c.toNat ≤ 57 := hdigit.2
  omega

theorem IsNatToken.ascii {ds : List Char} (h : IsNatToken ds) : Ascii ds := by
  rcases h with rfl | ⟨d, rest, rfl, -, hdigits⟩
  · simp
  · exact ascii_of_isDigit hdigits

theorem IsIntToken.ascii {cs : List Char} (h : IsIntToken cs) : Ascii cs := by
  rcases h with h | ⟨ds, rfl, h⟩
  · exact h.ascii
  · simpa using h.ascii

theorem IsFloatToken.ascii {cs : List Char} (h : IsFloatToken cs) : Ascii cs := by
  obtain ⟨i, f, e, rfl, hi, hf, he, -⟩ := h
  have hfrac : Ascii f := by
    rcases hf with rfl | ⟨ds, rfl, -, hdigits⟩
    · exact ascii_nil
    · simpa using ascii_of_isDigit hdigits
  have hexp : Ascii e := by
    rcases he with rfl | ⟨e, sign, ds, rfl, hletter, hsign, -, hdigits⟩
    · exact ascii_nil
    · have hds := ascii_of_isDigit hdigits
      rcases hletter with rfl | rfl <;> rcases hsign with rfl | rfl | rfl <;> simpa using hds
  simp [hi.ascii, hfrac, hexp]

theorem toNat_hexDigit_lt {n : ℕ} (h : n < 16) : (hexDigit n).toNat < 128 := by
  interval_cases n <;> decide

/-- An escape is of ASCII, whatever character it stands for. -/
theorem ascii_unicodeEscape (n : ℕ) : Ascii (unicodeEscape n) := by
  have hdigit (m : ℕ) : (hexDigit (m % 16)).toNat < 128 :=
    toNat_hexDigit_lt (Nat.mod_lt m (by decide))
  simp [unicodeEscape, hdigit]

/-- What is written for a character is of ASCII: those that are not are
escaped. -/
theorem ascii_escapeChar (c : Char) : Ascii (escapeChar c) := by
  unfold escapeChar
  split_ifs with h1 h2 h3 h4 h5 h6 h7 h8 h9
  case pos => simp
  case pos => simp
  case pos => simp
  case pos => simp
  case pos => simp
  case pos => simp
  case pos => simp
  case pos =>
      have hle : c.toNat < 128 := by omega
      simpa using hle
  case pos => exact ascii_unicodeEscape _
  case neg => simp [ascii_unicodeEscape]

theorem ascii_stringText (s : String) : Ascii (stringText s) := by
  have hinner : Ascii (s.toList.flatMap escapeChar) := by
    intro c hc
    obtain ⟨d, -, hd⟩ := List.mem_flatMap.mp hc
    exact ascii_escapeChar d c hd
  simp [stringText, hinner]

section Encoder

variable {F : Type} [PyFloat F]

theorem ascii_repr (x : F) : Ascii (PyFloat.repr x) := by
  rcases PyFloat.repr_spec x with ⟨htoken, -⟩ | ⟨h, -⟩ | ⟨h, -⟩ | ⟨h, -⟩
  · exact htoken.ascii
  · simp [h]
  · simp [h]
  · simp [h]

mutual

/-- `json.dumps` writes ASCII. -/
theorem ascii_encode : ∀ v : Value F, Ascii (encode v)
  | .none => by simp [encode]
  | .bool true => by simp [encode]
  | .bool false => by simp [encode]
  | .int n => (isIntToken_intText n).ascii
  | .float x => ascii_repr x
  | .str s => ascii_stringText s
  | .list [] => by simp [encode]
  | .list (v :: xs) => by simp [encode, ascii_encode v, ascii_encodeItems xs]
  | .dict [] => by simp [encode]
  | .dict ((k, v) :: kvs) => by
      simp [encode, ascii_stringText, ascii_encode v, ascii_encodeMembers kvs]
  | .other _ text => ascii_stringText text

theorem ascii_encodeItems : ∀ xs : List (Value F), Ascii (encodeItems xs)
  | [] => by simp [encodeItems]
  | v :: xs => by simp [encodeItems, ascii_encode v, ascii_encodeItems xs]

/-- What is written for a dictionary is of ASCII, its keys included. -/
theorem ascii_encodeMembers : ∀ kvs : List (String × Value F), Ascii (encodeMembers kvs)
  | [] => by simp [encodeMembers]
  | (k, v) :: kvs => by
      simp [encodeMembers, ascii_stringText, ascii_encode v, ascii_encodeMembers kvs]

end

/-- So it has as many bytes as characters. -/
theorem utf8_length_dumps (v : Value F) : (Tools.utf8 (dumps v)).length = (encode v).length := by
  rw [Tools.utf8, dumps, String.toList_ofList, List.length_flatMap]
  have hone : ∀ c ∈ encode v, ((String.utf8EncodeChar c).map UInt8.toNat).length = 1 := by
    intro c hc
    have hlt := ascii_encode v c hc
    rw [List.length_map, String.length_utf8EncodeChar, Char.utf8Size_eq_one_iff]
    exact UInt32.le_iff_toNat_le.mpr (by simpa using Nat.le_of_lt_succ hlt)
  rw [List.map_congr_left hone]
  simp

end Encoder

end PyJson

namespace Validation

open PyJson Errors TreeLevels

variable {F : Type}

/-- The values right inside a value. -/
def children : Value F → List (Value F)
  | .list xs => xs
  | .dict kvs => kvs.map Prod.snd
  | _ => []

/-- The limit on its own width. -/
def Narrow : Value F → Prop
  | .dict kvs => kvs.length ≤ maxObjectKeys
  | .list xs => xs.length ≤ maxListLength
  | _ => True

theorem checkItems_ok_iff {xs : List (Value F)} {depth : ℕ} :
    checkItems xs depth = .ok () ↔ ∀ v ∈ xs, checkDepth v depth = .ok () := by
  induction xs with
  | nil => simp [checkItems]
  | cons v xs ih =>
      rw [List.forall_mem_cons, ← ih, checkItems]
      cases checkDepth v depth with
      | error e => simp [bind, Except.bind]
      | ok _ => simp [bind, Except.bind]

/-- A dictionary is within the depth if all its values are; its keys do not
count. -/
theorem checkMembers_ok_iff {kvs : List (String × Value F)} {depth : ℕ} :
    checkMembers kvs depth = .ok () ↔ ∀ v ∈ kvs.map Prod.snd, checkDepth v depth = .ok () := by
  induction kvs with
  | nil => simp [checkMembers]
  | cons kv kvs ih =>
      rw [List.map_cons, List.forall_mem_cons, ← ih, checkMembers]
      cases checkDepth kv.2 depth with
      | error e => simp [bind, Except.bind]
      | ok _ => simp [bind, Except.bind]

/-- One level of the check. -/
theorem checkDepth_ok_iff (v : Value F) (depth : ℕ) :
    checkDepth v depth = .ok () ↔ depth ≤ maxNestingDepth ∧ Narrow v ∧
      ∀ u ∈ children v, checkDepth u (depth + 1) = .ok () := by
  cases v with
  | dict kvs =>
      rw [checkDepth, Narrow, children, ← checkMembers_ok_iff]
      split_ifs with hdeep hwide
      · simp [Nat.not_le.mpr hdeep]
      · simp [Nat.not_le.mpr hwide]
      · simp [Nat.not_lt.mp hdeep, Nat.not_lt.mp hwide]
  | list xs =>
      rw [checkDepth, Narrow, children, ← checkItems_ok_iff]
      split_ifs with hdeep hwide
      · simp [Nat.not_le.mpr hdeep]
      · simp [Nat.not_le.mpr hwide]
      · simp [Nat.not_lt.mp hdeep, Nat.not_lt.mp hwide]
  | _ =>
      rw [checkDepth]
      · split_ifs with hdeep
        · simp [Nat.not_le.mpr hdeep]
        · simp [Narrow, children, Nat.not_lt.mp hdeep]
      all_goals simp

/-- The rejection of arguments that are out of bounds, which is a validation
error of its own code. -/
def OutOfBounds (e : ToolError F) : Prop := e.cls = .validationError ∧ e.code = "invalid_arguments"

/-- The error for invalid arguments is the one that the bounds are refused
with. -/
theorem outOfBounds_invalidArguments (hint : String)
    (context : Option (List (String × Value F))) :
    OutOfBounds (invalidArguments hint context) := ⟨rfl, rfl⟩

mutual

/-- The check raises nothing else. -/
theorem outOfBounds_of_checkDepth : ∀ (v : Value F) {depth : ℕ} {e : ToolError F},
    checkDepth v depth = .error e → OutOfBounds e
  | .dict kvs, depth, e, h => by
      rw [checkDepth] at h
      split_ifs at h
      · exact Except.error.inj h ▸ outOfBounds_invalidArguments _ _
      · exact Except.error.inj h ▸ outOfBounds_invalidArguments _ _
      · exact outOfBounds_of_checkMembers kvs h
  | .list xs, depth, e, h => by
      rw [checkDepth] at h
      split_ifs at h
      · exact Except.error.inj h ▸ outOfBounds_invalidArguments _ _
      · exact Except.error.inj h ▸ outOfBounds_invalidArguments _ _
      · exact outOfBounds_of_checkItems xs h
  | .none, depth, e, h | .bool _, depth, e, h | .int _, depth, e, h | .float _, depth, e, h
  | .str _, depth, e, h | .other _ _, depth, e, h => by
      rw [checkDepth] at h
      · split_ifs at h
        exact Except.error.inj h ▸ outOfBounds_invalidArguments _ _
      all_goals simp

/-- A list is refused with this error and with no other. -/
theorem outOfBounds_of_checkItems : ∀ (xs : List (Value F)) {depth : ℕ} {e : ToolError F},
    checkItems xs depth = .error e → OutOfBounds e
  | [], depth, e, h => nomatch h
  | v :: xs, depth, e, h => by
      rw [checkItems] at h
      cases hv : checkDepth v depth with
      | error e' =>
          rw [hv] at h
          exact Except.error.inj h ▸ outOfBounds_of_checkDepth v hv
      | ok _ =>
          rw [hv] at h
          exact outOfBounds_of_checkItems xs h

/-- A dictionary is refused with this error and with no other. -/
theorem outOfBounds_of_checkMembers : ∀ (kvs : List (String × Value F)) {depth : ℕ}
    {e : ToolError F}, checkMembers kvs depth = .error e → OutOfBounds e
  | [], depth, e, h => nomatch h
  | (_, v) :: kvs, depth, e, h => by
      rw [checkMembers] at h
      cases hv : checkDepth v depth with
      | error e' =>
          rw [hv] at h
          exact Except.error.inj h ▸ outOfBounds_of_checkDepth v hv
      | ok _ =>
          rw [hv] at h
          exact outOfBounds_of_checkMembers kvs h

end

section Bounds

variable [PyFloat F] {arguments : List (String × Value F)}

/-- The bounds, as a condition on the whole tree: how long its text is, how deep
it nests, and how wide each of its dictionaries and lists is. -/
structure Bounded (arguments : List (String × Value F)) : Prop where
  bytes : (Tools.utf8 (dumps (.dict arguments))).length ≤ maxArgumentBytes
  levels : ∀ n v, Below children n (.dict arguments) v → n ≤ maxNestingDepth
  keys : ∀ n kvs, Below children n (.dict arguments) (.dict kvs) → kvs.length ≤ maxObjectKeys
  items : ∀ n xs, Below children n (.dict arguments) (.list xs) → xs.length ≤ maxListLength

omit [PyFloat F] in
/-- The depth check on the whole tree. -/
theorem checkDepth_root_iff : checkDepth (.dict arguments) 0 = .ok () ↔
    ∀ n v, Below children n (.dict arguments) v → n ≤ maxNestingDepth ∧ Narrow v := by
  have haccepts := accepts_iff
    (Q := Narrow) checkDepth_ok_iff (.dict arguments) 0
  simpa using haccepts

/-- The arguments are bounded if their text is short enough and they are
within the depth. -/
theorem bounded_iff : Bounded arguments ↔
    (encode (.dict arguments)).length ≤ maxArgumentBytes ∧
      checkDepth (.dict arguments) 0 = .ok () := by
  rw [checkDepth_root_iff]
  constructor
  · rintro ⟨hbytes, hlevels, hkeys, hitems⟩
    refine ⟨utf8_length_dumps (.dict arguments) ▸ hbytes, fun n v hv => ⟨hlevels n v hv, ?_⟩⟩
    cases v with
    | dict kvs => exact hkeys n kvs hv
    | list xs => exact hitems n xs hv
    | _ => trivial
  · rintro ⟨hbytes, hbelow⟩
    exact
      { bytes := (utf8_length_dumps (.dict arguments)).symm ▸ hbytes
        levels := fun n v hv => (hbelow n v hv).1
        keys := fun n kvs hv => (hbelow n _ hv).2
        items := fun n xs hv => (hbelow n _ hv).2 }

/-- The bounds say yes or no, and change nothing. -/
theorem boundArguments_ok_iff {bounded : List (String × Value F)} :
    boundArguments arguments = .ok bounded ↔ Bounded arguments ∧ bounded = arguments := by
  rw [bounded_iff, boundArguments]
  by_cases hlong : maxArgumentBytes < (encode (.dict arguments)).length
  · have hnot := Nat.not_le.mpr hlong
    simp only [hlong, hnot, if_true, false_and, iff_false]
    intro h
    cases h
  · simp only [if_neg hlong, Nat.not_lt.mp hlong, true_and]
    cases checkDepth (.dict arguments) 0 with
    | error e =>
        refine iff_of_false (fun h => ?_) (fun h => ?_)
        · cases h
        · cases h.1
    | ok _ => exact ⟨fun h => ⟨rfl, (Except.ok.inj h).symm⟩, fun h => congrArg _ h.2.symm⟩

/-- The arguments are refused with this error and with no other. -/
theorem outOfBounds_of_boundArguments {e : ToolError F}
    (h : boundArguments arguments = .error e) : OutOfBounds e := by
  rw [boundArguments] at h
  by_cases hlong : maxArgumentBytes < (encode (.dict arguments)).length
  · simp only [hlong, if_true] at h
    exact Except.error.inj h ▸ outOfBounds_invalidArguments _ _
  · simp only [if_neg hlong] at h
    cases hcheck : checkDepth (.dict arguments) 0 with
    | error e' =>
        rw [hcheck] at h
        exact Except.error.inj h ▸ outOfBounds_of_checkDepth _ hcheck
    | ok _ =>
        rw [hcheck] at h
        cases h

/-! ## Arguments that are not written -/

/-- Arguments within the bounds are returned as they are, and no others; for
these a validation error is raised. -/
def BoundsExactly (py : Interpreter) (arguments : List (String × Value F)) : Prop :=
  (boundArgumentTree py arguments = .ok arguments ↔ Bounded arguments) ∧
    (¬ Bounded arguments →
      ∃ e, boundArgumentTree py arguments = .error (.tool e) ∧ OutOfBounds e)

variable {py : Interpreter}

/-- What is written is bounded as it should be. -/
theorem boundsExactly_of_written (h : py.firstRefused (.dict arguments) = none) :
    BoundsExactly py arguments := by
  have hrest : boundArgumentTree py arguments = (boundArguments arguments).mapError .tool := by
    rw [boundArgumentTree, h]
  rw [BoundsExactly, hrest]
  cases hbounds : boundArguments arguments with
  | error e =>
      have hnot : ¬ Bounded arguments := fun hbounded => by
        rw [boundArguments_ok_iff.mpr ⟨hbounded, rfl⟩] at hbounds
        cases hbounds
      refine ⟨iff_of_false (fun h => ?_) hnot,
        fun _ => ⟨e, rfl, outOfBounds_of_boundArguments hbounds⟩⟩
      cases h
  | ok bounded =>
      obtain ⟨hbounded, rfl⟩ := boundArguments_ok_iff.mp hbounds
      exact ⟨iff_of_true rfl hbounded, fun h => absurd hbounded h⟩

/-- An integer that is too long is taken for a bound that is broken. -/
theorem boundsExactly_of_digits {level : ℕ} {n : ℤ}
    (h : py.firstRefused (.dict arguments) = some (level, .int n)) :
    BoundsExactly py arguments ↔ ¬ Bounded arguments := by
  have hrejects : boundArgumentTree py arguments = .error (.tool (invalidArguments
      ("arguments are not JSON-serialisable: " ++ py.tooManyDigits) none)) := by
    rw [boundArgumentTree, h]
  rw [BoundsExactly, hrejects]
  constructor
  · intro hexact hbounded
    cases hexact.1.mpr hbounded
  · intro hnot
    refine ⟨iff_of_false (fun h => ?_) hnot, fun _ => ⟨_, rfl, outOfBounds_invalidArguments _ _⟩⟩
    cases h

/-- When the stack has no room for the encoder, neither half holds: the
arguments are not returned, and what is raised is no validation error. -/
theorem not_boundsExactly_of_depth {level : ℕ} {v : Value F}
    (h : py.firstRefused (.dict arguments) = some (level, v)) (hv : ∀ n, v ≠ .int n) :
    ¬ BoundsExactly py arguments := by
  have hraises : boundArgumentTree py arguments = .error (.other "RecursionError") := by
    rw [boundArgumentTree, h]
    cases v with
    | int n => exact absurd rfl (hv n)
    | _ => rfl
  rw [BoundsExactly, hraises]
  rintro ⟨hreturns, hrejects⟩
  have hnot : ¬ Bounded arguments := fun hbounded => by cases hreturns.mpr hbounded
  obtain ⟨e, he, -⟩ := hrejects hnot
  cases he

/-- **Which arguments are bounded.**  The bounds decide if and only if the
interpreter writes all values; or if the first one it does not write, in the
order of the text, is an integer that is too long, in arguments that are out
of bounds anyway. -/
theorem boundsExactly_iff (py : Interpreter) (arguments : List (String × Value F)) :
    BoundsExactly py arguments ↔ ∀ level v, py.firstRefused (.dict arguments) = some (level, v) →
      (∃ n, v = .int n) ∧ ¬ Bounded arguments := by
  cases hfirst : py.firstRefused (.dict arguments) with
  | none => exact iff_of_true (boundsExactly_of_written hfirst) fun _ _ h => by cases h
  | some x =>
      obtain ⟨level, v⟩ := x
      by_cases hint : ∃ n, v = .int n
      · obtain ⟨n, rfl⟩ := hint
        rw [boundsExactly_of_digits hfirst]
        constructor
        · intro hnot level' v' h
          obtain ⟨rfl, rfl⟩ := Prod.mk.inj (Option.some.inj h)
          exact ⟨⟨n, rfl⟩, hnot⟩
        · intro h
          exact (h level _ rfl).2
      · have hdeep := not_boundsExactly_of_depth hfirst fun n hn => hint ⟨n, hn⟩
        exact iff_of_false hdeep fun h => hint (h level v rfl).1

end Bounds

/-- Lists, each the only item of the one around it. -/
def nestedLists : ℕ → Value F
  | 0 => .list []
  | k + 1 => .list [nestedLists k]

/-- The encoder gives up at the first of them that the stack has no room
for. -/
theorem refused_nestedLists (py : Interpreter) (level k : ℕ) (hlevel : level ≤ py.stackRoom)
    (hdeep : py.stackRoom ≤ level + k) :
    ∃ xs, (inOrder level (nestedLists (F := F) k)).find? (fun x => py.refuses x.1 x.2) =
      some (py.stackRoom, .list xs) := by
  induction k generalizing level with
  | zero =>
      obtain rfl : level = py.stackRoom := Nat.le_antisymm hlevel hdeep
      exact ⟨[], by simp [nestedLists, inOrder, inOrderItems, Interpreter.refuses]⟩
  | succ k ih =>
      rw [nestedLists, inOrder, inOrderItems, inOrderItems, List.append_nil, List.find?_cons]
      by_cases hhere : py.stackRoom ≤ level
      · obtain rfl : level = py.stackRoom := Nat.le_antisymm hlevel hhere
        exact ⟨[nestedLists k], by simp [Interpreter.refuses]⟩
      · obtain ⟨xs, hxs⟩ := ih (level + 1) (by omega) (by omega)
        exact ⟨xs, by simpa [Interpreter.refuses, hhere] using hxs⟩

/-- The bounds do not decide for a thousand lists, with the stack of an
interpreter with the usual limit, nor for an integer of 4301 digits. -/
theorem nested_arguments_overflow :
    ¬ BoundsExactly (F := WholeFloat) ⟨1000, 4300⟩ [("a", nestedLists 1000)] ∧
      ¬ BoundsExactly (F := WholeFloat) ⟨1000, 4300⟩ [("n", .int (10 ^ 4300))] := by
  constructor
  · obtain ⟨xs, hxs⟩ := refused_nestedLists (F := WholeFloat) ⟨1000, 4300⟩ 1 1000 (by decide)
      (by decide)
    have hfirst : Interpreter.firstRefused ⟨1000, 4300⟩
        (.dict [("a", nestedLists (F := WholeFloat) 1000)]) = some (1000, .list xs) := by
      rw [Interpreter.firstRefused, inOrder, inOrderMembers, inOrderMembers, List.append_nil,
        List.find?_cons]
      exact hxs
    exact not_boundsExactly_of_depth hfirst fun n hn => by cases hn
  · have hfirst : ∀ n : ℤ, 4300 < (Nat.toDigits 10 n.natAbs).length →
        Interpreter.firstRefused ⟨1000, 4300⟩ (.dict [("n", .int (F := WholeFloat) n)]) =
          some (1, .int n) := by
      intro n hlong
      simp [Interpreter.firstRefused, inOrder, inOrderMembers, Interpreter.refuses, hlong]
    have hchecked : ∀ n : ℤ, checkDepth (.dict [("n", .int (F := WholeFloat) n)]) 0 = .ok () := by
      intro n
      simp [checkDepth, checkMembers]
      rfl
    have hbounded : Bounded (F := WholeFloat) [("n", .int (10 ^ 4300))] :=
      bounded_iff.mpr ⟨by decide +kernel, hchecked _⟩
    exact fun hexact =>
      (boundsExactly_of_digits (hfirst _ (by decide +kernel))).mp hexact hbounded

end Validation
