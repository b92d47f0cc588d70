import AtlasMcp.JsonGrammar
import AtlasMcp.JsonRoundTrip
import AtlasMcp.PyText

/-!
# Newline-delimited JSON

A file with one JSON text a line.  `json.dumps` writes no control character, so a text it has
written is one line, whatever the value holds, and no newline convention of the reader
changes it.  `lines_terminated` says that the first line of such a file is read back, and
`loads_torn` that a line which was not written to its end is not a text.
-/

namespace PyJson

/-! ## What the encoder writes -/

/-- Without control characters.  A line of the audit file has none, so that it
is read back as one line. -/
def Printable (cs : List Char) : Prop := ∀ c ∈ cs, 0x20 ≤ c.toNat

@[simp]
theorem printable_nil : Printable [] := List.forall_mem_nil _

/-- A text is printable if its first character is, and so is the rest. -/
@[simp]
theorem printable_cons {c : Char} {cs : List Char} :
    Printable (c :: cs) ↔ 0x20 ≤ c.toNat ∧ Printable cs :=
  List.forall_mem_cons

@[simp]
theorem printable_append {cs ds : List Char} :
    Printable (cs ++ ds) ↔ Printable cs ∧ Printable ds :=
  List.forall_mem_append

theorem printable_of_isDigit {ds : List Char} (h : ∀ c ∈ ds, c.isDigit = true) :
    Printable ds := by
  intro c hc
  have hdigit := h c hc
  simp only [Char.isDigit, Bool.and_eq_true, decide_eq_true_eq] at hdigit
  have hle : 48 ≤ c.toNat := hdigit.1
  omega

theorem IsNatToken.printable {ds : List Char} (h : IsNatToken ds) : Printable ds := by
  rcases h with rfl | ⟨d, rest, rfl, -, hdigits⟩
  · simp
  · exact printable_of_isDigit hdigits

theorem IsIntToken.printable {cs : List Char} (h : IsIntToken cs) : Printable cs := by
  rcases h with h | ⟨ds, rfl, h⟩
  · exact h.printable
  · simpa using h.printable

theorem IsFloatToken.printable {cs : List Char} (h : IsFloatToken cs) : Printable cs := by
  obtain ⟨i, f, e, rfl, hi, hf, he, -⟩ := h
  have hfrac : Printable f := by
    rcases hf with rfl | ⟨ds, rfl, -, hdigits⟩
    · exact printable_nil
    · simpa using printable_of_isDigit hdigits
  have hexp : Printable e := by
    rcases he with rfl | ⟨e, sign, ds, rfl, hletter, hsign, -, hdigits⟩
    · exact printable_nil
    · have hds := printable_of_isDigit hdigits
      rcases hletter with rfl | rfl <;> rcases hsign with rfl | rfl | rfl <;> simpa using hds
  simp [hi.printable, hfrac, hexp]

/-- A hexadecimal digit is none of the control characters. -/
theorem le_toNat_hexDigit {n : ℕ} (h : n < 16) : 0x20 ≤ (hexDigit n).toNat := by
  interval_cases n <;> decide

/-- An escape is printable, whatever character it stands for. -/
theorem printable_unicodeEscape (n : ℕ) : Printable (unicodeEscape n) := by
  have hdigit (m : ℕ) : 0x20 ≤ (hexDigit (m % 16)).toNat :=
    le_toNat_hexDigit (Nat.mod_lt m (by decide))
  simp [unicodeEscape, hdigit]

/-- What is written for a character is printable: the control characters are
escaped. -/
theorem printable_escapeChar (c : Char) : Printable (escapeChar c) := by
  unfold escapeChar
  split_ifs with h1 h2 h3 h4 h5 h6 h7 h8 h9
  case pos => simp
  case pos => simp
  case pos => simp
  case pos => simp
  case pos => simp
  case pos => simp
  case pos => simp
  case pos => simpa using h8.1
  case pos => exact printable_unicodeEscape _
  case neg => simp [printable_unicodeEscape]

theorem printable_stringText (s : String) : Printable (stringText s) := by
  have hinner : Printable (s.toList.flatMap escapeChar) := by
    intro c hc
    obtain ⟨d, -, hd⟩ := List.mem_flatMap.mp hc
    exact printable_escapeChar d c hd
  simp [stringText, hinner]

section Encoder

variable {F : Type} [PyFloat F]

theorem printable_repr (x : F) : Printable (PyFloat.repr x) := by
  rcases PyFloat.repr_spec x with ⟨htoken, -⟩ | ⟨h, -⟩ | ⟨h, -⟩ | ⟨h, -⟩
  · exact htoken.printable
  · simp [h]
  · simp [h]
  · simp [h]

mutual

/-- **`json.dumps` writes no control character**, and so no line break. -/
theorem printable_encode : ∀ v : Value F, Printable (encode v)
  | .none => by simp [encode]
  | .bool true => by simp [encode]
  | .bool false => by simp [encode]
  | .int n => (isIntToken_intText n).printable
  | .float x => printable_repr x
  | .str s => printable_stringText s
  | .list [] => by simp [encode]
  | .list (v :: xs) => by simp [encode, printable_encode v, printable_encodeItems xs]
  | .dict [] => by simp [encode]
  | .dict ((k, v) :: kvs) => by
      simp [encode, printable_stringText, printable_encode v, printable_encodeMembers kvs]
  | .other _ text => printable_stringText text

theorem printable_encodeItems : ∀ xs : List (Value F), Printable (encodeItems xs)
  | [] => by simp [encodeItems]
  | v :: xs => by simp [encodeItems, printable_encode v, printable_encodeItems xs]

/-- What is written for a dictionary is printable, its keys included. -/
theorem printable_encodeMembers : ∀ kvs : List (String × Value F),
    Printable (encodeMembers kvs)
  | [] => by simp [encodeMembers]
  | (k, v) :: kvs => by
      simp [encodeMembers, printable_stringText, printable_encode v,
        printable_encodeMembers kvs]

end

end Encoder

/-! ## Lines -/

/-- A text file is read with universal newlines: `\r` and `\r\n` are read as
`\n`. -/
def universalNewlines : List Char → List Char
  | [] => []
  | '\r' :: '\n' :: cs => '\n' :: universalNewlines cs
  | '\r' :: cs => '\n' :: universalNewlines cs
  | c :: cs => c :: universalNewlines cs

/-- `for line in fh`: the lines, each with the line break that ends it. -/
def lines : List Char → List (List Char)
  | [] => []
  | c :: cs =>
      if c = '\n' then [c] :: lines cs
      else match lines cs with
        | [] => [[c]]
        | l :: ls => (c :: l) :: ls

/-- What `fh.write(text + "\n")` appends. -/
def terminated (text : List Char) : List Char := text ++ ['\n']

/-- A printable character is no line end, so that it is read as it is. -/
theorem universalNewlines_cons {c : Char} (h : 0x20 ≤ c.toNat) (cs : List Char) :
    universalNewlines (c :: cs) = c :: universalNewlines cs := by
  have hr : c ≠ '\r' := by
    intro heq
    subst heq
    exact absurd h (by decide)
  rw [universalNewlines]
  · exact fun _ heq => absurd heq hr
  · exact hr

theorem universalNewlines_append {t : List Char} (h : Printable t) (cs : List Char) :
    universalNewlines (t ++ cs) = t ++ universalNewlines cs := by
  induction t with
  | nil => rfl
  | cons c t ih =>
      obtain ⟨hc, ht⟩ := printable_cons.mp h
      rw [List.cons_append, universalNewlines_cons hc, ih ht, List.cons_append]

/-- A line is read as it was written, with its line end. -/
theorem universalNewlines_terminated {t : List Char} (h : Printable t) (cs : List Char) :
    universalNewlines (terminated t ++ cs) = terminated t ++ universalNewlines cs := by
  rw [terminated, List.append_assoc, universalNewlines_append h, List.append_assoc]
  rfl

/-- A line without a line break of its own is read as far as the one that ends
it. -/
theorem lines_terminated {t : List Char} (h : Printable t) (cs : List Char) :
    lines (terminated t ++ cs) = terminated t :: lines cs := by
  induction t with
  | nil => rfl
  | cons c t ih =>
      obtain ⟨hc, ht⟩ := printable_cons.mp h
      have hne : c ≠ '\n' := by
        intro heq
        subst heq
        exact absurd hc (by decide)
      have hrest := ih ht
      simp only [terminated, List.cons_append] at hrest ⊢
      rw [lines, if_neg hne, hrest]

/-- What is left after the last line break is a line of its own. -/
theorem lines_unended {t : List Char} (h : Printable t) (hne : t ≠ []) : lines t = [t] := by
  induction t with
  | nil => exact absurd rfl hne
  | cons c t ih =>
      obtain ⟨hc, ht⟩ := printable_cons.mp h
      have hbreak : c ≠ '\n' := by
        intro heq
        subst heq
        exact absurd hc (by decide)
      rw [lines, if_neg hbreak]
      by_cases hnil : t = []
      · subst hnil
        rfl
      · rw [ih ht hnil]

section Texts

variable {F : Type} [PyFloat F]

/-- The line break at the end of a line is white space to the decoder. -/
theorem loads_terminated {v : Value F} (hwf : v.Wf) :
    loads (String.ofList (terminated (encode v))) = some v.jsonify :=
  loads_of_text ⟨[], encode v, ['\n'], by simp [terminated], ws_nil, by simp [Ws, isWs],
    text_encode v hwf⟩

/-- A text that begins with a brace is one of an object. -/
theorem dict_of_brace {v : Value F} {cs : List Char} (h : Text (.value v) ('{' :: cs)) :
    ∃ kvs, v = .dict kvs := by
  generalize hcs : '{' :: cs = all at h
  cases h with
  | int htoken =>
      obtain ⟨c, t, rfl, hc⟩ := htoken.startsNumber
      exact absurd (List.cons.inj hcs).1.symm (numberStart_ne hc).1.2.1
  | float htoken =>
      obtain ⟨c, t, rfl, hc⟩ := htoken.startsNumber
      exact absurd (List.cons.inj hcs).1.symm (numberStart_ne hc).1.2.1
  | emptyDict hws => exact ⟨_, rfl⟩
  | dict hws hmembers => exact ⟨_, rfl⟩
  | _ => simp at hcs

/-- **An object that was not written to its end is not a JSON text.** -/
theorem loads_torn {kvs : List (String × Value F)} (hwf : (Value.dict kvs).Wf)
    {t rest : List Char} (h : t ++ rest = encode (.dict kvs)) (ht : t ≠ []) (hrest : rest ≠ []) :
    loads (F := F) (String.ofList t) = none := by
  by_contra hsome
  obtain ⟨v, hv⟩ := Option.ne_none_iff_exists'.mp hsome
  obtain ⟨ws, body, ws', htext, hws, -, hbody⟩ := loads_eq_some_iff.mp hv
  rw [String.toList_ofList] at htext
  have hwhole : Text (.value (.dict (Value.jsonifyMembers kvs))) (t ++ rest) := by
    rw [h]
    exact text_encode (.dict kvs) hwf
  obtain ⟨inner, hinner⟩ := braces_of_object hwhole
  -- no white space stands before the opening brace
  obtain ⟨t, rfl⟩ : ∃ u, t = '{' :: u := by
    cases t with
    | nil => exact absurd rfl ht
    | cons c u => exact ⟨u, by rw [(List.cons.inj hinner).1]⟩
  have hfront : ws = [] := by
    cases ws with
    | nil => rfl
    | cons w ws =>
        obtain ⟨rfl, -⟩ := List.cons.inj htext
        exact absurd (hws '{' (by simp)) (by decide)
  rw [hfront, List.nil_append] at htext
  obtain ⟨c, body, rfl, -⟩ := starts_of_text hbody
  obtain ⟨rfl, -⟩ := List.cons.inj htext
  obtain ⟨kvs', rfl⟩ := dict_of_brace hbody
  rw [htext, List.append_assoc] at hwhole
  have hnil := object_text_append hbody hwhole
  exact hrest (List.append_eq_nil_iff.mp hnil).2

end Texts

end PyJson
