import Mathlib
import AtlasMcp.JsonText

/-!
# The decoder reads every JSON text

`scanValue_of_text` follows the derivation of a text: each grammar rule is one
step of the decoder.  A number is read to its end because nothing that can
follow a value continues a number (`EndsNumber`).  `loads_of_text` is the
statement for whole texts.
-/

namespace PyJson

/-! ## Numbers -/

/-- A character that is no digit differs from every digit. -/
theorem ne_of_isDigit {d c : Char} (hd : d.isDigit) (hc : c.isDigit = false) : d ≠ c := by
  intro heq
  rw [heq, hc] at hd
  cases hd

/-- The scan of digits ends here: the text goes on with something else, or is
at its end. -/
def EndsDigits (r : List Char) : Prop := ∀ c t, r = c :: t → c.isDigit = false

/-- The rest of a text does not continue a number: it begins with no digit,
point or exponent. -/
def EndsNumber (r : List Char) : Prop :=
  ∀ c t, r = c :: t → c.isDigit = false ∧ c ≠ '.' ∧ c ≠ 'e' ∧ c ≠ 'E'

theorem EndsNumber.endsDigits {r : List Char} (h : EndsNumber r) : EndsDigits r :=
  fun c t hr => (h c t hr).1

/-- A text that goes on with no digit ends the digits before it. -/
theorem endsDigits_cons {c : Char} (h : c.isDigit = false) (t : List Char) :
    EndsDigits (c :: t) := by
  intro d t' heq
  rwa [← (List.cons.inj heq).1]

theorem endsNumber_nil : EndsNumber [] := by
  intro c t heq
  cases heq

/-- Its first character decides. -/
theorem endsNumber_cons {c : Char}
    (h : c.isDigit = false ∧ c ≠ '.' ∧ c ≠ 'e' ∧ c ≠ 'E') (r : List Char) :
    EndsNumber (c :: r) := by
  intro d t heq
  rwa [← (List.cons.inj heq).1]

theorem endsNumber_ws_append {ws r : List Char} (hws : Ws ws) (hr : EndsNumber r) :
    EndsNumber (ws ++ r) := by
  cases ws with
  | nil => exact hr
  | cons w ws =>
      have hw := hws w List.mem_cons_self
      simp only [isWs, decide_eq_true_eq] at hw
      apply endsNumber_cons
      rcases hw with rfl | rfl | rfl | rfl <;> decide

/-- The scan of digits takes the digits and leaves the rest. -/
theorem scanDigits_append {ds r : List Char} (hds : ∀ c ∈ ds, c.isDigit)
    (hr : EndsDigits r) : scanDigits (ds ++ r) = (ds, r) := by
  have hempty : r.takeWhile Char.isDigit = [] ∧ r.dropWhile Char.isDigit = r := by
    cases r with
    | nil => exact ⟨rfl, rfl⟩
    | cons c t => simp [hr c t rfl]
  rw [scanDigits, List.takeWhile_append_of_pos hds, List.dropWhile_append_of_pos hds,
    hempty.1, hempty.2, List.append_nil]

/-- A natural number is scanned as it was written, up to where its digits
end. -/
theorem scanNat_append {ds r : List Char} (h : IsNatToken ds) (hr : EndsDigits r) :
    scanNat (ds ++ r) = some (ds, r) := by
  rcases h with rfl | ⟨d, rest, rfl, hd, hall⟩
  · rfl
  · rw [List.cons_append, scanNat]
    · rw [← List.cons_append, scanDigits_append hall hr]
    · intro t heq
      exact hd (List.cons.inj heq).1

theorem IsNatToken.head_isDigit {ds : List Char} (h : IsNatToken ds) :
    ∃ d rest, ds = d :: rest ∧ d.isDigit := by
  rcases h with rfl | ⟨d, rest, rfl, _, hall⟩
  · exact ⟨'0', [], rfl, by decide⟩
  · exact ⟨d, rest, rfl, hall d List.mem_cons_self⟩

/-- A natural number starts with a digit, whatever follows it. -/
theorem IsNatToken.append_ne {ds : List Char} (h : IsNatToken ds) {c : Char}
    (hc : c.isDigit = false) (r t : List Char) : ds ++ r ≠ c :: t := by
  obtain ⟨d, rest, rfl, hd⟩ := h.head_isDigit
  intro heq
  exact ne_of_isDigit hd hc (List.cons.inj heq).1

/-- An integer is scanned as it was written, with its sign. -/
theorem scanInt_append {cs r : List Char} (h : IsIntToken cs) (hr : EndsDigits r) :
    scanInt (cs ++ r) = some (cs, r) := by
  rcases h with h | ⟨ds, rfl, h⟩
  · rw [scanInt, scanNat_append h hr]
    exact h.append_ne (by decide) r
  · rw [List.cons_append, scanInt, scanNat_append h hr]
    rfl

/-- A fraction is scanned as it was written.  Where there is none, the rest
must not look like one: a point would begin it. -/
theorem scanFrac_append {f r : List Char} (h : IsFracToken f) (hr : EndsDigits r)
    (hdot : ∀ t, r ≠ '.' :: t) : scanFrac (f ++ r) = (f, r) := by
  rcases h with rfl | ⟨ds, rfl, hne, hall⟩
  · rw [List.nil_append, scanFrac.eq_def]
    split
    · exact absurd rfl (hdot _)
    · rfl
  · rw [List.cons_append, scanFrac, scanDigits_append hall hr]
    cases ds with
    | nil => exact absurd rfl hne
    | cons d ds => rfl

/-- An exponent is scanned as it was written.  Where there is none, the rest
must not look like one: its letter would begin it. -/
theorem scanExp_append {e r : List Char} (h : IsExpToken e) (hr : EndsDigits r)
    (hexp : ∀ t, r ≠ 'e' :: t ∧ r ≠ 'E' :: t) : scanExp (e ++ r) = (e, r) := by
  rcases h with rfl | ⟨e, sign, ds, rfl, he, hsign, hne, hall⟩
  · cases r with
    | nil => rfl
    | cons c t =>
        have hc : ¬ (c = 'e' ∨ c = 'E') := by
          intro he
          rcases he with rfl | rfl
          · exact (hexp t).1 rfl
          · exact (hexp t).2 rfl
        simp [scanExp, hc]
  · have hsplit : scanSign (sign ++ (ds ++ r)) = (sign, ds ++ r) := by
      rcases hsign with rfl | rfl | rfl
      · cases ds with
        | nil => exact absurd rfl hne
        | cons d ds =>
            have hd := hall d List.mem_cons_self
            rw [List.nil_append, List.cons_append, scanSign]
            · intro t heq
              exact ne_of_isDigit hd (by decide) (List.cons.inj heq).1
            · intro t heq
              exact ne_of_isDigit hd (by decide) (List.cons.inj heq).1
      · rfl
      · rfl
    rw [List.cons_append, scanExp, if_pos he, List.append_assoc, hsplit,
      scanDigits_append hall hr]
    cases ds with
    | nil => exact absurd rfl hne
    | cons d ds => rfl

section Values

variable {F : Type} [PyFloat F]

/-- The text of an integer is scanned as that integer. -/
theorem scanNumber_int {cs r : List Char} (h : IsIntToken cs) (hr : EndsNumber r) :
    scanNumber (F := F) (cs ++ r) = some (.int (intOfToken cs), r) := by
  have hfrac : scanFrac r = ([], r) := scanFrac_append (f := []) (Or.inl rfl)
    hr.endsDigits fun t heq => (hr _ t heq).2.1 rfl
  have hexp : scanExp r = ([], r) := scanExp_append (e := []) (Or.inl rfl)
    hr.endsDigits fun t => ⟨fun heq => (hr _ t heq).2.2.1 rfl,
      fun heq => (hr _ t heq).2.2.2 rfl⟩
  simp [scanNumber, scanInt_append h hr.endsDigits, hfrac, hexp]

/-- The text of a float is scanned as the float that it is the literal of. -/
theorem scanNumber_float {cs r : List Char} (h : IsFloatToken cs) (hr : EndsNumber r) :
    scanNumber (F := F) (cs ++ r) = some (.float (PyFloat.ofLiteral cs), r) := by
  obtain ⟨i, f, e, rfl, hi, hf, he, hsome⟩ := h
  have hexpEnds : EndsDigits (e ++ r) ∧ ∀ t, e ++ r ≠ '.' :: t := by
    rcases he with rfl | ⟨x, sign, ds, rfl, hx, -⟩
    · exact ⟨hr.endsDigits, fun t heq => (hr _ t heq).2.1 rfl⟩
    · rcases hx with rfl | rfl <;>
        exact ⟨endsDigits_cons (by decide) _, fun t heq => by cases heq⟩
  have hfracEnds : EndsDigits (f ++ (e ++ r)) := by
    rcases hf with rfl | ⟨ds, rfl, -⟩
    · exact hexpEnds.1
    · exact endsDigits_cons (by decide) _
  have hint := scanInt_append hi hfracEnds
  have hfrac := scanFrac_append hf hexpEnds.1 hexpEnds.2
  have hexp := scanExp_append he hr.endsDigits fun t =>
    ⟨fun heq => (hr _ t heq).2.2.1 rfl, fun heq => (hr _ t heq).2.2.2 rfl⟩
  have hnot : ¬ (f = [] ∧ e = []) := by tauto
  rw [List.append_assoc, List.append_assoc]
  unfold scanNumber
  simp only [hint, hfrac, hexp, if_neg hnot, List.append_assoc]

/-- A text that starts like a number or a constant is scanned as one. -/
theorem scanValue_number {c : Char} {t : List Char} {n : ℕ}
    (hc : c ≠ '"' ∧ c ≠ '{' ∧ c ≠ '[' ∧ c ≠ 'n' ∧ c ≠ 't' ∧ c ≠ 'f') :
    scanValue (F := F) (n + 1) (c :: t) = scanNumber (c :: t) := by
  rw [scanValue.eq_def]
  simp only
  split <;> simp_all

/-! ## Values -/

/-- The first character of a value text is no white space and closes
nothing. -/
def StartsValue (cs : List Char) : Prop :=
  ∃ c t, cs = c :: t ∧ isWs c = false ∧ c ≠ ']' ∧ c ≠ '}'

/-- What starts a value does so whatever comes after it. -/
theorem StartsValue.append {cs : List Char} (h : StartsValue cs) (r : List Char) :
    StartsValue (cs ++ r) := by
  obtain ⟨c, t, rfl, hc⟩ := h
  exact ⟨c, t ++ r, rfl, hc⟩

theorem IsIntToken.startsNumber {cs : List Char} (h : IsIntToken cs) :
    ∃ c t, cs = c :: t ∧ (c.isDigit ∨ c = '-') := by
  rcases h with h | ⟨ds, rfl, -⟩
  · obtain ⟨d, rest, rfl, hd⟩ := h.head_isDigit
    exact ⟨d, rest, rfl, Or.inl hd⟩
  · exact ⟨'-', ds, rfl, Or.inr rfl⟩

theorem IsFloatToken.startsNumber {cs : List Char} (h : IsFloatToken cs) :
    ∃ c t, cs = c :: t ∧ (c.isDigit ∨ c = '-') := by
  obtain ⟨i, f, e, rfl, hi, -⟩ := h
  obtain ⟨c, t, rfl, hc⟩ := hi.startsNumber
  exact ⟨c, t ++ f ++ e, by simp, hc⟩

/-- The decoder looks at the first character to tell the kinds of values
apart, and the first one of a number is none of the others. -/
theorem numberStart_ne {c : Char} (hc : c.isDigit ∨ c = '-') :
    (c ≠ '"' ∧ c ≠ '{' ∧ c ≠ '[' ∧ c ≠ 'n' ∧ c ≠ 't' ∧ c ≠ 'f') ∧
      isWs c = false ∧ c ≠ ']' ∧ c ≠ '}' := by
  rcases hc with hc | rfl
  · have hne : ∀ d : Char, d.isDigit = false → c ≠ d := fun d hd => ne_of_isDigit hc hd
    have hws : isWs c = false := by
      simp only [isWs, decide_eq_false_iff_not, not_or]
      exact ⟨hne _ (by decide), hne _ (by decide), hne _ (by decide), hne _ (by decide)⟩
    exact ⟨⟨hne _ (by decide), hne _ (by decide), hne _ (by decide), hne _ (by decide),
      hne _ (by decide), hne _ (by decide)⟩, hws, hne _ (by decide), hne _ (by decide)⟩
  · decide

/-- What the decoder does on a text of a node, whatever follows it. -/
def Scans : Node F → List Char → Prop
  | .value v, cs => ∀ r n, EndsNumber r → cs.length ≤ n →
      scanValue n (cs ++ r) = some (v, r)
  | .items xs, cs => ∀ r n, cs.length ≤ n → scanItems n (cs ++ r) = some (xs, r)
  | .members kvs, cs => ∀ r n, cs.length ≤ n → scanMembers n (cs ++ r) = some (kvs, r)

/-- The start of a text of a node: values and items start like a value,
members with a quote. -/
def Starts : Node F → List Char → Prop
  | .members _, cs => ∃ t, cs = '"' :: t
  | _, cs => StartsValue cs

/-- The texts of the grammar start as the decoder expects of their kind: a
value at once, the rest of a list or a dictionary after white space. -/
theorem starts_of_text {node : Node F} {cs : List Char} (h : Text node cs) :
    Starts node cs := by
  induction h with
  | int hi =>
      obtain ⟨c, t, rfl, hc⟩ := hi.startsNumber
      exact ⟨c, t, rfl, (numberStart_ne hc).2⟩
  | float hf =>
      obtain ⟨c, t, rfl, hc⟩ := hf.startsNumber
      exact ⟨c, t, rfl, (numberStart_ne hc).2⟩
  | lastItem hv hws ih => exact StartsValue.append ih _
  | item hv hws hws' htail ihv ihtail => exact StartsValue.append ihv _
  | lastMember => exact ⟨_, rfl⟩
  | member => exact ⟨_, rfl⟩
  | _ => exact ⟨_, _, rfl, by decide, by decide, by decide⟩

/-- No value starts with white space, so there is none to be skipped. -/
theorem skipWs_value {cs : List Char} (h : StartsValue cs) (r : List Char) :
    skipWs (cs ++ r) = cs ++ r := by
  obtain ⟨c, t, rfl, hc, -⟩ := h
  exact skipWs_cons hc _

/-- A text is not empty, so fuel for its length is a successor. -/
theorem fuel_of_text {node : Node F} {cs : List Char} (h : Text node cs) {n : ℕ}
    (hn : cs.length ≤ n) : ∃ m, n = m + 1 := by
  have hpos : 0 < cs.length := by
    apply List.length_pos_of_ne_nil
    intro hnil
    have hstarts := starts_of_text h
    rw [hnil] at hstarts
    cases node with
    | value v =>
        obtain ⟨c, t, hcons, -⟩ := hstarts
        cases hcons
    | items xs =>
        obtain ⟨c, t, hcons, -⟩ := hstarts
        cases hcons
    | members kvs =>
        obtain ⟨t, hcons⟩ := hstarts
        cases hcons
  exact Nat.exists_eq_succ_of_ne_zero (by omega)

/-- **The decoder follows the grammar.**  A text of a node is scanned to its
end, with fuel for its length, and denotes that node. -/
theorem scans_of_text {node : Node F} {cs : List Char} (h : Text node cs) :
    Scans node cs := by
  induction h with
  | null =>
      intro r n _ hn
      obtain ⟨n, rfl⟩ := fuel_of_text (F := F) .null hn
      rfl
  | true =>
      intro r n _ hn
      obtain ⟨n, rfl⟩ := fuel_of_text (F := F) .true hn
      rfl
  | false =>
      intro r n _ hn
      obtain ⟨n, rfl⟩ := fuel_of_text (F := F) .false hn
      rfl
  | int hi =>
      intro r n hr hn
      obtain ⟨n, rfl⟩ := fuel_of_text (F := F) (.int hi) hn
      obtain ⟨c, t, rfl, hc⟩ := hi.startsNumber
      rw [List.cons_append, scanValue_number (numberStart_ne hc).1,
        ← List.cons_append, scanNumber_int hi hr]
  | float hf =>
      intro r n hr hn
      obtain ⟨n, rfl⟩ := fuel_of_text (F := F) (.float hf) hn
      obtain ⟨c, t, rfl, hc⟩ := hf.startsNumber
      rw [List.cons_append, scanValue_number (numberStart_ne hc).1,
        ← List.cons_append, scanNumber_float hf hr]
  | nan =>
      intro r n _ hn
      obtain ⟨n, rfl⟩ := fuel_of_text (F := F) .nan hn
      rfl
  | inf =>
      intro r n _ hn
      obtain ⟨n, rfl⟩ := fuel_of_text (F := F) .inf hn
      rfl
  | negInf =>
      intro r n _ hn
      obtain ⟨n, rfl⟩ := fuel_of_text (F := F) .negInf hn
      rfl
  | str hs =>
      intro r n _ hn
      obtain ⟨n, rfl⟩ := fuel_of_text (F := F) (.str hs) hn
      simp [scanValue, scanString_of_body hs]
  | emptyList hws =>
      intro r n _ hn
      obtain ⟨n, rfl⟩ := fuel_of_text (F := F) (.emptyList hws) hn
      simp [scanValue, skipWs_append hws, skipWs_cons (c := ']') rfl]
  | emptyDict hws =>
      intro r n _ hn
      obtain ⟨n, rfl⟩ := fuel_of_text (F := F) (.emptyDict hws) hn
      simp [scanValue, skipWs_append hws, skipWs_cons (c := '}') rfl]
  | list hws hitems ih =>
      intro r n _ hn
      obtain ⟨n, rfl⟩ := fuel_of_text (.list hws hitems) hn
      obtain ⟨c, t, rfl, hc, hbracket, -⟩ := starts_of_text hitems
      have hscan := ih r n (by simp at hn ⊢; omega)
      rw [List.cons_append] at hscan
      simp [scanValue, skipWs_append hws, skipWs_cons hc, hbracket, hscan]
  | dict hws hmembers ih =>
      intro r n _ hn
      obtain ⟨n, rfl⟩ := fuel_of_text (.dict hws hmembers) hn
      obtain ⟨t, rfl⟩ := starts_of_text hmembers
      have hscan := ih r n (by simp at hn ⊢; omega)
      rw [List.cons_append] at hscan
      simp [scanValue, skipWs_append hws, skipWs_cons (c := '"') rfl, hscan]
  | lastItem hv hws ih =>
      intro r n hn
      obtain ⟨n, rfl⟩ := fuel_of_text (.lastItem hv hws) hn
      have hends := endsNumber_cons (c := ']') (by decide) r
      have hvalue := ih _ n (endsNumber_ws_append hws hends) (by simp at hn; omega)
      simp [scanItems, hvalue, skipWs_append hws, skipWs_cons (c := ']') rfl]
  | @item v xs t ws ws' t' hv hws hws' htail ihv ihtail =>
      intro r n hn
      obtain ⟨n, rfl⟩ := fuel_of_text (.item hv hws hws' htail) hn
      simp only [List.length_append, List.length_cons] at hn
      have hends := endsNumber_cons (c := ',') (by decide) (ws' ++ (t' ++ r))
      have hvalue := ihv _ n (endsNumber_ws_append hws hends) (by omega)
      have hrest := ihtail r n (by omega)
      simp [scanItems, hvalue, skipWs_append hws, skipWs_cons (c := ',') rfl,
        skipWs_append hws', skipWs_value (starts_of_text htail), hrest]
  | lastMember hk hws₁ hws₂ hv hws₃ ih =>
      intro r n hn
      obtain ⟨n, rfl⟩ := fuel_of_text (.lastMember hk hws₁ hws₂ hv hws₃) hn
      simp only [List.length_append, List.length_cons] at hn
      have hends := endsNumber_cons (c := '}') (by decide) r
      have hvalue := ih _ n (endsNumber_ws_append hws₃ hends) (by omega)
      simp [scanMembers, scanString_of_body hk, skipWs_append hws₁,
        skipWs_cons (c := ':') rfl, skipWs_append hws₂,
        skipWs_value (starts_of_text hv), hvalue, skipWs_append hws₃,
        skipWs_cons (c := '}') rfl]
  | @member k t ws₁ ws₂ t' ws₃ ws₄ t'' v kvs hk hws₁ hws₂ hv hws₃ hws₄ htail ihv ihtail =>
      intro r n hn
      obtain ⟨n, rfl⟩ := fuel_of_text (.member hk hws₁ hws₂ hv hws₃ hws₄ htail) hn
      simp only [List.length_append, List.length_cons] at hn
      have hends := endsNumber_cons (c := ',') (by decide) (ws₄ ++ (t'' ++ r))
      have hvalue := ihv _ n (endsNumber_ws_append hws₃ hends) (by omega)
      have hrest := ihtail r n (by omega)
      obtain ⟨u, rfl⟩ := starts_of_text htail
      simp only [List.cons_append] at hvalue hrest
      simp [scanMembers, scanString_of_body hk, skipWs_append hws₁,
        skipWs_cons (c := ':') rfl, skipWs_append hws₂,
        skipWs_value (starts_of_text hv), hvalue, skipWs_append hws₃,
        skipWs_cons (c := ',') rfl, skipWs_append hws₄, skipWs_cons (c := '"') rfl,
        hrest]

/-- **`json.loads` reads every JSON text as the value it denotes.** -/
theorem loads_of_text {v : Value F} {s : String} (h : IsTextOf v s) :
    loads s = some v := by
  obtain ⟨ws, t, ws', hs, hws, hws', ht⟩ := h
  have hends : EndsNumber ws' := by
    simpa using endsNumber_ws_append hws' endsNumber_nil
  have hscan := scans_of_text ht ws' (s.toList.length + 1) hends (by simp [hs]; omega)
  rw [loads, hs, skipWs_append hws, skipWs_value (starts_of_text ht), ← hs, hscan]
  simp [skipWs_of_ws hws']

end Values

end PyJson
