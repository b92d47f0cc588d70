import Mathlib
import AtlasMcp.JsonReading

/-!
# The decoder reads JSON texts only

What the decoder reads off the front of a text is a text of the grammar, and denotes what the
decoder makes of it (`text_of_scan`).  With `loads_of_text`, `json.loads` takes exactly the JSON
texts (`loads_eq_some_iff`).

No text of an object begins another one (`object_text_append`): the decoder has read an object
when it has read its closing brace, whatever follows.
-/

namespace PyJson

theorem ws_skipWs (cs : List Char) : ∃ ws, Ws ws ∧ cs = ws ++ skipWs cs :=
  ⟨cs.takeWhile isWs, fun _ hc => List.mem_takeWhile_imp hc, List.takeWhile_append_dropWhile.symm⟩

/-- A scanned character and what is scanned after it. -/
theorem scanString_of_map {c : Char} {cs s r : List Char}
    (h : (scanString cs).map (fun (s, r) => (c :: s, r)) = some (s, r)) :
    ∃ s', s = c :: s' ∧ scanString cs = some (s', r) := by
  obtain ⟨⟨s', r'⟩, hscan, heq⟩ := Option.map_eq_some_iff.mp h
  obtain ⟨rfl, rfl⟩ := Prod.mk.inj heq
  exact ⟨s', rfl, hscan⟩

/-- The body of a string, up to the quote that closes it. -/
theorem body_of_scanString {cs s r : List Char} (h : scanString cs = some (s, r)) :
    ∃ t, cs = t ++ '"' :: r ∧ StringBody t s := by
  fun_induction scanString cs generalizing s r with
  | case2 rest =>
      obtain ⟨rfl, rfl⟩ := Prod.mk.inj (Option.some.inj h)
      exact ⟨[], rfl, .nil⟩
  | case4 a b c d n hn hhigh a' b' c' d' rest m hm hlow ih =>
      obtain ⟨s', rfl, hscan⟩ := scanString_of_map h
      obtain ⟨t, rfl, ht⟩ := ih hscan
      exact ⟨_, rfl, .pair hn hhigh hm hlow ht⟩
  | case9 a b c d rest n hn hhigh hlow ih =>
      obtain ⟨s', rfl, hscan⟩ := scanString_of_map h
      obtain ⟨t, rfl, ht⟩ := ih hscan
      exact ⟨_, rfl, .unit hn (by omega) ht⟩
  | case11 e rest _ c hc ih =>
      obtain ⟨s', rfl, hscan⟩ := scanString_of_map h
      obtain ⟨t, rfl, ht⟩ := ih hscan
      exact ⟨_, rfl, .short hc ht⟩
  | case13 c rest hquote _ hback hctl ih =>
      obtain ⟨s', rfl, hscan⟩ := scanString_of_map h
      obtain ⟨t, rfl, ht⟩ := ih hscan
      -- a backslash would have a character after it
      refine ⟨_, rfl, .raw (by omega) hquote (fun hc => ?_) ht⟩
      cases t with
      | nil => exact hback _ _ hc rfl
      | cons e t => exact hback _ _ hc rfl
  | _ => cases h

/-- What was scanned as digits are digits, and nothing is lost. -/
theorem digits_of_scanDigits {cs ds r : List Char} (h : scanDigits cs = (ds, r)) :
    cs = ds ++ r ∧ ∀ c ∈ ds, c.isDigit := by
  obtain ⟨rfl, rfl⟩ := Prod.mk.inj h
  exact ⟨List.takeWhile_append_dropWhile.symm, fun c hc => List.mem_takeWhile_imp hc⟩

/-- What was scanned as a natural number is one of the grammar. -/
theorem token_of_scanNat {cs ds r : List Char} (h : scanNat cs = some (ds, r)) :
    cs = ds ++ r ∧ IsNatToken ds := by
  unfold scanNat at h
  split at h
  next rest =>
    obtain ⟨rfl, rfl⟩ := Prod.mk.inj (Option.some.inj h)
    exact ⟨rfl, Or.inl rfl⟩
  next _ hzero =>
    split at h
    next => cases h
    next found hne =>
      have hdigits : scanDigits cs = (ds, r) := Option.some.inj h
      obtain ⟨rfl, hall⟩ := digits_of_scanDigits hdigits
      refine ⟨rfl, Or.inr ?_⟩
      cases ds with
      | nil => exact absurd hdigits (hne r)
      | cons d rest => exact ⟨d, rest, rfl, fun hd => hzero (rest ++ r) (by rw [hd]; rfl), hall⟩

/-- What was scanned as an integer is one of the grammar. -/
theorem token_of_scanInt {cs i r : List Char} (h : scanInt cs = some (i, r)) :
    cs = i ++ r ∧ IsIntToken i := by
  unfold scanInt at h
  split at h
  next rest =>
    obtain ⟨⟨ds, r'⟩, hscan, heq⟩ := Option.map_eq_some_iff.mp h
    obtain ⟨rfl, rfl⟩ := Prod.mk.inj heq
    obtain ⟨rfl, hds⟩ := token_of_scanNat hscan
    exact ⟨rfl, Or.inr ⟨ds, rfl, hds⟩⟩
  next =>
    obtain ⟨rfl, hi⟩ := token_of_scanNat h
    exact ⟨rfl, Or.inl hi⟩

/-- What was scanned as a fraction is one of the grammar, or nothing. -/
theorem token_of_scanFrac {cs f r : List Char} (h : scanFrac cs = (f, r)) :
    cs = f ++ r ∧ IsFracToken f := by
  unfold scanFrac at h
  split at h
  next rest =>
    split at h
    next =>
      obtain ⟨rfl, rfl⟩ := Prod.mk.inj h
      exact ⟨rfl, Or.inl rfl⟩
    next ds r' hne hdigits =>
      obtain ⟨rfl, rfl⟩ := Prod.mk.inj h
      obtain ⟨rfl, hall⟩ := digits_of_scanDigits hdigits
      exact ⟨rfl, Or.inr ⟨ds, rfl, hne, hall⟩⟩
  next =>
    obtain ⟨rfl, rfl⟩ := Prod.mk.inj h
    exact ⟨rfl, Or.inl rfl⟩

theorem sign_of_scanSign (cs : List Char) :
    cs = (scanSign cs).1 ++ (scanSign cs).2 ∧
      ((scanSign cs).1 = [] ∨ (scanSign cs).1 = ['-'] ∨ (scanSign cs).1 = ['+']) := by
  unfold scanSign
  split
  · exact ⟨rfl, Or.inr (Or.inl rfl)⟩
  · exact ⟨rfl, Or.inr (Or.inr rfl)⟩
  · exact ⟨rfl, Or.inl rfl⟩

/-- What was scanned as an exponent is one of the grammar, or nothing. -/
theorem token_of_scanExp {cs e r : List Char} (h : scanExp cs = (e, r)) :
    cs = e ++ r ∧ IsExpToken e := by
  unfold scanExp at h
  split at h
  next =>
    obtain ⟨rfl, rfl⟩ := Prod.mk.inj h
    exact ⟨rfl, Or.inl rfl⟩
  next x rest =>
    split at h
    next hx =>
      split at h
      next =>
        obtain ⟨rfl, rfl⟩ := Prod.mk.inj h
        exact ⟨rfl, Or.inl rfl⟩
      next ds r' hne hdigits =>
        obtain ⟨rfl, rfl⟩ := Prod.mk.inj h
        obtain ⟨hrest, hall⟩ := digits_of_scanDigits hdigits
        obtain ⟨hsplit, hsign⟩ := sign_of_scanSign rest
        refine ⟨?_, Or.inr ⟨x, _, ds, rfl, hx, hsign, hne, hall⟩⟩
        conv_lhs => rw [hsplit, hrest]
        simp
    next =>
      obtain ⟨rfl, rfl⟩ := Prod.mk.inj h
      exact ⟨rfl, Or.inl rfl⟩

section Values

variable {F : Type} [PyFloat F]

/-- What was scanned as a number is a text of its value. -/
theorem text_of_scanNumber {cs r : List Char} {v : Value F} (h : scanNumber cs = some (v, r)) :
    ∃ t, cs = t ++ r ∧ Text (.value v) t := by
  unfold scanNumber at h
  split at h
  next i r₁ hint =>
    obtain ⟨f, r₂, hfrac⟩ : ∃ f r₂, scanFrac r₁ = (f, r₂) := ⟨_, _, rfl⟩
    obtain ⟨e, r₃, hexp⟩ : ∃ e r₃, scanExp r₂ = (e, r₃) := ⟨_, _, rfl⟩
    obtain ⟨rfl, hi⟩ := token_of_scanInt hint
    obtain ⟨rfl, hf⟩ := token_of_scanFrac hfrac
    obtain ⟨rfl, he⟩ := token_of_scanExp hexp
    simp only [hfrac, hexp] at h
    split_ifs at h with hnone
    · obtain ⟨rfl, rfl⟩ := Prod.mk.inj (Option.some.inj h)
      obtain ⟨rfl, rfl⟩ := hnone
      exact ⟨i, rfl, .int hi⟩
    · obtain ⟨rfl, rfl⟩ := Prod.mk.inj (Option.some.inj h)
      exact ⟨i ++ f ++ e, by simp, .float ⟨i, f, e, rfl, hi, hf, he, not_and_or.mp hnone⟩⟩
  next =>
    split at h
    · obtain ⟨rfl, rfl⟩ := Prod.mk.inj (Option.some.inj h)
      exact ⟨_, rfl, .nan⟩
    · obtain ⟨rfl, rfl⟩ := Prod.mk.inj (Option.some.inj h)
      exact ⟨_, rfl, .inf⟩
    · obtain ⟨rfl, rfl⟩ := Prod.mk.inj (Option.some.inj h)
      exact ⟨_, rfl, .negInf⟩
    · cases h

/-- What is read off the front of a text is a text of the node read, and the
rest is what comes after it. -/
def ReadsTexts {α : Type} (scan : List Char → Option (α × List Char)) (node : α → Node F) : Prop :=
  ∀ cs a r, scan cs = some (a, r) → ∃ t, cs = t ++ r ∧ Text (node a) t

variable {n : ℕ}

/-- The decoder reads texts of the grammar, if it does for the items and the
members. -/
theorem readsTexts_scanValue (hitems : ReadsTexts (F := F) (scanItems n) .items)
    (hmembers : ReadsTexts (F := F) (scanMembers n) .members) :
    ReadsTexts (F := F) (scanValue (n + 1)) .value := by
  intro cs v r h
  rw [scanValue.eq_def] at h
  simp only at h
  split at h
  next rest =>
    obtain ⟨⟨s, r'⟩, hscan, heq⟩ := Option.map_eq_some_iff.mp h
    obtain ⟨rfl, rfl⟩ := Prod.mk.inj heq
    obtain ⟨t, rfl, ht⟩ := body_of_scanString hscan
    exact ⟨'"' :: (t ++ ['"']), by simp, .str ht⟩
  next rest =>
    obtain ⟨ws, hws, hrest⟩ := ws_skipWs rest
    split at h
    next r' hskip =>
      obtain ⟨rfl, rfl⟩ := Prod.mk.inj (Option.some.inj h)
      exact ⟨'{' :: (ws ++ ['}']), by rw [hrest, hskip]; simp, .emptyDict hws⟩
    next =>
      obtain ⟨⟨kvs, r'⟩, hscan, heq⟩ := Option.map_eq_some_iff.mp h
      obtain ⟨rfl, rfl⟩ := Prod.mk.inj heq
      obtain ⟨t, hskip, ht⟩ := hmembers _ _ _ hscan
      exact ⟨'{' :: (ws ++ t), by rw [hrest, hskip]; simp, .dict hws ht⟩
  next rest =>
    obtain ⟨ws, hws, hrest⟩ := ws_skipWs rest
    split at h
    next r' hskip =>
      obtain ⟨rfl, rfl⟩ := Prod.mk.inj (Option.some.inj h)
      exact ⟨'[' :: (ws ++ [']']), by rw [hrest, hskip]; simp, .emptyList hws⟩
    next =>
      obtain ⟨⟨xs, r'⟩, hscan, heq⟩ := Option.map_eq_some_iff.mp h
      obtain ⟨rfl, rfl⟩ := Prod.mk.inj heq
      obtain ⟨t, hskip, ht⟩ := hitems _ _ _ hscan
      exact ⟨'[' :: (ws ++ t), by rw [hrest, hskip]; simp, .list hws ht⟩
  next =>
    obtain ⟨rfl, rfl⟩ := Prod.mk.inj (Option.some.inj h)
    exact ⟨_, rfl, .null⟩
  next =>
    obtain ⟨rfl, rfl⟩ := Prod.mk.inj (Option.some.inj h)
    exact ⟨_, rfl, .true⟩
  next =>
    obtain ⟨rfl, rfl⟩ := Prod.mk.inj (Option.some.inj h)
    exact ⟨_, rfl, .false⟩
  next => exact text_of_scanNumber h

/-- It reads texts of the items, if it does for a value. -/
theorem readsTexts_scanItems (hvalue : ReadsTexts (F := F) (scanValue n) .value)
    (hitems : ReadsTexts (F := F) (scanItems n) .items) :
    ReadsTexts (F := F) (scanItems (n + 1)) .items := by
  intro cs xs r h
  rw [scanItems.eq_def] at h
  simp only at h
  split at h
  next => cases h
  next v r₁ hscan =>
    obtain ⟨t, rfl, hv⟩ := hvalue _ _ _ hscan
    obtain ⟨ws, hws, hr₁⟩ := ws_skipWs r₁
    split at h
    next r₂ hskip =>
      obtain ⟨rfl, rfl⟩ := Prod.mk.inj (Option.some.inj h)
      exact ⟨t ++ (ws ++ [']']), by rw [hr₁, hskip]; simp, .lastItem hv hws⟩
    next r₂ hskip =>
      obtain ⟨⟨xs, r'⟩, hscan', heq⟩ := Option.map_eq_some_iff.mp h
      obtain ⟨rfl, rfl⟩ := Prod.mk.inj heq
      obtain ⟨ws', hws', hr₂⟩ := ws_skipWs r₂
      obtain ⟨t', hskip', htail⟩ := hitems _ _ _ hscan'
      exact ⟨t ++ (ws ++ ',' :: (ws' ++ t')), by rw [hr₁, hskip, hr₂, hskip']; simp,
        .item hv hws hws' htail⟩
    next => cases h

/-- It reads texts of the members, if it does for a value. -/
theorem readsTexts_scanMembers (hvalue : ReadsTexts (F := F) (scanValue n) .value)
    (hmembers : ReadsTexts (F := F) (scanMembers n) .members) :
    ReadsTexts (F := F) (scanMembers (n + 1)) .members := by
  intro cs kvs r h
  rw [scanMembers.eq_def] at h
  split at h
  next n' rest heq =>
    obtain rfl := Nat.succ.inj heq
    split at h
    next => cases h
    next k r₁ hstring =>
      obtain ⟨t, rfl, hk⟩ := body_of_scanString hstring
      obtain ⟨ws₁, hws₁, hr₁⟩ := ws_skipWs r₁
      split at h
      next r₂ hcolon =>
        obtain ⟨ws₂, hws₂, hr₂⟩ := ws_skipWs r₂
        split at h
        next => cases h
        next v r₃ hscan =>
          obtain ⟨t', hvalue', hv⟩ := hvalue _ _ _ hscan
          obtain ⟨ws₃, hws₃, hr₃⟩ := ws_skipWs r₃
          split at h
          next r₄ hbrace =>
            obtain ⟨rfl, rfl⟩ := Prod.mk.inj (Option.some.inj h)
            exact ⟨_, by rw [hr₁, hcolon, hr₂, hvalue', hr₃, hbrace]; simp,
              .lastMember hk hws₁ hws₂ hv hws₃⟩
          next r₄ hcomma =>
            obtain ⟨⟨kvs, r'⟩, hscan', heq⟩ := Option.map_eq_some_iff.mp h
            obtain ⟨rfl, rfl⟩ := Prod.mk.inj heq
            obtain ⟨ws₄, hws₄, hr₄⟩ := ws_skipWs r₄
            obtain ⟨t'', hmembers', htail⟩ := hmembers _ _ _ hscan'
            exact ⟨_, by rw [hr₁, hcolon, hr₂, hvalue', hr₃, hcomma, hr₄, hmembers']; simp,
              .member hk hws₁ hws₂ hv hws₃ hws₄ htail⟩
          next => cases h
      next => cases h
  next => cases h

/-- **The decoder reads texts of the grammar only**, by induction on the
fuel. -/
theorem text_of_scan (n : ℕ) :
    ReadsTexts (F := F) (scanValue n) .value ∧ ReadsTexts (F := F) (scanItems n) .items ∧
      ReadsTexts (F := F) (scanMembers n) .members := by
  induction n with
  | zero => exact ⟨nofun, nofun, fun cs kvs r h => by simp [scanMembers] at h⟩
  | succ n ih =>
      obtain ⟨hvalue, hitems, hmembers⟩ := ih
      exact ⟨readsTexts_scanValue hitems hmembers, readsTexts_scanItems hvalue hitems,
        readsTexts_scanMembers hvalue hmembers⟩

/-- **`json.loads` takes exactly the JSON texts**, each as the value it
denotes. -/
theorem loads_eq_some_iff {v : Value F} {s : String} : loads s = some v ↔ IsTextOf v s := by
  refine ⟨fun h => ?_, loads_of_text⟩
  unfold loads at h
  split at h
  next v' r hscan =>
    split_ifs at h with hrest
    obtain rfl := Option.some.inj h
    obtain ⟨ws, hws, htext⟩ := ws_skipWs s.toList
    obtain ⟨t, hskip, ht⟩ := (text_of_scan _).1 _ _ _ hscan
    obtain ⟨ws', hws', hr⟩ := ws_skipWs r
    rw [hrest, List.append_nil] at hr
    exact ⟨ws, t, ws', by rw [htext, hskip, hr], hws, hr ▸ hws', ht⟩
  next => cases h

/-- An object is read up to its closing brace, whatever follows. -/
theorem scanValue_object {kvs : List (String × Value F)} {t : List Char}
    (h : Text (.value (.dict kvs)) t) (r : List Char) {n : ℕ} (hn : t.length ≤ n) :
    scanValue n (t ++ r) = some (.dict kvs, r) := by
  obtain ⟨n, rfl⟩ := fuel_of_text h hn
  cases h with
  | emptyDict hws => simp [scanValue, skipWs_append hws, skipWs_cons (c := '}') rfl]
  | dict hws hmembers =>
      obtain ⟨t, rfl⟩ := starts_of_text hmembers
      have hscan := scans_of_text hmembers r n (by simp at hn ⊢; omega)
      rw [List.cons_append] at hscan
      simp [scanValue, skipWs_append hws, skipWs_cons (c := '"') rfl, hscan]

/-- **No object text begins another one.** -/
theorem object_text_append {kvs kvs' : List (String × Value F)} {t r : List Char}
    (h : Text (.value (.dict kvs)) t) (h' : Text (.value (.dict kvs')) (t ++ r)) : r = [] := by
  have hfront := scanValue_object h r (n := (t ++ r).length) (by simp)
  have hwhole := scanValue_object h' [] le_rfl
  rw [List.append_nil, hfront] at hwhole
  exact (Prod.mk.inj (Option.some.inj hwhole)).2

/-- Where a text ends: members end with a brace. -/
def EndsNode : Node F → List Char → Prop
  | .members _, cs => ∃ inner, cs = inner ++ ['}']
  | _, _ => True

/-- A text of the grammar ends where its kind ends: a value, the bracket of a
list, or that of a dictionary. -/
theorem endsNode_of_text {node : Node F} {cs : List Char} (h : Text node cs) :
    EndsNode node cs := by
  induction h with
  | @lastMember k t ws₁ ws₂ t' ws₃ v hk hws₁ hws₂ hv hws₃ ih =>
      exact ⟨'"' :: (t ++ '"' :: (ws₁ ++ ':' :: (ws₂ ++ (t' ++ ws₃)))), by simp⟩
  | @member k t ws₁ ws₂ t' ws₃ ws₄ t'' v kvs hk hws₁ hws₂ hv hws₃ hws₄ htail ihv ihtail =>
      obtain ⟨inner, rfl⟩ := ihtail
      exact ⟨'"' :: (t ++ '"' :: (ws₁ ++ ':' :: (ws₂ ++ (t' ++ (ws₃ ++ ',' :: (ws₄ ++ inner)))))),
        by simp⟩
  | _ => trivial

/-- An object text stands between braces. -/
theorem braces_of_object {kvs : List (String × Value F)} {t : List Char}
    (h : Text (.value (.dict kvs)) t) : ∃ inner, t = '{' :: (inner ++ ['}']) := by
  cases h with
  | emptyDict hws => exact ⟨_, rfl⟩
  | dict hws hmembers =>
      obtain ⟨inner, rfl⟩ := endsNode_of_text hmembers
      exact ⟨_, by rw [← List.append_assoc]⟩

/-- A text of a value that begins and ends with braces has no white space
around it. -/
theorem text_of_isTextOf {v : Value F} {inner : List Char}
    (h : IsTextOf v (String.ofList ('{' :: (inner ++ ['}'])))) :
    Text (.value v) ('{' :: (inner ++ ['}'])) := by
  obtain ⟨ws, t, ws', htext, hleft, hright, ht⟩ := h
  rw [String.toList_ofList] at htext
  have hfront : ws = [] := by
    cases ws with
    | nil => rfl
    | cons w ws =>
        obtain ⟨rfl, -⟩ := List.cons.inj htext
        exact absurd (hleft '{' (by simp)) (by decide)
  have hback : ws' = [] := by
    rcases List.eq_nil_or_concat ws' with hnil | ⟨ws', w, rfl⟩
    · exact hnil
    · rw [← List.cons_append, List.concat_eq_append, ← List.append_assoc,
        ← List.append_assoc] at htext
      obtain ⟨-, hlast⟩ := List.append_inj' htext rfl
      obtain rfl : '}' = w := by simpa using hlast
      exact absurd (hright '}' (by simp)) (by decide)
  rw [hfront, hback, List.nil_append, List.append_nil] at htext
  rwa [htext]

end Values

end PyJson
