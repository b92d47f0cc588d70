import Mathlib
import AtlasMcp.JsonReading

/-!
# Writing and reading back

The text the encoder writes for a well-formed value is a JSON text of that value
(`text_encode`), with unknown scalars turned into strings.  Hence reading back
what was written gives the value (`loads_dumps`), and equal texts come from
equal values (`jsonify_eq_of_dumps_eq`).
-/

namespace PyJson

/-! ## Integers -/

/-- A positive number does not start with a zero. -/
theorem toDigits_head_ne_zero (n : ℕ) (hn : n ≠ 0) :
    ∃ d rest, Nat.toDigits 10 n = d :: rest ∧ d ≠ '0' := by
  induction n using Nat.strongRecOn with
  | ind n ih =>
      by_cases hlt : n < 10
      · rw [Nat.toDigits_of_lt_base hlt]
        refine ⟨_, [], rfl, ?_⟩
        interval_cases n
        · exact absurd rfl hn
        all_goals decide
      · obtain ⟨d, rest, hd, hne⟩ := ih (n / 10) (by omega) (by omega)
        rw [Nat.toDigits_of_base_le (by decide) (by omega), hd]
        exact ⟨d, _, rfl, hne⟩

/-- The decimal digits of a number have no zero before them that is not
needed. -/
theorem isNatToken_toDigits (n : ℕ) : IsNatToken (Nat.toDigits 10 n) := by
  by_cases hn : n = 0
  · subst hn
    exact Or.inl rfl
  · obtain ⟨d, rest, hd, hne⟩ := toDigits_head_ne_zero n hn
    exact Or.inr ⟨d, rest, hd, hne, fun c hc =>
      Nat.isDigit_of_mem_toDigits (by decide) (by decide) hc⟩

/-- The text of an integer is one of the grammar, with the sign in its
place. -/
theorem isIntToken_intText (n : ℤ) : IsIntToken (intText n) := by
  unfold intText
  split
  · exact Or.inr ⟨_, rfl, isNatToken_toDigits _⟩
  · exact Or.inl (isNatToken_toDigits _)

/-- The value of a number without a sign is that of its digits. -/
theorem intOfToken_natToken {ds : List Char} (h : IsNatToken ds) :
    intOfToken ds = Nat.ofDigitChars 10 ds 0 := by
  rw [intOfToken]
  intro t heq
  exact h.append_ne (by decide) [] t ((List.append_nil ds).trans heq)

/-- The text of an integer is read back as that integer. -/
theorem intOfToken_intText (n : ℤ) : intOfToken (intText n) = n := by
  unfold intText
  split
  · rw [intOfToken, Nat.ofDigitChars_ten_toDigits]
    omega
  · rw [intOfToken_natToken (isNatToken_toDigits _), Nat.ofDigitChars_ten_toDigits]
    omega

/-! ## Strings -/

theorem hexVal_hexDigit {n : ℕ} (h : n < 16) : hexVal (hexDigit n) = some n := by
  interval_cases n <;> rfl

/-- Four hexadecimal digits are read back as the number that they were written
for. -/
theorem hex4_hexDigits {n : ℕ} (h : n < 0x10000) :
    hex4 (hexDigit (n / 4096 % 16)) (hexDigit (n / 256 % 16)) (hexDigit (n / 16 % 16))
      (hexDigit (n % 16)) = some n := by
  simp only [hex4, hexVal_hexDigit (Nat.mod_lt _ (by decide : 0 < 16)),
    Option.pure_def, Option.bind_eq_bind, Option.bind_some, Option.some.injEq]
  omega

/-- A character of Lean is no surrogate, so none is written by itself. -/
theorem toNat_not_surrogate (c : Char) :
    c.toNat < 0xd800 ∨ 0xdfff < c.toNat ∧ c.toNat < 0x110000 :=
  c.valid

/-- The escaped text of a character denotes that character. -/
theorem stringBody_escapeChar (c : Char) {t s : List Char} (tail : StringBody t s) :
    StringBody (escapeChar c ++ t) (c :: s) := by
  have hvalid := toNat_not_surrogate c
  have hshort : ∀ e d, unescape e = some d → c = d →
      StringBody ('\\' :: e :: t) (c :: s) := by
    intro e d he hc
    rw [hc]
    exact StringBody.short he tail
  unfold escapeChar
  split_ifs with h₁ h₂ h₃ h₄ h₅ h₆ h₇ h₈ h₉
  · exact hshort '"' _ rfl h₁
  · exact hshort '\\' _ rfl h₂
  · exact hshort 'n' _ rfl h₃
  · exact hshort 'r' _ rfl h₄
  · exact hshort 't' _ rfl h₅
  · exact hshort 'f' _ rfl h₆
  · exact hshort 'b' _ rfl h₇
  · exact StringBody.raw h₈.1 h₁ h₂ tail
  · have hunit := StringBody.unit (hex4_hexDigits h₉) (by omega) tail
    rwa [Char.ofNat_toNat] at hunit
  · have hpair := StringBody.pair
      (hex4_hexDigits (n := 0xd800 + (c.toNat - 0x10000) / 0x400) (by omega)) (by omega)
      (hex4_hexDigits (n := 0xdc00 + (c.toNat - 0x10000) % 0x400) (by omega)) (by omega)
      tail
    have hcode : 0x10000 + (0xd800 + (c.toNat - 0x10000) / 0x400 - 0xd800) * 0x400 +
        (0xdc00 + (c.toNat - 0x10000) % 0x400 - 0xdc00) = c.toNat := by omega
    rwa [hcode, Char.ofNat_toNat] at hpair

/-- What is written for the characters of a text is the body of a string for
that text. -/
theorem stringBody_flatMap_escapeChar (s : List Char) :
    StringBody (s.flatMap escapeChar) s := by
  induction s with
  | nil => exact .nil
  | cons c s ih => exact stringBody_escapeChar c ih

/-! ## Values -/

section Values

variable {F : Type} [PyFloat F]

/-- What is written for a text is a text of the grammar. -/
theorem text_stringText (s : String) : Text (F := F) (.value (.str s)) (stringText s) := by
  have h := Text.str (F := F) (stringBody_flatMap_escapeChar s.toList)
  rwa [String.ofList_toList] at h

/-- What is written for a float is a text of the grammar. -/
theorem text_repr (x : F) : Text (.value (.float x)) (PyFloat.repr x) := by
  rcases PyFloat.repr_spec x with ⟨htok, hx⟩ | ⟨htok, rfl⟩ | ⟨htok, rfl⟩ | ⟨htok, rfl⟩
  · have h : Text (.value (.float (PyFloat.ofLiteral (PyFloat.repr x) : F))) _ :=
      Text.float htok
    rwa [hx] at h
  · rw [htok]
    exact Text.nan
  · rw [htok]
    exact Text.inf
  · rw [htok]
    exact Text.negInf

omit [PyFloat F] in
/-- Turning values into JSON leaves their keys as they are. -/
theorem keys_jsonifyMembers (kvs : List (String × Value F)) :
    (Value.jsonifyMembers kvs).map Prod.fst = kvs.map Prod.fst := by
  induction kvs with
  | nil => rfl
  | cons kv kvs ih => simp [Value.jsonifyMembers, ih]

theorem ws_nil : Ws [] := by simp [Ws]

theorem ws_space : Ws [' '] := by simp [Ws, isWs]

mutual

/-- **The encoder writes a JSON text of the value.** -/
theorem text_encode : ∀ v : Value F, v.Wf → Text (.value v.jsonify) (encode v)
  | .none, _ => .null
  | .bool true, _ => .true
  | .bool false, _ => .false
  | .int n, _ => by
      have h := Text.int (F := F) (isIntToken_intText n)
      rwa [intOfToken_intText] at h
  | .float x, _ => text_repr x
  | .str s, _ => text_stringText s
  | .list [], _ => .emptyList ws_nil
  | .list (v :: xs), hwf => by
      have h := Text.list ws_nil
        (text_encodeItems xs hwf.2 _ _ (text_encode v hwf.1))
      exact h
  | .dict [], _ => .emptyDict ws_nil
  | .dict ((k, v) :: kvs), hwf => by
      have hnodup : ((Value.jsonifyMembers ((k, v) :: kvs)).map Prod.fst).Nodup := by
        rw [keys_jsonifyMembers]
        exact hwf.1
      have h := Text.dict ws_nil
        (text_encodeMembers kvs hwf.2.2 k _ _ (text_encode v hwf.2.1))
      rw [← Value.jsonifyMembers, dictOf_of_nodup hnodup] at h
      simpa [encode, stringText, Value.jsonify] using h
  | .other _ text, _ => text_stringText text

/-- The text of a list continues the text `t` of its first item. -/
theorem text_encodeItems : ∀ xs : List (Value F), Value.WfItems xs →
    ∀ v t, Text (.value v) t →
      Text (.items (v :: Value.jsonifyItems xs)) (t ++ encodeItems xs)
  | [], _, _, _, hv => .lastItem hv ws_nil
  | v :: xs, hwf, _, _, hv => .item hv ws_nil ws_space
      (text_encodeItems xs hwf.2 _ _ (text_encode v hwf.1))

/-- The text of a dictionary continues the text `t` of its first value. -/
theorem text_encodeMembers : ∀ kvs : List (String × Value F), Value.WfMembers kvs →
    ∀ k v t, Text (.value v) t →
      Text (.members ((k, v) :: Value.jsonifyMembers kvs))
        ('"' :: (k.toList.flatMap escapeChar ++
          '"' :: ':' :: ' ' :: (t ++ encodeMembers kvs)))
  | [], _, k, _, _, hv => by
      have h := Text.lastMember (stringBody_flatMap_escapeChar k.toList) ws_nil ws_space
        hv ws_nil
      rwa [String.ofList_toList] at h
  | (k', v') :: kvs, hwf, k, _, _, hv => by
      have h := Text.member (stringBody_flatMap_escapeChar k.toList) ws_nil ws_space hv
        ws_nil ws_space (text_encodeMembers kvs hwf.2 k' _ _ (text_encode v' hwf.1))
      rw [String.ofList_toList] at h
      simpa [encodeMembers, stringText, Value.jsonifyMembers] using h

end

/-- What `json.dumps` writes is one of the texts of the value, as JSON. -/
theorem isTextOf_dumps {v : Value F} (hwf : v.Wf) : IsTextOf v.jsonify (dumps v) :=
  ⟨[], encode v, [], by simp [dumps], ws_nil, ws_nil, text_encode v hwf⟩

/-- **Reading back what was written.** -/
theorem loads_dumps {v : Value F} (hwf : v.Wf) : loads (dumps v) = some v.jsonify :=
  loads_of_text (isTextOf_dumps hwf)

/-- Values with the same text differ at most in unknown scalars. -/
theorem jsonify_eq_of_dumps_eq {v w : Value F} (hv : v.Wf) (hw : w.Wf)
    (h : dumps v = dumps w) : v.jsonify = w.jsonify := by
  have hread := loads_dumps hv
  rw [h, loads_dumps hw] at hread
  exact (Option.some.inj hread).symm

end Values

/-! ## An instance

Floats that are whole numbers, for runs on concrete inputs. -/

/-- Floats that are whole numbers, to have something to test with.  Their
literals are read back as they were written. -/
structure WholeFloat where
  whole : ℤ

/-- `12.0` for `12`. -/
def WholeFloat.text (x : WholeFloat) : List Char := intText x.whole ++ ['.', '0']

/-- The digits of a whole float are those before its point. -/
theorem takeWhile_wholeText (n : ℤ) :
    (intText n ++ ['.', '0']).takeWhile (· ≠ '.') = intText n := by
  have hdigits : ∀ c ∈ Nat.toDigits 10 n.natAbs, (decide (c ≠ '.')) = true := by
    intro c hc
    have hdigit := Nat.isDigit_of_mem_toDigits (by decide) (by decide) hc
    exact decide_eq_true (ne_of_isDigit hdigit (by decide))
  have hall : ∀ c ∈ intText n, (decide (c ≠ '.')) = true := by
    unfold intText
    split
    · simpa using hdigits
    · exact hdigits
  rw [List.takeWhile_append_of_pos hall]
  simp

instance : PyFloat WholeFloat where
  repr x := x.text
  ofLiteral cs := ⟨intOfToken (cs.takeWhile (· ≠ '.'))⟩
  nan := ⟨0⟩
  inf := ⟨0⟩
  negInf := ⟨0⟩
  ofRat q := ⟨⌊q⌋⟩
  fixed1 x := String.ofList x.text
  isZero x := x.whole = 0
  repr_spec x := by
    refine Or.inl ⟨⟨intText x.whole, ['.', '0'], [], by simp [WholeFloat.text],
      isIntToken_intText _, Or.inr ⟨['0'], rfl, by simp, by simp⟩, Or.inl rfl,
      Or.inl (by decide)⟩, ?_⟩
    rw [WholeFloat.text, takeWhile_wholeText, intOfToken_intText]

end PyJson
