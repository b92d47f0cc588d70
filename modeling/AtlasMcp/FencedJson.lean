import AtlasMcp.AgentBase
import AtlasMcp.JsonGrammar

/-!
# What the agents find in a completion

`parseJsonLenient` cuts an object out of prose by its first and last brace, and out of a fence by
the next fence.  Braces inside the strings of the object do no harm: the outermost ones are its
own.  A fence inside one of its strings does, if the text begins with the fence around it: the
object is cut off there, and what is left of it is no JSON text (`parseJsonLenient_wrapped_iff`).
-/

namespace Agents

open PyJson PyText Errors

/-- Text without braces and backticks, as a model writes it before and after an
object. -/
structure Prose (cs : List Char) : Prop where
  noBrace : '{' ∉ cs ∧ '}' ∉ cs
  noBacktick : '\x60' ∉ cs

/-- Nothing but white space. -/
def Blank (cs : List Char) : Prop := ∀ c ∈ cs, isSpace c = true

/-- Three backticks. -/
def fence : List Char := ['\x60', '\x60', '\x60']

/-- The text in a fence of its kind. -/
def fenced (text : List Char) : List Char :=
  fence ++ (['j', 's', 'o', 'n', '\n'] ++ (text ++ '\n' :: fence))

section Cutting

/-- What is dropped at the end of a text is dropped after its last character
that stays. -/
theorem rdropWhile_append {p : Char → Bool} {d : Char} (hd : p d = false) (t s : List Char) :
    (t ++ (d :: s)).rdropWhile p = t ++ (d :: s.rdropWhile p) := by
  induction s using List.reverseRecOn with
  | nil => simp [hd]
  | append_singleton s x ih =>
      rw [← List.cons_append, ← List.append_assoc, List.rdropWhile_concat, List.rdropWhile_concat]
      split_ifs
      · exact ih
      · simp

/-- White space is stripped at the ends of what stands around a text. -/
theorem strip_around {c d : Char} (hc : isSpace c = false) (hd : isSpace d = false)
    (p inner s : List Char) :
    strip (p ++ (c :: (inner ++ (d :: s)))) =
      p.dropWhile isSpace ++ (c :: (inner ++ (d :: s.rdropWhile isSpace))) := by
  have hfront : (p ++ (c :: (inner ++ (d :: s)))).dropWhile isSpace =
      p.dropWhile isSpace ++ (c :: (inner ++ (d :: s))) := by
    rw [List.dropWhile_append]
    split_ifs with hblank
    · rw [List.isEmpty_iff.mp hblank, List.dropWhile_cons_of_neg (by simp [hc]), List.nil_append]
    · rfl
  have hback := rdropWhile_append hd (p.dropWhile isSpace ++ c :: inner) s
  rw [strip, hfront]
  simpa using hback

/-- From the first opening to the last closing brace. -/
theorem cut_around {p s : List Char} (hp : '{' ∉ p) (hs : '}' ∉ s) (inner : List Char) :
    ((p ++ ('{' :: (inner ++ ('}' :: s)))).rdropWhile (· ≠ '}')).drop
      ((p ++ ('{' :: (inner ++ ('}' :: s)))).idxOf '{') = '{' :: (inner ++ ['}']) := by
  have hindex : (p ++ ('{' :: (inner ++ ('}' :: s)))).idxOf '{' = p.length := by
    rw [List.idxOf_append, if_neg hp, List.idxOf_cons_self, Nat.zero_add]
  have hnone : s.rdropWhile (· ≠ '}') = [] :=
    List.rdropWhile_eq_nil_iff.mpr fun x hx => decide_eq_true fun h => hs (h ▸ hx)
  have hback := rdropWhile_append (p := (· ≠ '}')) (d := '}') (by simp) (p ++ '{' :: inner) s
  rw [hnone, List.append_assoc, List.append_assoc, List.cons_append] at hback
  rw [hindex, hback, List.drop_left]
  rfl

/-- The last of the closing braces. -/
theorem exists_last_brace {l : List Char} (h : '}' ∈ l) :
    ∃ front back, l = front ++ '}' :: back ∧ '}' ∉ back := by
  obtain ⟨back, front, hsplit, hlast⟩ := List.eq_append_cons_of_mem (List.mem_reverse.mpr h)
  refine ⟨front.reverse, back.reverse, ?_, fun hmem => hlast (List.mem_reverse.mp hmem)⟩
  rw [← List.reverse_reverse l, hsplit]
  simp

/-- What a text without the character ends before the end of a longer one. -/
theorem isPrefix_of_append_cons {sep l r : List Char} {c : Char} (hc : c ∉ sep)
    (h : sep <+: l ++ c :: r) : sep <+: l := by
  induction sep generalizing l with
  | nil => exact List.nil_prefix
  | cons x sep ih =>
      cases l with
      | nil => exact absurd (by simp [(List.cons_prefix_cons.mp h).1]) hc
      | cons y l =>
          obtain ⟨rfl, hrest⟩ := List.cons_prefix_cons.mp h
          exact List.cons_prefix_cons.mpr ⟨rfl, ih (fun hmem => hc (by simp [hmem])) hrest⟩

variable {sep : List Char}

/-- Where the separator is at once, nothing is before it. -/
theorem before_cons_of_isPrefix {c : Char} {l : List Char} (h : sep <+: c :: l) :
    before sep (c :: l) = [] := by
  rw [before, if_pos (List.isPrefixOf_iff_prefix.mpr h)]

/-- Where it is not, the first character is before it, and so is what is
before it in the rest. -/
theorem before_cons_of_not_isPrefix {c : Char} {l : List Char} (h : ¬ sep <+: c :: l) :
    before sep (c :: l) = c :: before sep l := by
  rw [before, if_neg fun hmem => h (List.isPrefixOf_iff_prefix.mp hmem)]

/-- No separator begins in a text without its first character. -/
theorem before_append_of_notMem {c : Char} (hsep : sep.head? = some c) {l : List Char}
    (hl : c ∉ l) (r : List Char) : before sep (l ++ r) = l ++ before sep r := by
  obtain ⟨sep, rfl⟩ := List.head?_eq_some_iff.mp hsep
  induction l with
  | nil => rfl
  | cons x l ih =>
      simp only [List.mem_cons, not_or] at hl
      rw [List.cons_append,
        before_cons_of_not_isPrefix fun h => hl.1 (List.cons_prefix_cons.mp h).1, ih hl.2,
        List.cons_append]

/-- A separator in a text ends it, whatever follows. -/
theorem before_of_isInfix (hsep : sep ≠ []) {l : List Char} (h : sep <:+: l) (r : List Char) :
    before sep (l ++ r) = before sep l ∧ ∃ b, l = before sep l ++ (sep ++ b) := by
  induction l with
  | nil => exact absurd (List.infix_nil.mp h) hsep
  | cons c l ih =>
      by_cases hfront : sep <+: c :: l
      · obtain ⟨b, hb⟩ := hfront
        have hlong : sep <+: c :: (l ++ r) := ⟨b ++ r, by rw [← List.append_assoc, hb]; rfl⟩
        rw [List.cons_append, before_cons_of_isPrefix ⟨b, hb⟩, before_cons_of_isPrefix hlong]
        exact ⟨rfl, b, hb.symm⟩
      · have hrest : sep <:+: l := (List.infix_cons_iff.mp h).resolve_left hfront
        have hlong : ¬ sep <+: c :: (l ++ r) := fun hlong =>
          hfront (List.prefix_of_prefix_length_le hlong (List.prefix_append (c :: l) r)
            (le_trans hrest.length_le (by simp)))
        obtain ⟨hbefore, b, hb⟩ := ih hrest
        rw [List.cons_append, before_cons_of_not_isPrefix hlong,
          before_cons_of_not_isPrefix hfront, hbefore]
        exact ⟨rfl, b, by rw [List.cons_append, ← hb]⟩

/-- A text without separator, up to the separator on the next line. -/
theorem before_next_line (hsep : sep ≠ []) (hline : '\n' ∉ sep) {l : List Char}
    (h : ¬ sep <:+: l) (r : List Char) :
    before sep (l ++ '\n' :: (sep ++ r)) = l ++ ['\n'] := by
  induction l with
  | nil =>
      have hnot : ¬ sep <+: '\n' :: (sep ++ r) := fun hfront =>
        h (isPrefix_of_append_cons (l := []) hline hfront).isInfix
      have hnext : before sep (sep ++ r) = [] := by
        obtain ⟨c, sep, rfl⟩ := List.exists_cons_of_ne_nil hsep
        exact before_cons_of_isPrefix (List.prefix_append _ _)
      rw [List.nil_append, before_cons_of_not_isPrefix hnot, hnext]
      rfl
  | cons c l ih =>
      have hnot : ¬ sep <+: c :: (l ++ '\n' :: (sep ++ r)) := fun hfront =>
        h (isPrefix_of_append_cons (l := c :: l) hline hfront).isInfix
      rw [List.cons_append, before_cons_of_not_isPrefix hnot,
        ih fun hrest => h (List.infix_cons hrest)]
      rfl

end Cutting

section Found

variable {F : Type} [PyFloat F] {p s inner : List Char} {kvs : List (String × Value F)}
  {v : Value F}

/-- Only a text that begins with a backtick can begin with a fence. -/
theorem bareText_of_head (text : List Char) (h : (strip text).head? ≠ some '\x60') :
    bareText text = strip text := by
  refine if_neg fun hfence => h ?_
  obtain ⟨rest, hrest⟩ := List.isPrefixOf_iff_prefix.mp hfence
  rw [← hrest]
  rfl

/-- What is left of the prose before a text begins with no backtick. -/
theorem Prose.head_append {c : Char} (hp : Prose p) (hc : c ≠ '\x60') (t : List Char) :
    (p.dropWhile isSpace ++ c :: t).head? ≠ some '\x60' := by
  intro h
  cases hfront : p.dropWhile isSpace with
  | nil => exact hc (by simpa [hfront] using h)
  | cons x rest =>
      obtain rfl : x = '\x60' := by simpa [hfront] using h
      exact hp.noBacktick ((List.dropWhile_suffix _).subset (by rw [hfront]; simp))

/-- An object between texts without the brace that would shift its end. -/
theorem parse_of_bareText {text : List Char}
    (hbare : bareText text = p ++ ('{' :: (inner ++ ('}' :: s)))) (hp : '{' ∉ p) (hs : '}' ∉ s)
    (hJ : Text (.value v) ('{' :: (inner ++ ['}']))) :
    parseJsonLenient (String.ofList text) = .ok v := by
  have hread : loads (String.ofList ('{' :: (inner ++ ['}']))) = some v :=
    loads_of_text ⟨[], _, [], by simp, nofun, nofun, hJ⟩
  simp only [parseJsonLenient, String.toList_ofList, hbare, cut_around hp hs, hread]
  rw [if_pos (by simp)]

/-- **Plain text.**  The object is found between any prose. -/
theorem found_in_prose {text : List Char} (hJ : Text (.value (.dict kvs)) text) (hp : Prose p)
    (hs : Prose s) :
    parseJsonLenient (String.ofList (p ++ (text ++ s))) = .ok (Value.dict kvs) := by
  obtain ⟨inner, rfl⟩ := braces_of_object hJ
  have hstrip := strip_around (c := '{') (d := '}') (by decide) (by decide) p inner s
  have hbare := bareText_of_head _ (hstrip ▸ hp.head_append (by decide) _)
  rw [hstrip] at hbare
  rw [List.cons_append, List.append_assoc, List.singleton_append]
  exact parse_of_bareText hbare
    (fun h => hp.noBrace.1 ((List.dropWhile_suffix _).subset h))
    (fun h => hs.noBrace.2 ((List.rdropWhile_prefix _ _).subset h)) hJ

/-- Stripping leaves the fences and what is between them. -/
theorem strip_fenced (p text s : List Char) :
    strip (p ++ (fenced text ++ s)) =
      p.dropWhile isSpace ++ (fenced text ++ s.rdropWhile isSpace) := by
  have hstrip := strip_around (c := '\x60') (d := '\x60') (by decide) (by decide) p
    (['\x60', '\x60', 'j', 's', 'o', 'n', '\n'] ++ (text ++ ['\n', '\x60', '\x60'])) s
  simpa [fenced, fence] using hstrip

/-- Behind prose, the fence is prose too. -/
theorem found_in_fence_of_prose {text : List Char} (hJ : Text (.value (.dict kvs)) text)
    (hp : Prose p) (hs : Prose s) (hblank : ¬ Blank p) :
    parseJsonLenient (String.ofList (p ++ (fenced text ++ s))) = .ok (Value.dict kvs) := by
  obtain ⟨inner, rfl⟩ := braces_of_object hJ
  obtain ⟨c, rest, hrest⟩ : ∃ c rest, p.dropWhile isSpace = c :: rest :=
    List.exists_cons_of_ne_nil fun hnil => hblank (List.dropWhile_eq_nil_iff.mp hnil)
  have hstrip := strip_fenced p ('{' :: (inner ++ ['}'])) s
  have hmem {x : Char} (h : x ∈ c :: rest) : x ∈ p :=
    (List.dropWhile_suffix _).subset (hrest ▸ h)
  have hbare := bareText_of_head (p ++ (fenced ('{' :: (inner ++ ['}'])) ++ s)) (by
    rw [hstrip, hrest]
    intro h
    obtain rfl : c = '\x60' := by simpa using h
    exact hp.noBacktick (hmem (by simp)))
  rw [hstrip, hrest] at hbare
  refine parse_of_bareText (p := c :: rest ++ (fence ++ ['j', 's', 'o', 'n', '\n']))
    (s := '\n' :: (fence ++ s.rdropWhile isSpace)) (by rw [hbare]; simp [fenced]) ?_ ?_ hJ
  · intro h
    rcases List.mem_append.mp h with h | h
    · exact hp.noBrace.1 (hmem h)
    · revert h
      decide
  · intro h
    rcases List.mem_append.mp (List.mem_cons.mp h |>.resolve_left (by decide)) with h | h
    · revert h
      decide
    · exact hs.noBrace.2 ((List.rdropWhile_prefix _ _).subset h)

/-- A fence at the start of a text is taken off, up to the next one. -/
theorem bareText_fenced (hblank : Blank p) (text s : List Char) :
    bareText (p ++ (fenced text ++ s)) =
      before fence (text ++ '\n' :: (fence ++ s.rdropWhile isSpace)) := by
  have hstrip := strip_fenced p text s
  rw [List.dropWhile_eq_nil_iff.mpr hblank, List.nil_append] at hstrip
  have hfence : "```".toList = fence := by decide
  have hword : "json\n".toList = ['j', 's', 'o', 'n', '\n'] := by decide
  have hinner : before fence ((fenced text ++ s.rdropWhile isSpace).drop 3) =
      ['j', 's', 'o', 'n', '\n'] ++
        before fence (text ++ '\n' :: (fence ++ s.rdropWhile isSpace)) := by
    rw [← before_append_of_notMem (c := '\x60') rfl (by decide)]
    simp [fenced, fence]
  rw [bareText, hstrip, if_pos (by simp [fenced, fence]), unfenced, hfence, hword, hinner]
  simp

/-- An object without fence is found in one. -/
theorem found_in_fence {text : List Char} (hJ : Text (.value (.dict kvs)) text)
    (hblank : Blank p) (hfree : ¬ fence <:+: text) :
    parseJsonLenient (String.ofList (p ++ (fenced text ++ s))) = .ok (Value.dict kvs) := by
  have hbare := bareText_fenced hblank text s
  rw [before_next_line (by decide) (by decide) hfree] at hbare
  obtain ⟨inner, rfl⟩ := braces_of_object hJ
  exact parse_of_bareText (p := []) (s := ['\n']) (by rw [hbare]; simp) (by simp) (by simp) hJ

/-- One with a fence is cut off there. -/
theorem lost_in_fence {text : List Char} (hJ : Text (.value (.dict kvs)) text)
    (hblank : Blank p) (hfence : fence <:+: text) :
    parseJsonLenient (String.ofList (p ++ (fenced text ++ s))) ≠ .ok (Value.dict kvs) := by
  obtain ⟨hcut, b, hb⟩ := before_of_isInfix (by decide) hfence
    ('\n' :: (fence ++ s.rdropWhile isSpace))
  have hbare := bareText_fenced hblank text s
  rw [hcut] at hbare
  intro hparse
  simp only [parseJsonLenient, String.toList_ofList, hbare] at hparse
  split_ifs at hparse with hbraces
  obtain ⟨front, back, hsplit, hlast⟩ := exists_last_brace hbraces.2
  obtain ⟨inner, hinner⟩ := braces_of_object hJ
  rw [hsplit] at hb hparse
  cases front with
  | nil => cases hb.symm.trans hinner
  | cons c front =>
      obtain ⟨rfl, -⟩ := List.cons.inj (hb.symm.trans hinner)
      have hpart := cut_around (p := []) (by simp) hlast front
      rw [List.nil_append] at hpart
      rw [List.cons_append, hpart] at hparse
      split at hparse
      next v hread =>
        obtain rfl := Except.ok.inj hparse
        have htext := text_of_isTextOf (loads_eq_some_iff.mp hread)
        -- what is left is an object text, and the beginning of another
        have hnil := object_text_append (r := back ++ (fence ++ b)) htext (by
          rw [hb] at hJ
          simpa using hJ)
        simp [fence] at hnil
      next => cases hparse

/-- **What is found.**  An object is read out of any prose, plain and in a
fence, if and only if there is text before the fence or no fence in the
object. -/
theorem parseJsonLenient_wrapped_iff {text : List Char} (hJ : Text (.value (.dict kvs)) text)
    (hp : Prose p) (hs : Prose s) :
    (parseJsonLenient (String.ofList (p ++ (text ++ s))) = .ok (Value.dict kvs) ∧
      parseJsonLenient (String.ofList (p ++ (fenced text ++ s))) = .ok (Value.dict kvs)) ↔
    (Blank p → ¬ fence <:+: text) := by
  constructor
  · exact fun hfound hblank hfence => lost_in_fence hJ hblank hfence hfound.2
  · intro hfree
    refine ⟨found_in_prose hJ hp hs, ?_⟩
    by_cases hblank : Blank p
    · exact found_in_fence hJ hblank (hfree hblank)
    · exact found_in_fence_of_prose hJ hp hs hblank

end Found

/-- An object with a fence and a brace in a string. -/
def quotedBoth : Value WholeFloat := .dict [("a", .str "```\x7d"), ("b", .int 1)]

/-- An object with a fence in a string. -/
def quotedFence : Value WholeFloat := .dict [("a", .str "```")]

/-- What a model may write before and after. -/
def remark : List Char := "Here it is:\n".toList

/-- Prose to come after the fences. -/
def closing : List Char := "\nAnything else?".toList

/-- The first is found between prose, plain and in a fence. -/
theorem quotedBoth_found :
    fence <:+: encode quotedBoth ∧
      parseJsonLenient (String.ofList (remark ++ (encode quotedBoth ++ closing))) =
        .ok quotedBoth ∧
      parseJsonLenient (String.ofList (remark ++ (fenced (encode quotedBoth) ++ closing))) =
        .ok quotedBoth := by
  have htext : Text (.value quotedBoth) (encode quotedBoth) :=
    text_encode quotedBoth (by simp [quotedBoth, Value.Wf, Value.WfMembers])
  have hremark : Prose remark := ⟨by decide, by decide⟩
  have hclosing : Prose closing := ⟨by decide, by decide⟩
  have hprose : ¬ Blank remark := fun h => absurd (h 'H' (by decide)) (by decide)
  exact ⟨by decide +kernel, (parseJsonLenient_wrapped_iff htext hremark hclosing).mpr
    fun hblank => absurd hblank hprose⟩

/-- The second is lost in one. -/
theorem quotedFence_lost :
    Text (.value quotedFence) (encode quotedFence) ∧
      String.ofList (encode quotedFence) = "\x7b\"a\": \"```\"\x7d" ∧
      parseJsonLenient (String.ofList (fenced (encode quotedFence))) ≠ .ok quotedFence := by
  have htext : Text (.value quotedFence) (encode quotedFence) :=
    text_encode quotedFence (by simp [quotedFence, Value.Wf, Value.WfMembers])
  have hlost := lost_in_fence (p := []) (s := []) htext nofun (by decide +kernel)
  rw [List.nil_append, List.append_nil] at hlost
  exact ⟨htext, by decide +kernel, hlost⟩

end Agents
