import AtlasMcp.CopilotReports

/-!
# Customer ids made of words

In a question without dashes and underscores the expression for customer ids can match whole words
only: a word that one of its own words begins, with three to sixty-four more characters, which are
then taken for the id (`extractCustomerId_eq_none_iff`).  `customer` is itself such a word, since
`cust` begins it, so a question about a customer has the id `omer`.
-/

namespace Agents

open PyText PyJson

namespace CustomerIds

variable [UnicodeDb] {s w post word rest id : List Char} {before : Option Char}

omit [UnicodeDb] in
/-- The words before an id. -/
def labels : List String := ["cust", "customer", "account", "acct"]

/-- A character of words, or one that belongs neither to a word nor to an id,
such as a space or a full stop; no dash or underscore. -/
def IsPlain (c : Char) : Prop := UnicodeDb.isAlnum c = true ∨ isWord c = false ∧ isIdChar c = false

omit [UnicodeDb] in
/-- The word is a label and an id, perhaps with a separator between the two. -/
def Labelled (w : List Char) : Prop :=
  ∃ label ∈ labels, ∃ id, afterWord label.toList w = some id ∧ IsId id

instance : DecidablePred IsPlain := fun c =>
  inferInstanceAs (Decidable (UnicodeDb.isAlnum c = true ∨ isWord c = false ∧ isIdChar c = false))

theorem isWord_of_isIdChar {c : Char} (h : IsPlain c) (hid : isIdChar c = true) :
    isWord c = true := by
  rcases h with halnum | ⟨-, hnot⟩
  · rw [isWord, halnum]
    rfl
  · rw [hid] at hnot
    cases hnot

theorem ne_separator {c : Char} (h : IsPlain c) : ¬ (c = '_' ∨ c = '-') := by
  have hunderscore : UnicodeDb.isAlnum '_' = false := UnicodeDb.isAlnum_ascii '_' (by decide)
  have hdash : UnicodeDb.isAlnum '-' = false := UnicodeDb.isAlnum_ascii '-' (by decide)
  rintro (rfl | rfl)
  · rcases h with halnum | ⟨-, hnot⟩
    · cases hunderscore.symm.trans halnum
    · cases hnot
  · rcases h with halnum | ⟨-, hnot⟩
    · cases hdash.symm.trans halnum
    · cases hnot

omit [UnicodeDb] in
/-- What follows a word of the expression, and what comes before it. -/
theorem afterWord_eq_some_iff : afterWord word s = some rest ↔
    ∃ front, s = front ++ rest ∧ List.Forall₂ (fun letter c => sameLetter letter c = true) word
      front := by
  induction word generalizing s with
  | nil =>
      rw [afterWord, Option.some_inj]
      refine ⟨fun h => ⟨[], h, .nil⟩, ?_⟩
      rintro ⟨front, h, hnil⟩
      cases hnil
      exact h
  | cons letter word ih =>
      cases s with
      | nil =>
          refine iff_of_false (by simp [afterWord]) ?_
          rintro ⟨front, h, hfront⟩
          cases hfront
          cases h
      | cons c s =>
          rw [afterWord]
          constructor
          · intro h
            split at h
            next hletter =>
              obtain ⟨front, rfl, hfront⟩ := ih.mp h
              exact ⟨c :: front, rfl, .cons hletter hfront⟩
            next => cases h
          · rintro ⟨front, h, hfront⟩
            cases hfront with
            | cons hletter hrest =>
                obtain ⟨rfl, rfl⟩ := List.cons.inj h
                rw [if_pos hletter]
                exact ih.mpr ⟨_, rfl, hrest⟩

omit [UnicodeDb] in
/-- What matches letters of ids is made of such letters. -/
theorem isIdChar_of_same {front : List Char}
    (hword : ∀ letter ∈ word, isIdChar letter = true ∧ isIdChar letter.toUpper = true)
    (h : List.Forall₂ (fun letter c => sameLetter letter c = true) word front) :
    ∀ c ∈ front, isIdChar c = true := by
  induction h with
  | nil => exact List.forall_mem_nil _
  | @cons letter c word front hsame _ ih =>
      refine List.forall_mem_cons.mpr ⟨?_, ih (List.forall_mem_of_forall_mem_cons hword)⟩
      obtain ⟨hlower, hupper⟩ := hword letter List.mem_cons_self
      simp only [sameLetter, Bool.or_eq_true, Bool.and_eq_true, decide_eq_true_eq] at hsame
      rcases hsame with (rfl | rfl) | ⟨-, rfl⟩
      · exact hlower
      · exact hupper
      · decide

omit [UnicodeDb] in
theorem isIdChar_labels : ∀ label ∈ labels, label.toList ≠ [] ∧ ∀ letter ∈ label.toList,
    isIdChar letter = true ∧ isIdChar letter.toUpper = true := by
  simp [labels, isIdChar, Char.isAlphanum, Char.isAlpha, Char.isUpper, Char.isLower]

/-- **An id of plain characters** goes on to the end of its word. -/
theorem exists_idAt_iff (hplain : ∀ c ∈ s, IsPlain c) : (∃ id, idAt s = some id) ↔
    ∃ id post, s = id ++ post ∧ IsId id ∧ post.head?.any isWord = false := by
  constructor
  · rintro ⟨id, hid⟩
    obtain ⟨hisId, -⟩ := isId_of_idAt hid
    unfold idAt at hid
    obtain ⟨n, hfind, rfl⟩ := Option.map_eq_some_iff.mp hid
    refine ⟨s.take n, s.drop n, (List.take_append_drop n s).symm, hisId, ?_⟩
    have hspec := List.find?_some hfind
    simp only [Bool.and_eq_true, decide_eq_true_eq] at hspec
    obtain ⟨hthree, hboundary⟩ := hspec
    have hlength := hisId.length_ge
    rw [List.length_take] at hlength
    obtain ⟨c, hc⟩ : ∃ c, s[n - 1]? = some c ∧ c ∈ s.take n := by
      have hlast : n - 1 < (s.take n).length := by
        rw [List.length_take]
        have hmem := List.mem_of_find?_eq_some hfind
        have hrun := (List.takeWhile_prefix isIdChar (l := s)).length_le
        simp only [List.mem_reverse, List.mem_range] at hmem
        omega
      refine ⟨(s.take n)[n - 1], ?_, List.getElem_mem hlast⟩
      rw [← List.getElem?_eq_getElem hlast, List.getElem?_take_of_lt (by omega)]
    have hword := isWord_of_isIdChar (hplain c (List.mem_of_mem_take hc.2)) (hisId.chars c hc.2)
    rw [List.head?_drop]
    simpa [atBoundary, hc.1, hword] using hboundary
  · rintro ⟨id, post, rfl, hisId, hpost⟩
    obtain ⟨hthree, hshort, hchars⟩ := hisId
    obtain ⟨c, hlast, hc⟩ : ∃ c, (id ++ post)[id.length - 1]? = some c ∧ c ∈ id := by
      have hlt : id.length - 1 < id.length := by omega
      refine ⟨id[id.length - 1], ?_, List.getElem_mem hlt⟩
      rw [List.getElem?_append_left hlt, List.getElem?_eq_getElem hlt]
    have hword := isWord_of_isIdChar (hplain c (List.mem_append_left _ hc)) (hchars c hc)
    have hnext : (id ++ post)[id.length]? = post.head? := by
      rw [List.getElem?_append_right le_rfl, Nat.sub_self, List.head?_eq_getElem?]
    have hrun : id.length ≤ ((id ++ post).takeWhile isIdChar).length := by
      rw [List.takeWhile_append_of_pos hchars, List.length_append]
      exact Nat.le_add_right _ _
    have hfound : ((List.range (min 64 ((id ++ post).takeWhile isIdChar).length + 1)).reverse.find?
        fun n => 3 ≤ n && atBoundary (id ++ post)[n - 1]? (id ++ post)[n]?).isSome := by
      rw [List.find?_isSome]
      refine ⟨id.length, ?_, ?_⟩
      · rw [List.mem_reverse, List.mem_range]
        omega
      · simp [hthree, atBoundary, hlast, hnext, hword, hpost]
    obtain ⟨n, hn⟩ := Option.isSome_iff_exists.mp hfound
    exact ⟨(id ++ post).take n, by rw [idAt, hn]; rfl⟩

/-- In a plain word, an id is found after a label if and only if the word goes
on with one up to its end. -/
theorem exists_idAfterWord_iff (hplain : ∀ c ∈ s, IsPlain c) :
    (∃ id, idAfterWord s = some id) ↔
      ∃ id post, s = id ++ post ∧ IsId id ∧ post.head?.any isWord = false := by
  cases s with
  | nil =>
      refine iff_of_false (by simp [idAfterWord]) ?_
      rintro ⟨id, post, h, hisId, -⟩
      obtain ⟨rfl, -⟩ := List.nil_eq_append_iff.mp h
      exact absurd hisId.length_ge (by decide)
  | cons c s =>
      rw [idAfterWord, if_neg (ne_separator (hplain c List.mem_cons_self))]
      exact exists_idAt_iff hplain

/-- A labelled word, and its first character. -/
theorem Labelled.chars (h : Labelled w) (hplain : ∀ c ∈ w, IsPlain c) :
    (∀ c ∈ w, isWord c = true) ∧ ∃ c, w.head? = some c ∧ isWord c = true := by
  obtain ⟨label, hlabel, id, hid, hisId⟩ := h
  obtain ⟨front, rfl, hfront⟩ := afterWord_eq_some_iff.mp hid
  obtain ⟨hne, hletters⟩ := isIdChar_labels label hlabel
  have hinside : ∀ c ∈ front ++ id, isWord c = true := fun c hc =>
    isWord_of_isIdChar (hplain c hc)
      ((List.mem_append.mp hc).elim (isIdChar_of_same hletters hfront c) (hisId.chars c))
  refine ⟨hinside, ?_⟩
  cases front with
  | nil => exact absurd (List.forall₂_nil_right_iff.mp hfront) hne
  | cons c front => exact ⟨c, rfl, hinside c List.mem_cons_self⟩

/-- A match starts before a labelled word. -/
theorem exists_matchAt_iff (hplain : ∀ c ∈ s, IsPlain c) : (∃ id, matchAt before s = some id) ↔
    before.any isWord = false ∧
      ∃ w post, s = w ++ post ∧ Labelled w ∧ post.head?.any isWord = false := by
  constructor
  · rintro ⟨id, hmatch⟩
    unfold matchAt at hmatch
    split at hmatch
    next hboundary =>
      obtain ⟨label, hlabel, hfound⟩ := List.exists_of_findSome?_eq_some hmatch
      obtain ⟨rest, hrest, hid⟩ := Option.bind_eq_some_iff.mp hfound
      obtain ⟨front, rfl, hfront⟩ := afterWord_eq_some_iff.mp hrest
      obtain ⟨id', post, rfl, hisId, hpost⟩ := (exists_idAfterWord_iff fun c hc =>
        hplain c (List.mem_append_right _ hc)).mp ⟨id, hid⟩
      have hlabelled : Labelled (front ++ id') :=
        ⟨label, hlabel, id', afterWord_eq_some_iff.mpr ⟨front, rfl, hfront⟩, hisId⟩
      rw [← List.append_assoc] at hplain hboundary ⊢
      obtain ⟨-, c, hhead, hword⟩ :=
        hlabelled.chars fun c hc => hplain c (List.mem_append_left _ hc)
      have hstart : (front ++ id' ++ post).head? = some c := by
        rw [List.head?_append, hhead]
        rfl
      rw [atBoundary, hstart] at hboundary
      exact ⟨by simpa [hword] using hboundary, _, post, rfl, hlabelled, hpost⟩
    next => cases hmatch
  · rintro ⟨hbefore, w, post, rfl, hlabelled, hpost⟩
    obtain ⟨-, c, hhead, hword⟩ := hlabelled.chars fun c hc => hplain c (List.mem_append_left _ hc)
    have hboundary : atBoundary before (w ++ post).head? = true := by
      simp [atBoundary, List.head?_append, hhead, hword, hbefore]
    obtain ⟨label, hlabel, id, hid, hisId⟩ := hlabelled
    obtain ⟨front, rfl, hfront⟩ := afterWord_eq_some_iff.mp hid
    rw [List.append_assoc] at hplain hboundary ⊢
    obtain ⟨id', hid'⟩ := (exists_idAfterWord_iff fun c hc =>
      hplain c (List.mem_append_right _ hc)).mpr ⟨id, post, rfl, hisId, hpost⟩
    have hfound : (labels.findSome? fun word =>
        (afterWord word.toList (front ++ (id ++ post))).bind idAfterWord).isSome := by
      rw [List.findSome?_isSome_iff]
      refine ⟨label, hlabel, ?_⟩
      rw [afterWord_eq_some_iff.mpr ⟨front, rfl, hfront⟩, Option.bind_some, hid']
      rfl
    obtain ⟨found, hfound⟩ := Option.isSome_iff_exists.mp hfound
    exact ⟨found, by rw [matchAt, if_pos hboundary]; exact hfound⟩

omit [UnicodeDb] in
theorem Labelled.ne_nil (h : Labelled w) : w ≠ [] := by
  rintro rfl
  obtain ⟨label, -, id, hid, hisId⟩ := h
  obtain ⟨front, hnil, -⟩ := afterWord_eq_some_iff.mp hid
  obtain ⟨-, rfl⟩ := List.nil_eq_append_iff.mp hnil
  exact absurd hisId.length_ge (by decide)

/-- **The search** finds something exactly if a whole word is labelled. -/
theorem exists_searchFrom_iff (hplain : ∀ c ∈ s, IsPlain c) :
    (∃ id, searchFrom before s = some id) ↔
      ∃ pre w post, s = pre ++ (w ++ post) ∧ (pre.getLast?.or before).any isWord = false ∧
        Labelled w ∧ post.head?.any isWord = false := by
  induction s generalizing before with
  | nil =>
      refine iff_of_false (by simp [searchFrom]) ?_
      rintro ⟨pre, w, post, h, -, hlabelled, -⟩
      exact hlabelled.ne_nil (by simp_all)
  | cons c s ih =>
      have hlater := @ih (some c) fun x hx => hplain x (List.mem_cons_of_mem _ hx)
      have hor : (∃ id, searchFrom before (c :: s) = some id) ↔
          (∃ id, matchAt before (c :: s) = some id) ∨ ∃ id, searchFrom (some c) s = some id := by
        simp only [← Option.isSome_iff_exists, searchFrom, Option.isSome_or, Bool.or_eq_true]
      rw [hor, exists_matchAt_iff hplain, hlater]
      constructor
      · rintro (⟨hbefore, w, post, h, hword⟩ | ⟨pre, w, post, rfl, hpre, hword⟩)
        · exact ⟨[], w, post, h, hbefore, hword⟩
        · refine ⟨c :: pre, w, post, rfl, ?_, hword⟩
          cases pre with
          | nil => exact hpre
          | cons => simpa [List.getLast?_cons] using hpre
      · rintro ⟨pre, w, post, h, hpre, hword⟩
        cases pre with
        | nil => exact Or.inl ⟨hpre, w, post, h, hword⟩
        | cons x pre =>
            obtain ⟨rfl, rfl⟩ := List.cons.inj h
            refine Or.inr ⟨pre, w, post, rfl, ?_, hword⟩
            cases pre with
            | nil => exact hpre
            | cons => simpa [List.getLast?_cons] using hpre

end CustomerIds

open CustomerIds

section Questions

variable [UnicodeDb] {question : String}

/-- No word of the question is labelled.  A word is a part of the question with no
letter, digit or underscore next to it on either side. -/
def NoLabelledWord (question : String) : Prop :=
  ∀ pre w post, question.toList = pre ++ (w ++ post) → WholeWord pre w post → ¬ Labelled w

/-- **Ids in questions without dashes and underscores.** -/
theorem extractCustomerId_eq_none_iff (hplain : ∀ c ∈ question.toList, IsPlain c) :
    extractCustomerId question = none ↔ NoLabelledWord question := by
  have hsearch := @exists_searchFrom_iff _ _ none hplain
  have hany (o : Option Char) : o.any isWord = false ↔ ∀ c, o = some c → ¬ isWordChar c := by
    cases o with
    | none => simp
    | some c => simp [isWord, isWordChar]
  rw [extractCustomerId, Option.map_eq_none_iff, Option.eq_none_iff_forall_ne_some]
  constructor
  · rintro hnone pre w post h hword hlabelled
    obtain ⟨id, hid⟩ := hsearch.mpr ⟨pre, w, post, h, by
      rw [Option.or_none]; exact (hany _).mpr hword.before, hlabelled, (hany _).mpr hword.after⟩
    exact hnone id hid
  · intro hnone id hid
    obtain ⟨pre, w, post, h, hpre, hlabelled, hpost⟩ := hsearch.mp ⟨id, hid⟩
    rw [Option.or_none] at hpre
    have hw : ∀ c ∈ w, IsPlain c := fun c hc => hplain c (by rw [h]; simp [hc])
    exact hnone pre w post h ⟨hlabelled.ne_nil, (hlabelled.chars hw).1, (hany _).mp hpre,
      (hany _).mp hpost⟩ hlabelled

end Questions

/-! ## Turns without an id -/

section Turns

open Dialogues Errors

variable {F : Type} [PyFloat F] [PyInt F] [UnicodeDb] {question : String}

/-- What a turn comes to, by its plan. -/
theorem SupportCopilot.plan_of_talk {copilot : SupportCopilot} {run run' : AgentRun}
    {l : Transcript F} {response : CopilotResponse F}
    (h : Routine.Talk (copilot.answer question) run l (.ok response) run') :
    ∃ planned rest u, l = planned ++ rest ∧
      Routine.Talk (PlannerAgent.act question) run planned (.ok response.plan) u ∧
      (IdMissing response.plan → rest = [] ∧ response.draft = customerIdMissing) := by
  obtain ⟨-, ⟨u, hplan, hdraft⟩ | ⟨planned, gathered, rest, _, u, _, rfl, hplan, hid, -⟩⟩ :=
    path_of_talk h
  · exact ⟨l, [], u, (List.append_nil l).symm, hplan, fun _ => ⟨rfl, hdraft⟩⟩
  · exact ⟨planned, gathered ++ rest, u, rfl, hplan, fun hmissing => absurd hmissing hid⟩

/-- The question has no id, and every turn about it whose plan requires one
ends before the retriever, with the answer that there is none. -/
structure Unidentified (F : Type) [PyFloat F] [PyInt F] [UnicodeDb] (question : String) : Prop where
  id : extractCustomerId question = none
  stops : ∀ (copilot : SupportCopilot) (run run' : AgentRun) (l : Transcript F)
    (response : CopilotResponse F),
    Routine.Talk (copilot.answer question) run l (.ok response) run' →
    response.plan.customerIdRequired = true →
    (∀ x ∈ l, x.1 ≠ .listTools) ∧ toolCallsOf l = [] ∧
      response.draft = SupportCopilot.customerIdMissing

/-- A question in which no id is found leaves the customer unidentified. -/
theorem unidentified_of_none (h : extractCustomerId question = none) :
    Unidentified F question := by
  refine ⟨h, fun copilot run run' l response htalk hrequired => ?_⟩
  obtain ⟨planned, rest, u, rfl, hplan, hmissing⟩ := SupportCopilot.plan_of_talk htalk
  obtain ⟨⟨answer, hplanned⟩, hid⟩ := PlannerAgent.talk_act hplan
  obtain ⟨rfl, hdraft⟩ := hmissing ⟨hrequired, by rw [hid _ rfl, h]; rfl⟩
  rw [List.append_nil]
  refine ⟨(SupportCopilot.planner_exchange hplan).2.1, ?_, hdraft⟩
  rw [hplanned]
  rfl

/-- **When a question without an id has none.**  In questions without dashes
and underscores, if no word is a label of ids with three to sixty-four
characters of ids after it. -/
theorem unidentified_iff (hplain : ∀ c ∈ question.toList, IsPlain c) :
    Unidentified F question ↔ NoLabelledWord question := by
  rw [← extractCustomerId_eq_none_iff hplain]
  exact ⟨Unidentified.id, unidentified_of_none⟩

end Turns

/-- This question has no word that begins with a label. -/
theorem order_question_unlabelled : NoLabelledWord "Where is my order?" := by
  have hplain : ∀ c ∈ "Where is my order?".toList, IsPlain c := by
    simp [IsPlain, isWord, isIdChar, UnicodeDb.isAlnum, Char.isAlphanum, Char.isAlpha,
      Char.isUpper, Char.isLower]
  exact (unidentified_iff (F := WholeFloat) hplain).mp (unidentified_of_none (by decide))

/-- A question of letters, spaces and a question mark. -/
theorem omer_is_customer :
    (∀ c ∈ "Which customer?".toList, c.isAlpha = true ∨ c = ' ' ∨ c = '?') ∧
      extractCustomerId "Which customer?" = some "omer" ∧
      ¬ Unidentified WholeFloat "Which customer?" := by
  have hid : extractCustomerId "Which customer?" = some "omer" := by decide
  refine ⟨by simp [Char.isAlpha, Char.isUpper, Char.isLower], hid, fun h => ?_⟩
  cases hid.symm.trans h.id

end Agents
