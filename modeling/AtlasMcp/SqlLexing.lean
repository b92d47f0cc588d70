import Mathlib.Data.List.Basic

/-!
# Comments, literals and quoted identifiers of SQL

The lexical structure of PostgreSQL as far as it decides which characters of a text are no part
of the statement proper: line comments, nested block comments, literals in all their forms, and
quoted identifiers.  A `State` is what the lexer has to know about the characters read so far;
`step` reads one more.

A literal opened by `E'` goes on after its closing quote when another quote follows, at once or
after white space with the end of a line in it.  A dollar opens a literal only outside of a word.
-/

namespace SqlLexing

/-- What stands since the end of a literal with escapes: nothing, white space,
or white space with the end of a line. -/
inductive Gap
  | closed
  | blank
  | line

/-- The last characters of the statement proper, as far as they matter for the
next. -/
inductive Last
  | other
  | dash (gap : Bool)
  | slash
  | bareE
  | identifier
  | number
  | gap (since : Gap)

/-- Where the lexer stands.  In a block comment `outer` more comments are open
around it. -/
inductive State
  | code (last : Last)
  | dollar (tag : List Char)
  | lineComment (gap : Bool)
  | blockComment (outer : ℕ) (last : Option Char)
  | literal
  | escapeLiteral (escaped : Bool)
  | dollarLiteral (tag : List Char) (closing : Option (List Char))
  | quotedIdentifier

/-- The characters that open something, alone or as the second of two. -/
def openers : List Char := ['-', '*', '\'', '"', '$']

/-- The characters with which something ends. -/
def closers : List Char := ['\n', '\r', '/', '\'', '"', '$']

/-- The characters that end a line. -/
def newline (c : Char) : Bool := c = '\n' || c = '\r'

/-- The white space of the lexer of PostgreSQL. -/
def space (c : Char) : Bool :=
  newline c || c = ' ' || c = '\t' || c = Char.ofNat 11 || c = Char.ofNat 12

/-- A name begins with a letter, an underscore, or any character beyond
ASCII. -/
def identStart (c : Char) : Bool := c.isAlpha || c = '_' || 128 ≤ c.toNat

/-- A character that goes on with the tag of a dollar. -/
def inTag (tag : List Char) (c : Char) : Bool := identStart c || (c.isDigit && tag ≠ [])

/-- The second of two dashes opens a line comment. -/
def stepDash : Last → State
  | .dash gap => .lineComment gap
  | .gap _ => .code (.dash true)
  | _ => .code (.dash false)

/-- A star after a slash opens a comment, and is an operator elsewhere. -/
def stepStar : Last → State
  | .slash => .blockComment 0 none
  | _ => .code .other

/-- A quote opens a literal: one with escapes after an `E`, or where it goes
on with such a literal, and a plain one elsewhere. -/
def stepQuote : Last → State
  | .bareE | .gap .closed | .gap .line => .escapeLiteral false
  | _ => .literal

/-- A dollar within a word belongs to it. -/
def stepDollar : Last → State
  | .bareE | .identifier => .code .identifier
  | _ => .dollar []

/-- White space after a literal with escapes is kept track of, because the
literal goes on after a line break; elsewhere it ends what was there. -/
def stepSpace (c : Char) : Last → State
  | .gap .line => .code (.gap .line)
  | .gap _ => .code (.gap (if newline c then .line else .blank))
  | _ => .code .other

/-- A letter belongs to the word before it or begins a new one, and only an
`E` that stands alone can open a literal with escapes. -/
def stepLetter (c : Char) : Last → State
  | .bareE | .identifier => .code .identifier
  | .number => .code .number
  | _ => .code (if c = 'e' ∨ c = 'E' then .bareE else .identifier)

/-- A digit belongs to the word before it, or to a number. -/
def stepDigit : Last → State
  | .bareE | .identifier => .code .identifier
  | _ => .code .number

/-- A character of the statement proper. -/
def stepCode (last : Last) (c : Char) : State :=
  if c = '-' then stepDash last
  else if c = '*' then stepStar last
  else if c = '/' then .code .slash
  else if c = '\'' then stepQuote last
  else if c = '"' then .quotedIdentifier
  else if c = '$' then stepDollar last
  else if space c then stepSpace c last
  else if identStart c then stepLetter c last
  else if c.isDigit then stepDigit last
  else .code .other

/-- What a dollar and these characters are if no literal begins there. -/
def lastOfTag (tag : List Char) : Last :=
  if tag = [] then .other else if tag = ['e'] ∨ tag = ['E'] then .bareE else .identifier

/-- One more character. -/
def step : State → Char → State
  | .code last, c => stepCode last c
  | .dollar tag, c =>
      if c = '$' then .dollarLiteral tag none
      else if inTag tag c then .dollar (tag ++ [c])
      else stepCode (lastOfTag tag) c
  | .lineComment gap, c =>
      if newline c then .code (if gap then .gap .line else .other) else .lineComment gap
  | .blockComment outer last, c =>
      if c = '/' ∧ last = some '*' then
        match outer with
        | 0 => .code .other
        | outer + 1 => .blockComment outer none
      else if c = '*' ∧ last = some '/' then .blockComment (outer + 1) none
      else .blockComment outer (some c)
  | .literal, c => if c = '\'' then .code .other else .literal
  | .escapeLiteral true, _ => .escapeLiteral false
  | .escapeLiteral false, c =>
      if c = '\'' then .code (.gap .closed) else .escapeLiteral (c = '\\')
  | .dollarLiteral tag none, c => .dollarLiteral tag (if c = '$' then some [] else none)
  | .dollarLiteral tag (some closing), c =>
      if c = '$' then
        if closing = tag then .code .other else .dollarLiteral tag (some [])
      else .dollarLiteral tag (if inTag closing c then some (closing ++ [c]) else none)
  | .quotedIdentifier, c => if c = '"' then .code .other else .quotedIdentifier

/-- Where the lexer is after a text. -/
def run (st : State) (text : List Char) : State := text.foldl step st

/-- The lexer before a text. -/
def start : State := .code .other

/-- Nothing is read of an empty text. -/
@[simp] theorem run_nil (st : State) : run st [] = st := rfl

/-- A text is read character by character. -/
@[simp] theorem run_cons (st : State) (c : Char) (text : List Char) :
    run st (c :: text) = run (step st c) text := rfl

theorem run_append (st : State) (text rest : List Char) :
    run st (text ++ rest) = run (run st text) rest := List.foldl_append

/-- The lexer is in the statement proper. -/
def State.Outside : State → Prop
  | .code _ | .dollar _ => True
  | _ => False

instance (st : State) : Decidable st.Outside := by
  cases st <;> unfold State.Outside <;> infer_instance

/-- The character at the place is part of the statement proper: the lexer is
outside of comments, literals and quoted identifiers before it and after it. -/
def LiesOutside (text : List Char) (i : ℕ) : Prop :=
  (run start (text.take i)).Outside ∧ (run start (text.take (i + 1))).Outside

/-- A character of a text is read after all before it. -/
theorem run_take_append (text clause : List Char) (n : ℕ) :
    run start ((text ++ clause).take (text.length + n)) =
      run (run start text) (clause.take n) := by
  rw [List.take_length_add_append, run_append]

/-- White space leaves the lexer outside of literals and comments. -/
theorem outside_stepSpace (c : Char) (last : Last) : (stepSpace c last).Outside := by
  unfold stepSpace
  split <;> trivial

theorem outside_stepLetter (c : Char) (last : Last) : (stepLetter c last).Outside := by
  unfold stepLetter
  split <;> trivial

theorem outside_stepDigit (last : Last) : (stepDigit last).Outside := by
  unfold stepDigit
  split <;> trivial

/-- Outside, only an opener leads in. -/
theorem outside_step {st : State} {c : Char} (hst : st.Outside)
    (hc : c ∉ openers) : (step st c).Outside := by
  have hcode (last : Last) : (stepCode last c).Outside := by
    simp only [openers, List.mem_cons, List.not_mem_nil, or_false, not_or] at hc
    obtain ⟨hdash, hstar, hquote, hdouble, hdollar⟩ := hc
    simp only [stepCode, hdash, hstar, hquote, hdouble, hdollar, if_false]
    split_ifs
    · trivial
    · exact outside_stepSpace c last
    · exact outside_stepLetter c last
    · exact outside_stepDigit last
    · trivial
  cases st with
  | code last => exact hcode last
  | dollar tag =>
      simp only [step]
      split_ifs with hdollar htag
      · exact absurd hdollar (by rintro rfl; simp [openers] at hc)
      · trivial
      · exact hcode _
  | _ => cases hst

/-- Inside, only a closer leads out. -/
theorem inside_step {st : State} {c : Char} (hst : ¬ st.Outside)
    (hc : c ∉ closers) : ¬ (step st c).Outside := by
  simp only [closers, List.mem_cons, List.not_mem_nil, or_false, not_or] at hc
  obtain ⟨hnewline, hreturn, hslash, hquote, hdouble, hdollar⟩ := hc
  cases st with
  | code last => exact absurd trivial hst
  | dollar tag => exact absurd trivial hst
  | lineComment gap => simp [step, newline, hnewline, hreturn, State.Outside]
  | blockComment outer last =>
      simp only [step, hslash, false_and, if_false]
      split_ifs <;> exact not_false
  | literal => simp [step, hquote, State.Outside]
  | escapeLiteral escaped => cases escaped <;> simp [step, hquote, State.Outside]
  | dollarLiteral tag closing => cases closing <;> simp [step, hdollar, State.Outside]
  | quotedIdentifier => simp [step, hdouble, State.Outside]

/-- A text without the characters that open something leaves the lexer
outside. -/
theorem outside_run {st : State} {text : List Char} (hst : st.Outside)
    (h : ∀ c ∈ text, c ∉ openers) : (run st text).Outside := by
  induction text generalizing st with
  | nil => exact hst
  | cons c text ih =>
      rw [run_cons]
      exact ih (outside_step hst (h c (by simp))) fun d hd => h d (by simp [hd])

/-- A text without the characters that close something leaves the lexer
inside. -/
theorem inside_run {st : State} {text : List Char} (hst : ¬ st.Outside)
    (h : ∀ c ∈ text, c ∉ closers) : ¬ (run st text).Outside := by
  induction text generalizing st with
  | nil => exact hst
  | cons c text ih =>
      rw [run_cons]
      exact ih (inside_step hst (h c (by simp))) fun d hd => h d (by simp [hd])

/-- White space ends a word, an operator and the tag of a dollar. -/
theorem step_space_of_outside {st : State} (hst : st.Outside) :
    step st ' ' = .code .other ∨ ∃ since, step st ' ' = .code (.gap since) := by
  have hcode (last : Last) :
      stepCode last ' ' = .code .other ∨ ∃ since, stepCode last ' ' = .code (.gap since) := by
    cases last with
    | gap since => exact Or.inr (by cases since <;> exact ⟨_, rfl⟩)
    | _ => exact Or.inl rfl
  cases st with
  | code last => exact hcode last
  | dollar tag => exact hcode (lastOfTag tag)
  | _ => cases hst

/-- A text that opens no comment, no literal and no quoted identifier.  Nothing
that follows such a text can be inside of one. -/
structure OpensNothing (text : List Char) : Prop where
  noQuote : '\'' ∉ text ∧ '"' ∉ text ∧ '$' ∉ text
  noComment : ¬ ['-', '-'] <:+: text ∧ ¬ ['/', '*'] <:+: text

/-- If nothing is opened in a text, nothing is in what is left of it. -/
theorem OpensNothing.tail {c : Char} {text : List Char} (h : OpensNothing (c :: text)) :
    OpensNothing text where
  noQuote := by
    have hquote := h.noQuote
    simp only [List.mem_cons, not_or] at hquote
    exact ⟨hquote.1.2, hquote.2.1.2, hquote.2.2.2⟩
  noComment := ⟨fun hdash => h.noComment.1 (hdash.trans (List.suffix_cons c text).isInfix),
    fun hstar => h.noComment.2 (hstar.trans (List.suffix_cons c text).isInfix)⟩

/-- After these last characters, the text does not complete a comment
opener. -/
structure Last.Parted (last : Last) (text : List Char) : Prop where
  dash : ∀ gap, last = .dash gap → text.head? ≠ some '-'
  slash : last = .slash → text.head? ≠ some '*'

/-- A character that is no quote, no dollar and completes no comment
opener. -/
theorem stepCode_of_parted {last : Last} {c : Char} {text : List Char}
    (hparted : last.Parted (c :: text)) (hquote : c ≠ '\'' ∧ c ≠ '"' ∧ c ≠ '$') :
    ∃ next : Last, stepCode last c = .code next ∧ (∀ gap, next = .dash gap → c = '-') ∧
      (next = .slash → c = '/') := by
  simp only [stepCode, hquote, if_false]
  split_ifs with hdash hstar hslash hspace hletter hdigit
  · have hlast : ∀ gap, last ≠ .dash gap := fun gap h => hparted.dash gap h (by rw [hdash]; rfl)
    cases last with
    | dash gap => exact absurd rfl (hlast gap)
    | gap since => exact ⟨.dash true, rfl, fun _ _ => hdash, nofun⟩
    | _ => exact ⟨.dash false, rfl, fun _ _ => hdash, nofun⟩
  · cases last with
    | slash => exact absurd (by rw [hstar]; rfl) (hparted.slash rfl)
    | _ => exact ⟨.other, rfl, nofun, nofun⟩
  · exact ⟨.slash, rfl, nofun, fun _ => hslash⟩
  · cases last with
    | gap since => cases since <;> exact ⟨_, rfl, nofun, nofun⟩
    | _ => exact ⟨.other, rfl, nofun, nofun⟩
  · have hword : ∃ next : Last, stepLetter c last = .code next ∧ (∀ gap, next ≠ .dash gap) ∧
        next ≠ .slash := by
      unfold stepLetter
      split
      · exact ⟨_, rfl, nofun, nofun⟩
      · exact ⟨_, rfl, nofun, nofun⟩
      · exact ⟨_, rfl, nofun, nofun⟩
      · exact ⟨_, rfl, by split_ifs <;> nofun, by split_ifs <;> nofun⟩
    obtain ⟨next, hnext, hnotDash, hnotSlash⟩ := hword
    exact ⟨next, hnext, fun gap h => absurd h (hnotDash gap), fun h => absurd h hnotSlash⟩
  · unfold stepDigit
    split
    · exact ⟨_, rfl, nofun, nofun⟩
    · exact ⟨_, rfl, nofun, nofun⟩
    · exact ⟨_, rfl, nofun, nofun⟩
  · exact ⟨.other, rfl, nofun, nofun⟩

/-- What opens nothing is part of the statement proper from end to end. -/
theorem run_of_opensNothing {last : Last} {text : List Char} (h : OpensNothing text)
    (hparted : last.Parted text) : ∃ next, run (.code last) text = .code next := by
  induction text generalizing last with
  | nil => exact ⟨last, rfl⟩
  | cons c text ih =>
      have hquote := h.noQuote
      simp only [List.mem_cons, not_or] at hquote
      obtain ⟨next, hstep, hdash, hslash⟩ := stepCode_of_parted hparted
        ⟨Ne.symm hquote.1.1, Ne.symm hquote.2.1.1, Ne.symm hquote.2.2.1⟩
      have hnext : next.Parted text := by
        constructor
        · intro gap hgap hhead
          obtain ⟨rest, rfl⟩ := List.head?_eq_some_iff.mp hhead
          exact h.noComment.1 (hdash gap hgap ▸ (List.prefix_append ['-', '-'] rest).isInfix)
        · intro hlast hhead
          obtain ⟨rest, rfl⟩ := List.head?_eq_some_iff.mp hhead
          exact h.noComment.2 (hslash hlast ▸ (List.prefix_append ['/', '*'] rest).isInfix)
      obtain ⟨final, hfinal⟩ := ih h.tail hnext
      exact ⟨final, by rw [run_cons]; simpa only [step, hstep] using hfinal⟩

end SqlLexing
