import AtlasMcp.LatencyTracker

/-!
# Calls under a turn budget

`ATBA.begin` starts a turn with a total budget; each call of the turn then gets the least of
what its tool usually takes and a fair share of what is left, but never less than half a
second.

A call that starts with half a second left gets no more than is left (`timeoutFor_le`), one
that starts later gets just the half second (`timeoutFor_of_late`).  So the calls of a turn end
within the budget, but for half a second for each of the second kind (`elapsed_le`).
-/

namespace Reliability

/-- The budget of a turn, and what was spent of it.  `begin` makes one, with
nothing spent. -/
structure BudgetContext where
  totalBudgetS : ℚ
  startedAt : ℚ
  callsMade : ℤ := 0
  spentS : ℚ := 0

/-- `remaining_s`. -/
def BudgetContext.remainingS (ctx : BudgetContext) (now : ℚ) : ℚ :=
  max 0 (ctx.totalBudgetS - (now - ctx.startedAt))

/-- The budget of every turn, with the latencies that the timeouts are
estimated from. -/
structure ATBA where
  totalBudgetS : ℚ
  tracker : LatencyTracker := {}

namespace ATBA

/-- By how much a timeout is longer than the estimate. -/
def safetyFactor : ℚ := 3 / 2

/-- The shortest timeout of a call. -/
def minCallTimeoutS : ℚ := 1 / 2

/-- How many calls a turn is expected to make. -/
def expectedCallsPerTurn : ℤ := 5

/-- `ATBA(total_budget_ms)`, with a tracker in any state. -/
def ofMs (totalBudgetMs : ℤ) (tracker : LatencyTracker) : ATBA where
  totalBudgetS := totalBudgetMs / 1000
  tracker

/-- `begin()`. -/
def beginAt (atba : ATBA) (now : ℚ) : BudgetContext where
  totalBudgetS := atba.totalBudgetS
  startedAt := now

/-- `timeout_for`, with the context that is set. -/
def timeoutFor (atba : ATBA) (ctx : Option BudgetContext) (tool : String) (now : ℚ) : ℚ :=
  let target := atba.tracker.p95 tool * safetyFactor
  match ctx with
  | none => max minCallTimeoutS target
  | some ctx =>
      let callsLeft := max 1 (expectedCallsPerTurn - ctx.callsMade)
      let fairShare := ctx.remainingS now / callsLeft
      max minCallTimeoutS (min target fairShare)

/-- Outside a turn the timeout is the tracker's. -/
theorem timeoutFor_none (atba : ATBA) (tool : String) (now : ℚ) :
    atba.timeoutFor none tool now = atba.tracker.timeoutFor tool := rfl

end ATBA

/-- A turn in which the call made next starts at `now`.  The calls of a turn are
made one after the other. -/
structure BudgetedTurn where
  atba : ATBA
  ctx : BudgetContext
  now : ℚ

/-- A call of a tool, and how long `asyncio.wait_for` takes; what comes of it
is recorded nowhere. -/
structure BudgetedCall where
  tool : String
  durationS : ℚ

namespace BudgetedTurn

/-- A turn that begins, with no call made. -/
def start (totalBudgetMs : ℤ) (tracker : LatencyTracker) (now : ℚ) : BudgetedTurn :=
  let atba := ATBA.ofMs totalBudgetMs tracker
  { atba, ctx := atba.beginAt now, now }

/-- The timeout of the next call of the turn. -/
def timeoutFor (t : BudgetedTurn) (tool : String) : ℚ :=
  t.atba.timeoutFor (some t.ctx) tool t.now

/-- What is left of the budget before the next call of the turn. -/
def remainingS (t : BudgetedTurn) : ℚ := t.ctx.remainingS t.now

/-- The time since the turn began. -/
def elapsedS (t : BudgetedTurn) : ℚ := t.now - t.ctx.startedAt

/-- The turn after `call_with_budget`, which records the call however it
ends. -/
def call (t : BudgetedTurn) (c : BudgetedCall) : BudgetedTurn where
  atba := { t.atba with tracker := t.atba.tracker.record c.tool c.durationS }
  ctx := { t.ctx with callsMade := t.ctx.callsMade + 1, spentS := t.ctx.spentS + c.durationS }
  now := t.now + c.durationS

/-- The turn after some calls, with no time between them. -/
def after (t : BudgetedTurn) (calls : List BudgetedCall) : BudgetedTurn :=
  calls.foldl call t

/-- No call lasts longer than its timeout. -/
def OnTime (t : BudgetedTurn) : List BudgetedCall → Prop
  | [] => True
  | c :: calls => c.durationS ≤ t.timeoutFor c.tool ∧ OnTime (t.call c) calls

instance instDecidableOnTime (t : BudgetedTurn) :
    (calls : List BudgetedCall) → Decidable (t.OnTime calls)
  | [] => isTrue trivial
  | c :: calls =>
      letI : Decidable ((t.call c).OnTime calls) := instDecidableOnTime (t.call c) calls
      inferInstanceAs (Decidable (c.durationS ≤ t.timeoutFor c.tool ∧ (t.call c).OnTime calls))

/-- The calls that start when less than the least timeout is left. -/
def lateStarts (t : BudgetedTurn) : List BudgetedCall → ℕ
  | [] => 0
  | c :: calls =>
      (if t.remainingS < ATBA.minCallTimeoutS then 1 else 0) + lateStarts (t.call c) calls

/-! ## One call -/

variable {t : BudgetedTurn}

@[simp]
theorem call_totalBudgetS (t : BudgetedTurn) (c : BudgetedCall) :
    (t.call c).ctx.totalBudgetS = t.ctx.totalBudgetS := rfl

/-- A call takes as long as it takes, so that much more time has passed after
it. -/
theorem call_elapsedS (t : BudgetedTurn) (c : BudgetedCall) :
    (t.call c).elapsedS = t.elapsedS + c.durationS := by
  simp only [elapsedS, call]
  ring

/-- A fair share is a part of what is left. -/
theorem fairShare_le (t : BudgetedTurn) :
    t.remainingS / (max 1 (ATBA.expectedCallsPerTurn - t.ctx.callsMade) : ℤ) ≤ t.remainingS := by
  apply div_le_self (le_max_left _ _)
  exact_mod_cast le_max_left 1 (ATBA.expectedCallsPerTurn - t.ctx.callsMade)

/-- With the least timeout left, no call gets more than is left. -/
theorem timeoutFor_le (h : ATBA.minCallTimeoutS ≤ t.remainingS) (tool : String) :
    t.timeoutFor tool ≤ t.remainingS :=
  max_le h ((min_le_right _ _).trans t.fairShare_le)

/-- With less left, a call gets the least timeout. -/
theorem timeoutFor_of_late (h : t.remainingS < ATBA.minCallTimeoutS) (tool : String) :
    t.timeoutFor tool = ATBA.minCallTimeoutS :=
  max_eq_left (((min_le_right _ _).trans t.fairShare_le).trans h.le)

/-- A call that starts with the least timeout left ends within the budget. -/
theorem call_within_budget {c : BudgetedCall} (hduration : c.durationS ≤ t.timeoutFor c.tool)
    (h : ATBA.minCallTimeoutS ≤ t.remainingS) : (t.call c).elapsedS ≤ t.ctx.totalBudgetS := by
  have hremaining : t.remainingS = t.ctx.totalBudgetS - t.elapsedS := by
    have hpos : (0 : ℚ) < t.remainingS := lt_of_lt_of_le (by norm_num [ATBA.minCallTimeoutS]) h
    rw [remainingS, BudgetContext.remainingS] at hpos ⊢
    exact max_eq_right ((lt_max_iff.mp hpos).resolve_left (lt_irrefl _)).le
  calc (t.call c).elapsedS
      = t.elapsedS + c.durationS := call_elapsedS t c
    _ ≤ t.elapsedS + t.remainingS := by
        have hle := hduration.trans (timeoutFor_le h c.tool)
        linarith
    _ = t.ctx.totalBudgetS := by rw [hremaining]; ring

/-- One call keeps the bound, with half a second more if it starts late. -/
theorem call_elapsed_le {c : BudgetedCall} (hduration : c.durationS ≤ t.timeoutFor c.tool)
    {late : ℚ} (hlate : 0 ≤ late) (h : t.elapsedS ≤ max 0 t.ctx.totalBudgetS + late) :
    (t.call c).elapsedS ≤ max 0 t.ctx.totalBudgetS + (late +
      (if t.remainingS < ATBA.minCallTimeoutS then 1 else 0 : ℕ) * ATBA.minCallTimeoutS) := by
  by_cases hstart : t.remainingS < ATBA.minCallTimeoutS
  · rw [timeoutFor_of_late hstart] at hduration
    rw [if_pos hstart, call_elapsedS, Nat.cast_one, one_mul]
    linarith
  · have hwithin := call_within_budget hduration (not_lt.mp hstart)
    rw [if_neg hstart, Nat.cast_zero, zero_mul, add_zero]
    exact hwithin.trans (le_add_of_le_of_nonneg (le_max_right _ _) hlate)

/-! ## A turn -/

/-- The induction is on the calls; what is overrun already goes along. -/
theorem after_elapsed_le {calls : List BudgetedCall} (hontime : t.OnTime calls) {late : ℚ}
    (hlate : 0 ≤ late) (h : t.elapsedS ≤ max 0 t.ctx.totalBudgetS + late) :
    (t.after calls).elapsedS ≤ max 0 t.ctx.totalBudgetS +
      (late + t.lateStarts calls * ATBA.minCallTimeoutS) := by
  induction calls generalizing t late with
  | nil => simpa [after, lateStarts] using h
  | cons c calls ih =>
      have hstep := call_elapsed_le hontime.1 hlate h
      have hrest := ih hontime.2
        (add_nonneg hlate (by unfold ATBA.minCallTimeoutS; positivity)) hstep
      calc ((t.call c).after calls).elapsedS
          ≤ _ := hrest
        _ = _ := by rw [call_totalBudgetS, lateStarts, Nat.cast_add]; ring

/-- A call that is on time took no longer than its timeout, given the calls
before it. -/
theorem onTime_append {before : List BudgetedCall} {c : BudgetedCall}
    {rest : List BudgetedCall} (h : t.OnTime (before ++ c :: rest)) :
    c.durationS ≤ (t.after before).timeoutFor c.tool := by
  induction before generalizing t with
  | nil => exact h.1
  | cons b before ih => exact ih h.2

@[simp]
theorem after_totalBudgetS (t : BudgetedTurn) (calls : List BudgetedCall) :
    (t.after calls).ctx.totalBudgetS = t.ctx.totalBudgetS := by
  induction calls generalizing t with
  | nil => rfl
  | cons c calls ih => exact ih (t.call c)

end BudgetedTurn

open BudgetedTurn

/-- **The budget of a turn.**  The calls of a turn take no longer than the
budget, which counts as none when it is negative, and the least timeout for
each call that starts when less than that is left.  A call that starts with so
much left ends within the budget. -/
theorem turn_elapsed_le (totalBudgetMs : ℤ) (tracker : LatencyTracker) (now : ℚ)
    (calls : List BudgetedCall) (hontime : (start totalBudgetMs tracker now).OnTime calls) :
    ((start totalBudgetMs tracker now).after calls).elapsedS ≤
        max 0 ((totalBudgetMs : ℚ) / 1000) +
          (start totalBudgetMs tracker now).lateStarts calls * (1 / 2) ∧
      ∀ before c rest, calls = before ++ c :: rest →
        1 / 2 ≤ ((start totalBudgetMs tracker now).after before).remainingS →
        ((start totalBudgetMs tracker now).after (before ++ [c])).elapsedS ≤
          (totalBudgetMs : ℚ) / 1000 := by
  set t := start totalBudgetMs tracker now with ht
  have hbudget : t.ctx.totalBudgetS = (totalBudgetMs : ℚ) / 1000 := rfl
  have hbegin : t.elapsedS ≤ max 0 t.ctx.totalBudgetS + 0 := by
    have hzero : t.elapsedS = 0 := sub_self now
    rw [hzero, add_zero]
    exact le_max_left _ _
  constructor
  · have hle := after_elapsed_le hontime le_rfl hbegin
    rwa [hbudget, zero_add] at hle
  · rintro before c rest rfl hleft
    have hwithin := call_within_budget (onTime_append hontime) hleft
    rw [after_totalBudgetS, hbudget] at hwithin
    simpa only [after, List.foldl_append, List.foldl_cons, List.foldl_nil] using hwithin

/-- A call that takes half a second. -/
def halfSecondCall : BudgetedCall := ⟨"server.ping", 1 / 2⟩

/-- Three calls, of which the last takes half a second. -/
def threeCalls : List BudgetedCall :=
  [halfSecondCall, ⟨"http.fetch", 2 / 5⟩, halfSecondCall]

/-- In a turn of one second the second of them starts with half a second left
and ends in time; the last starts late, and ends less than half a second after
the turn should. -/
theorem last_of_three_late :
    ((start 1000 {} 0).after [halfSecondCall, ⟨"http.fetch", 2 / 5⟩]).elapsedS ≤
        (1000 : ℤ) / 1000 ∧
      (start 1000 {} 0).lateStarts threeCalls = 1 ∧
      ((start 1000 {} 0).after threeCalls).elapsedS = 7 / 5 ∧
      ((start 1000 {} 0).after threeCalls).elapsedS ≤
        max 0 ((1000 : ℤ) / 1000 : ℚ) + (start 1000 {} 0).lateStarts threeCalls * (1 / 2) := by
  obtain ⟨hturn, hcalls⟩ := turn_elapsed_le 1000 {} 0 threeCalls (by decide +kernel)
  exact ⟨hcalls [halfSecondCall] ⟨"http.fetch", 2 / 5⟩ [halfSecondCall] rfl (by decide +kernel),
    by decide +kernel, by decide +kernel, hturn⟩

/-- A negative budget is overrun by more than the half second of its only
call. -/
theorem negative_budget_overrun :
    (start (-1000) {} 0).OnTime [halfSecondCall] ∧
      (start (-1000) {} 0).lateStarts [halfSecondCall] = 1 ∧
      ¬ ((start (-1000) {} 0).after [halfSecondCall]).elapsedS ≤
        ((-1000 : ℤ) : ℚ) / 1000 + 1 * (1 / 2) := by
  decide +kernel

end Reliability
