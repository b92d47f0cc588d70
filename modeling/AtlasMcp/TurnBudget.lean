import AtlasMcp.BudgetedTurns
import AtlasMcp.LatencyEstimates
import AtlasMcp.LatencyPercentile

/-!
# The budget of a turn

An agent makes the calls of a turn one after the other.  The server never starts a turn
budget, so the timeout of a call comes from the latencies of its tool alone (`timeout_of_begins`),
and not from what the calls before it left of the budget, as `timeout_for` would have it in a
turn that was begun (`allotted_eq`).

`within_budget_iff` says when the calls of a turn get what the budget allots them, and stay
within it, all the same: when nearly all the durations that the tracker has of each tool are
short enough for the share of the budget that is left to its call.
-/

namespace Reliability.LatencyTracker

/-- All but a few of the durations are within the bound; without enough of
them, the default is. -/
def MostlyWithin (durations : List ℚ) (bound : ℚ) : Prop :=
  if durations.length < 20 then 5 ≤ bound
  else durations.length * 95 / 100 < durations.countP (· ≤ bound)

/-- An estimate within a bound, in terms of the durations it is made from. -/
theorem p95_le_iff (t : LatencyTracker) (tool : String) (bound : ℚ) :
    t.p95 tool ≤ bound ↔ MostlyWithin (t.samplesOf tool) bound := by
  by_cases hfew : (t.samplesOf tool).length < 20
  · rw [MostlyWithin, if_pos hfew, p95_of_few hfew]
  · rw [MostlyWithin, if_neg hfew]
    exact OrderStatistics.le_iff_lt_countP (orderStatistic_p95 (not_lt.mp hfew)) bound

end Reliability.LatencyTracker

namespace Server

open PyJson PyText Errors Tools Auth Governance RateLimit Reliability Cache FallibleState
open GuardedRuns

variable {F : Type}

/-- The total budget of a turn, in seconds. -/
def AtlasServer.totalBudgetS (srv : AtlasServer F) : ℚ :=
  srv.settings.atbaTotalBudgetMs / 1000

/-- A bound that is cut off at `m` makes no difference to what is. -/
theorem max_eq_max_min_iff {m x bound : ℚ} :
    max m x = max m (min x bound) ↔ x ≤ max m bound := by
  constructor
  · intro h
    calc x ≤ max m x := le_max_right _ _
      _ = max m (min x bound) := h
      _ ≤ max m bound := max_le_max le_rfl (min_le_right _ _)
  · intro h
    rcases le_max_iff.mp h with hm | hbound
    · rw [max_eq_left hm, max_eq_left ((min_le_left _ _).trans hm)]
    · rw [min_eq_left hbound]

namespace LatencyLog

/-- A server in any state, with nothing in flight, at the start of a turn. -/
def startTurn (s : ServerState F) : LatencyLog F where
  ledger := .ofState s

/-- What the calls of the turn spent under their timeouts. -/
def spent (l : LatencyLog F) : ℚ :=
  (l.samples.map Sample.durationS).sum

/-- Dispatches come one after the other, and `asyncio.wait_for` is on time:
nothing happens to a call after its timeout. -/
def InTurn (l : LatencyLog F) (e : Event F) (_ : LatencyLog F) : Prop :=
  match e with
  | .dispatch .. => l.ledger.system.inFlight.length = 0
  | .ran i _ now | .woke i now | .interrupt i _ now =>
      ∀ x ∈ l.ledger.system.inFlight[i]?, ∀ c ∈ x.2.budgeted?,
        c.started ≤ now ∧ now ≤ c.started + c.timeoutS
  | _ => True

instance (l : LatencyLog F) (e : Event F) (l' : LatencyLog F) : Decidable (l.InTurn e l') :=
  match e with
  | .dispatch .. => inferInstanceAs (Decidable (_ = 0))
  | .ran i _ _ | .woke i _ | .interrupt i _ _ =>
      inferInstanceAs (Decidable (∀ x ∈ l.ledger.system.inFlight[i]?, ∀ c ∈ x.2.budgeted?, _))
  | .invalidateKey _ | .invalidateTool .. | .invalidateTenant _ | .judge .. => isTrue trivial

variable [PyFloat F] [UnicodeDb]

/-- A call of the tool begins with the event: its timeout runs from now on, and
is no longer changed. -/
def Begins (srv : AtlasServer F) (l : LatencyLog F) (e : Event F) (tool : String)
    (c : Budgeted) : Prop :=
  ∃ m, l.ledger.system.moved srv e = some m ∧ m.next.1.begins = some c ∧
    m.flight.tool.metadata.name = tool

omit [PyFloat F] [UnicodeDb] in
/-- What falls to each of the calls that are expected to come, of what those
before have left. -/
def fairShare (srv : AtlasServer F) (l : LatencyLog F) : ℚ :=
  max 0 (srv.totalBudgetS - l.spent) /
    (max 1 (ATBA.expectedCallsPerTurn - l.samples.length) : ℤ)

omit [PyFloat F] [UnicodeDb] in
/-- What the budget allots to a call: what its tool usually takes or a fair
share, but never less than half a second. -/
def allotted (srv : AtlasServer F) (l : LatencyLog F) (tool : String) : ℚ :=
  max ATBA.minCallTimeoutS (min (l.tracker.p95 tool * ATBA.safetyFactor) (fairShare srv l))

omit [PyFloat F] [UnicodeDb] in
/-- It is what `timeout_for` gives, with the same latencies, in a turn that
was begun and in which that many calls have spent so much. -/
theorem allotted_eq (srv : AtlasServer F) (l : LatencyLog F) (tool : String) :
    allotted srv l tool = (ATBA.ofMs srv.settings.atbaTotalBudgetMs l.tracker).timeoutFor
      (some { totalBudgetS := srv.totalBudgetS, startedAt := 0, callsMade := l.samples.length,
              spentS := l.spent }) tool l.spent := by
  simp only [ATBA.timeoutFor, BudgetContext.remainingS, sub_zero]
  rfl

/-- The calls that have ended spent no more than the budget and half a second
each, and a call that begins gets what the budget allots to it. -/
def WithinBudget (srv : AtlasServer F) (l : LatencyLog F) (e : Event F) (l' : LatencyLog F) :
    Prop :=
  l'.spent ≤ srv.totalBudgetS + l'.samples.length * ATBA.minCallTimeoutS ∧
  ∀ tool c, Begins srv l e tool c → c.timeoutS = allotted srv l tool

/-- There is a budget, and the durations on record of a tool whose call begins
are short enough for its share, or for the least timeout. -/
def LeavesEnough (srv : AtlasServer F) (l : LatencyLog F) (e : Event F) (_ : LatencyLog F) :
    Prop :=
  0 ≤ srv.totalBudgetS ∧
  ∀ tool, (∃ c, Begins srv l e tool c) → LatencyTracker.MostlyWithin (l.tracker.samplesOf tool)
    (2 / 3 * max ATBA.minCallTimeoutS (fairShare srv l))

/-- A turn in which no call in flight has more time than was left when it
began. -/
structure Paced (srv : AtlasServer F) (l : LatencyLog F) : Prop where
  counts : l.ledger.Holds fun _ _ _ => True
  alone : l.ledger.system.inFlight.length ≤ 1
  fits : ∀ x ∈ l.ledger.system.inFlight, ∀ c ∈ x.2.budgeted?,
    c.timeoutS ≤ max (1 / 2) (srv.totalBudgetS - l.spent)
  bound : (0 ≤ srv.totalBudgetS ∧
      l.spent ≤ srv.totalBudgetS + l.samples.length * (1 / 2)) ∨
    (l.samples = [] ∧ l.ledger.system.inFlight = [])

variable {srv : AtlasServer F} {l l' : LatencyLog F} {e : Event F}

/-- The timeout of a call that begins is the one of a call outside of any
turn. -/
theorem timeout_of_begins {tool : String} {c : Budgeted} (h : Begins srv l e tool c) (now : ℚ) :
    c.timeoutS =
      (ATBA.ofMs srv.settings.atbaTotalBudgetMs l.tracker).timeoutFor none tool now := by
  obtain ⟨m, hm, hc, rfl⟩ := h
  rcases System.latency_of_moved hm with ⟨-, later, hreads⟩ | ⟨i, c', result, later, -, -, -, r, hr⟩
  · rw [ATBA.timeoutFor_none]
    exact (hreads.begins c hc).2
  · rw [hr] at hc
    cases hc

omit [PyFloat F] [UnicodeDb] in
/-- What is allotted is left, or the least timeout. -/
theorem allotted_le (srv : AtlasServer F) (l : LatencyLog F) (tool : String) :
    allotted srv l tool ≤ max (1 / 2) (srv.totalBudgetS - l.spent) := by
  have hcalls : (1 : ℚ) ≤ (max 1 (ATBA.expectedCallsPerTurn - l.samples.length) : ℤ) := by
    exact_mod_cast le_max_left 1 (ATBA.expectedCallsPerTurn - (l.samples.length : ℤ))
  refine max_le (le_max_left _ _) ((min_le_right _ _).trans ?_)
  calc fairShare srv l
      ≤ max 0 (srv.totalBudgetS - l.spent) := div_le_self (le_max_left _ _) hcalls
    _ ≤ max (1 / 2) (srv.totalBudgetS - l.spent) := max_le_max (by norm_num) le_rfl

/-- A call gets what the budget allots to it if and only if the durations of
its tool leave it at that. -/
theorem timeout_eq_allotted_iff {tool : String} {c : Budgeted} (h : Begins srv l e tool c) :
    c.timeoutS = allotted srv l tool ↔ LatencyTracker.MostlyWithin (l.tracker.samplesOf tool)
      (2 / 3 * max ATBA.minCallTimeoutS (fairShare srv l)) := by
  have htimeout : c.timeoutS =
      max ATBA.minCallTimeoutS (l.tracker.p95 tool * ATBA.safetyFactor) :=
    timeout_of_begins h l.spent
  rw [htimeout, allotted, max_eq_max_min_iff, ← LatencyTracker.p95_le_iff, ATBA.safetyFactor]
  constructor <;> intro hle <;> linarith

omit [PyFloat F] [UnicodeDb] in
/-- Where nothing is resumed, nothing is spent. -/
theorem samples_of_told_none (hsamples : l'.samples = l.samples ++ (l.told e).toList)
    (hnone : l.told e = none) : l'.samples = l.samples := by
  rw [hsamples, hnone]
  simp

omit [PyFloat F] [UnicodeDb] in
/-- A call that is resumed spent no more than its timeout. -/
theorem spent_of_told (hl : l.Paced srv)
    (hsamples : l'.samples = l.samples ++ (l.told e).toList) (hturn : l.InTurn e l')
    {x : Sample} (hx : l.told e = some x) :
    l'.samples.length = l.samples.length + 1 ∧
      l'.spent ≤ l.spent + max (1 / 2) (srv.totalBudgetS - l.spent) := by
  obtain ⟨i, f, c, result, runs, now, ⟨rfl, hplace⟩, rfl⟩ := resumes_of_told hl.counts hx
  have htime := (hturn _ hplace c rfl).2
  have hfits := hl.fits _ (List.mem_of_getElem? hplace) c rfl
  rw [spent, hsamples, hx]
  refine ⟨by simp, ?_⟩
  simp only [Option.toList_some, List.map_append, List.sum_append, List.map_cons, List.map_nil,
    List.sum_singleton, sampleOf]
  rw [← spent]
  linarith

omit [PyFloat F] [UnicodeDb] in
/-- Only a dispatch in flight can be resumed. -/
theorem told_of_idle (hl : l.ledger.Holds fun _ _ _ => True)
    (hidle : l.ledger.system.inFlight = []) : l.told e = none := by
  apply told_eq_none hl
  intro i f c result now h
  have hi := h.2
  rw [hidle] at hi
  cases hi

/-- The dispatch that moves is the only one. -/
theorem left_alone (hl : l.Paced srv) (hturn : l.InTurn e l') {m : Move F}
    (hm : l.ledger.system.moved srv e = some m) :
    leftBy l.ledger.system.inFlight m.place = [] := by
  rcases System.moved_cases hm with
    ⟨hplace, s, ⟨ctx, env, clock, tool, args, rfl, -⟩, -⟩ | ⟨i, phase, hplace, hgoes⟩
  · rw [hplace]
    exact List.eq_nil_of_length_eq_zero hturn
  · obtain ⟨hlt, -⟩ := List.getElem?_eq_some_iff.mp hgoes.1
    have hone := hl.alone
    rw [hplace]
    apply List.eq_nil_of_length_eq_zero
    rw [leftBy, List.length_eraseIdx_of_lt hlt]
    omega

/-- Every event within the budget keeps the pace. -/
theorem paced_step (hl : l.Paced srv) (h : l.Step srv e l') (hturn : l.InTurn e l')
    (hwithin : WithinBudget srv l e l') : l'.Paced srv := by
  obtain ⟨hledger, hsamples⟩ := step_cases h
  have hsystem := (Ledger.step_cases hledger).1
  have hcounts : l'.ledger.Holds fun _ _ _ => True :=
    hl.counts.step hledger (fun _ _ _ => trivial) fun _ _ _ _ _ _ _ => trivial
  have hbudget : 0 ≤ srv.totalBudgetS := by
    rcases hl.bound with ⟨hbudget, -⟩ | ⟨hnone, hidle⟩
    · exact hbudget
    · have hsame := samples_of_told_none hsamples (told_of_idle hl.counts hidle)
      have hbound := hwithin.1
      rw [spent, hsame, hnone] at hbound
      simpa using hbound
  rcases System.step_moved hsystem with ⟨hnone, hinFlight, -⟩ | ⟨m, hm, hinFlight, -⟩
  · have hnot := System.not_resumes_of_not_moved hnone
    have hsame := samples_of_told_none hsamples (told_eq_none hl.counts hnot)
    refine ⟨hcounts, hinFlight ▸ hl.alone, ?_, Or.inl ⟨hbudget, hwithin.1⟩⟩
    rw [hinFlight, spent, hsame]
    exact hl.fits
  · have hone : l'.ledger.system.inFlight =
        (m.next.1.phase?.map fun phase => (m.flight, phase)).toList := by
      rw [hinFlight, left_alone hl hturn hm, List.nil_append]
    refine ⟨hcounts, ?_, ?_, Or.inl ⟨hbudget, hwithin.1⟩⟩
    · rw [hone]
      cases m.next.1.phase? <;> simp
    · intro x hx c hc
      rcases hnext : m.next.1 with phase | r
      · -- the dispatch goes on, so that nothing was spent
        have hsame : l'.samples = l.samples := by
          apply samples_of_told_none hsamples
          rcases System.latency_of_moved hm with
            ⟨hnot, -⟩ | ⟨i, c', result, now, -, -, -, r, hr⟩
          · exact told_eq_none hl.counts hnot
          · rw [hnext] at hr
            cases hr
        obtain rfl : x = (m.flight, phase) := by
          rw [hone, hnext] at hx
          exact List.mem_singleton.mp hx
        rw [spent, hsame]
        rcases System.budgeted_of_moved hm hnext hc with hbegins | ⟨i, before, -, hi, hbefore⟩
        · rw [hwithin.2 _ c ⟨m, hm, hbegins, rfl⟩]
          exact allotted_le srv l _
        · exact hl.fits _ (List.mem_of_getElem? hi) c hbefore
      · rw [hone, hnext] at hx
        cases hx

/-- Calls that were given no more than was left have spent no more. -/
theorem spent_le_step (hl : l.Paced srv) (h : l.Step srv e l') (hturn : l.InTurn e l')
    (hbudget : 0 ≤ srv.totalBudgetS) :
    l'.spent ≤ srv.totalBudgetS + l'.samples.length * ATBA.minCallTimeoutS := by
  have hsamples := (step_cases h).2
  have hbefore : l.spent ≤ srv.totalBudgetS + l.samples.length * (1 / 2) := by
    rcases hl.bound with ⟨-, hbound⟩ | ⟨hnone, -⟩
    · exact hbound
    · rw [spent, hnone]
      simpa using hbudget
  rw [ATBA.minCallTimeoutS]
  cases hx : l.told e with
  | none =>
      have hsame := samples_of_told_none hsamples hx
      rw [spent, hsame]
      exact hbefore
  | some x =>
      obtain ⟨hlength, hspent⟩ := spent_of_told hl hsamples hturn hx
      have hcount : (0 : ℚ) ≤ l.samples.length := Nat.cast_nonneg _
      rw [hlength]
      push_cast
      rcases max_cases (1 / 2 : ℚ) (srv.totalBudgetS - l.spent) with ⟨hmax, -⟩ | ⟨hmax, -⟩
      all_goals
        rw [hmax] at hspent
        linarith

/-- **Within the budget by chance.**  In every turn, from every state of a
server, the calls that have ended spent no more than the total budget and half
a second for each, and each call gets what is allotted to it of what the ones
before it left, if and only if the budget is not negative and, when a call
begins, nearly all durations on record of its tool are at most two thirds of
its fair share, or of half a second. -/
theorem within_budget_iff (srv : AtlasServer F) (s : ServerState F) (events : List (Event F))
    (l : LatencyLog F) :
    Run (Guarded (Guarded (Step srv) InTurn) (WithinBudget srv)) (startTurn s) events l ↔
      Run (Guarded (Guarded (Step srv) InTurn) (LeavesEnough srv)) (startTurn s) events l := by
  apply run_guarded_iff (I := Paced srv)
  · exact ⟨Ledger.holds_ofState _, by simp [startTurn, Ledger.ofState],
      by simp [startTurn, Ledger.ofState], Or.inr ⟨rfl, rfl⟩⟩
  · intro l e l' hl hstep hwithin
    exact paced_step hl hstep.1 hstep.2 hwithin
  · intro l e l' hl hstep
    constructor
    · intro hwithin
      refine ⟨?_, fun tool hbegins => ?_⟩
      · rcases (paced_step hl hstep.1 hstep.2 hwithin).bound with ⟨hbudget, -⟩ | ⟨hnone, -⟩
        · exact hbudget
        · have hbound := hwithin.1
          rw [spent, hnone] at hbound
          simpa using hbound
      · obtain ⟨c, hc⟩ := hbegins
        exact (timeout_eq_allotted_iff hc).mp (hwithin.2 tool c hc)
    · intro hleaves
      refine ⟨spent_le_step hl hstep.1 hstep.2 hleaves.1, fun tool c hbegins => ?_⟩
      exact (timeout_eq_allotted_iff hbegins).mpr (hleaves.2 tool ⟨c, hbegins⟩)

end LatencyLog

/-- A ping that is not answered until its timeout passes. -/
def pingHangs (k : ℕ) : List (Event WholeFloat) :=
  [.dispatch pingContext (pingContext.buildEnvelope "server.ping" [])
      ⟨15 / 2 * k, 7500 * k, ""⟩,
    .woke 0 (15 / 2 * k), .interrupt 0 true (15 / 2 * (k + 1)), .woke 0 (15 / 2 * (k + 1))]

/-- A turn of five of them. -/
def hangingTurn : List (Event WholeFloat) :=
  (List.range 5).flatMap pingHangs

/-- It takes thirty-seven and a half seconds, of a budget of thirty. -/
theorem hanging_turn_over_budget : ∃ l,
    Run (Guarded (LatencyLog.Step pingServer) LatencyLog.InTurn)
      (.startTurn pingServer.initial) hangingTurn l ∧
      pingServer.totalBudgetS + l.samples.length * ATBA.minCallTimeoutS < l.spent := by
  obtain ⟨l, hl, hspent, hlength⟩ : ∃ l ∈ execGuarded (LatencyLog.step pingServer)
      LatencyLog.InTurn (.startTurn pingServer.initial) hangingTurn,
      l.spent = 75 / 2 ∧ l.samples.length = 5 := by
    decide +kernel
  refine ⟨l, Run.of_execGuarded hl, ?_⟩
  rw [hspent, hlength]
  norm_num [AtlasServer.totalBudgetS, pingServer, ATBA.minCallTimeoutS]

end Server
