import AtlasMcp.CallTimeouts

/-!
# Latency estimates and rejected calls

`call_with_budget` tells the tracker the duration of every call, also of one that the
breaker rejected before it ran.  A `LatencyLog` is a ledger with the list of all that the
tracker was told, from which the tracker can be built again (`Told`); what would have been
estimated without the rejected calls is what the rest of the list gives.

`unaffected_iff` says when rejected calls do no harm: as long as the tool has too few calls
on record for an estimate.
-/

namespace Reliability

/-- What the tracker was told of a call: how often it ran the tool, and
whether the breaker rejected it. -/
structure Sample where
  tool : String
  durationS : ℚ
  runs : ℕ
  rejected : Bool
  idle : rejected = true → runs = 0

/-- What was told of one tool. -/
def ofTool (tool : String) (samples : List Sample) : List Sample :=
  samples.filter fun x => x.tool = tool

/-- The part of it that the tracker still holds. -/
def recent (tool : String) (samples : List Sample) : List Sample :=
  (ofTool tool samples).drop ((ofTool tool samples).length - 500)

/-- Some rejected calls are left out, and the calls that are kept stay in their
order. -/
inductive WithoutRejected : List Sample → List Sample → Prop
  | nil : WithoutRejected [] []
  | keep {xs ys} (x : Sample) : WithoutRejected xs ys → WithoutRejected (x :: xs) (x :: ys)
  | drop {xs ys} (x : Sample) : x.rejected = true → WithoutRejected xs ys →
      WithoutRejected (x :: xs) ys

/-- Leaving out the durations of the rejected calls leaves those of the
others, in their order. -/
theorem withoutRejected_filter (samples : List Sample) :
    WithoutRejected samples (samples.filter fun x => !x.rejected) := by
  induction samples with
  | nil => exact .nil
  | cons x xs ih =>
      cases hx : x.rejected with
      | true => simpa [hx] using WithoutRejected.drop x hx ih
      | false => simpa [hx] using WithoutRejected.keep x ih

/-- Leaving out calls leaves no more. -/
theorem WithoutRejected.length_le {samples kept : List Sample}
    (h : WithoutRejected samples kept) (tool : String) :
    (ofTool tool kept).length ≤ (ofTool tool samples).length := by
  induction h with
  | nil => exact le_refl _
  | keep x _ ih =>
      by_cases hx : x.tool = tool <;> simpa [ofTool, hx] using ih
  | drop x _ _ ih =>
      by_cases hx : x.tool = tool
      · have hle := Nat.le_succ_of_le ih
        simpa [ofTool, hx] using hle
      · simpa [ofTool, hx] using ih

/-- Where every call ran, none is left out. -/
theorem WithoutRejected.ofTool_eq {samples kept : List Sample}
    (h : WithoutRejected samples kept) {tool : String}
    (hran : ∀ x ∈ ofTool tool samples, 0 < x.runs) :
    ofTool tool kept = ofTool tool samples := by
  induction h with
  | nil => rfl
  | keep x _ ih =>
      by_cases hx : x.tool = tool
      · have hrest := ih fun y hy => hran y (by simpa [ofTool, hx] using Or.inr hy)
        simpa [ofTool, hx] using hrest
      · have hrest := ih fun y hy => hran y (by simpa [ofTool, hx] using hy)
        simpa [ofTool, hx] using hrest
  | @drop xs ys x hrejected _ ih =>
      have hx : x.tool ≠ tool := by
        intro hx
        have hpos := hran x (by simp [ofTool, hx])
        have hzero := x.idle hrejected
        omega
      have hrest := ih fun y hy => hran y (by simpa [ofTool, hx] using hy)
      simpa [ofTool, hx] using hrest

namespace LatencyTracker

/-- The tracker after it was told of some calls. -/
def replay (samples : List Sample) : LatencyTracker :=
  samples.foldl (fun t x => t.record x.tool x.durationS) {}

theorem replay_append (samples : List Sample) (x : Sample) :
    replay (samples ++ [x]) = (replay samples).record x.tool x.durationS := by
  simp [replay]

theorem window_replay (samples : List Sample) : (replay samples).window = 500 := by
  induction samples using List.reverseRecOn with
  | nil => rfl
  | append_singleton samples x ih => rw [replay_append]; exact ih

/-- Dropping all but the last `w` before an element comes and again after it
is dropping them once. -/
theorem drop_window {α : Type} (xs : List α) (x : α) (w : ℕ) :
    (xs.drop (xs.length - w) ++ [x]).drop ((xs.drop (xs.length - w) ++ [x]).length - w) =
      (xs ++ [x]).drop ((xs ++ [x]).length - w) := by
  have hle : xs.length - w ≤ xs.length := Nat.sub_le _ _
  rw [← List.drop_append_of_le_length hle, List.drop_drop]
  congr 1
  simp only [List.length_drop, List.length_append, List.length_singleton]
  omega

/-- The durations of a tool are those before with the new one behind them, and
no more of them than the window has room for. -/
theorem recent_append (samples : List Sample) (x : Sample) :
    recent x.tool (samples ++ [x]) =
      (recent x.tool samples ++ [x]).drop ((recent x.tool samples ++ [x]).length - 500) := by
  have hof : ofTool x.tool (samples ++ [x]) = ofTool x.tool samples ++ [x] := by
    simp [ofTool]
  rw [recent, recent, hof]
  exact (drop_window _ x 500).symm

/-- The durations of the other tools stay as they are. -/
theorem recent_append_ne {x : Sample} {tool : String} (h : x.tool ≠ tool)
    (samples : List Sample) : recent tool (samples ++ [x]) = recent tool samples := by
  simp [recent, ofTool, h]

/-- The tracker holds the last durations of a tool it was told of. -/
theorem lookup_replay (samples : List Sample) (tool : String) :
    ((replay samples).samples.lookup tool).getD [] =
      (recent tool samples).map Sample.durationS := by
  induction samples using List.reverseRecOn with
  | nil => simp [replay, recent, ofTool]
  | append_singleton samples x ih =>
      rw [replay_append]
      simp only [record, window_replay]
      by_cases hx : x.tool = tool
      · subst hx
        rw [AList.lookup_insert, Option.getD_some, ih, recent_append]
        simp only [List.map_drop, List.map_append, List.map_cons, List.map_nil,
          List.length_append, List.length_map, List.length_cons, List.length_nil]
      · rw [AList.lookup_insert_ne (Ne.symm hx), ih, recent_append_ne hx]

/-- The estimate is made from the durations it holds; without any it is the
default, as with too few. -/
theorem p95_congr {t u : LatencyTracker} {tool : String}
    (h : (t.samples.lookup tool).getD [] = (u.samples.lookup tool).getD []) :
    t.p95 tool = u.p95 tool := by
  unfold p95
  cases ht : t.samples.lookup tool with
  | none =>
      cases hu : u.samples.lookup tool with
      | none => rfl
      | some durations =>
          obtain rfl : [] = durations := by simpa [ht, hu] using h
          rfl
  | some durations =>
      cases hu : u.samples.lookup tool with
      | none =>
          obtain rfl : durations = [] := by simpa [ht, hu] using h
          rfl
      | some durations' =>
          obtain rfl : durations = durations' := by simpa [ht, hu] using h
          rfl

/-- With fewer than twenty durations the estimate is five seconds. -/
theorem p95_of_few {t : LatencyTracker} {tool : String}
    (h : ((t.samples.lookup tool).getD []).length < 20) : t.p95 tool = 5 := by
  unfold p95
  cases ht : t.samples.lookup tool with
  | none => rfl
  | some durations =>
      rw [ht, Option.getD_some] at h
      simp [h]

/-- Leaving out rejected calls changes no timeout, if there are too few for an
estimate or every call ran. -/
theorem timeoutFor_withoutRejected {samples kept : List Sample}
    (h : WithoutRejected samples kept) {tool : String}
    (hclean : (ofTool tool samples).length < 20 ∨ ∀ x ∈ ofTool tool samples, 0 < x.runs) :
    (replay kept).timeoutFor tool = (replay samples).timeoutFor tool := by
  have hsame : (replay kept).p95 tool = (replay samples).p95 tool := by
    rcases hclean with hfew | hran
    · have hfew' : (ofTool tool kept).length < 20 := lt_of_le_of_lt (h.length_le tool) hfew
      rw [p95_of_few, p95_of_few]
      all_goals
        rw [lookup_replay, List.length_map, recent, List.length_drop]
        omega
    · apply p95_congr
      rw [lookup_replay, lookup_replay, recent, recent, h.ofTool_eq hran]
  simp only [timeoutFor, hsame]

end LatencyTracker

end Reliability

namespace Server

open PyJson PyText Errors Tools Auth Governance RateLimit Reliability Cache FallibleState
open GuardedRuns LatencyTracker

variable {F : Type}

/-- A ledger with all that the tracker was told.  The tracker itself only keeps
the last durations of each tool. -/
structure LatencyLog (F : Type) where
  ledger : Ledger F
  samples : List Sample := []

/-- The call was rejected by the breaker: it ends with the breaker's error and
ran nothing. -/
def isRejection (runs : ℕ) : Except (Exc F) (ToolResult F) → Bool
  | .error (.tool e) => runs = 0 ∧ e.cls = .circuitOpenError
  | _ => false

theorem runs_of_isRejection {runs : ℕ} {result : Except (Exc F) (ToolResult F)}
    (h : isRejection runs result = true) : runs = 0 := by
  rcases result with (e | _ | typeName) | r <;> simp [isRejection] at h
  exact h.1

/-- What the tracker is told when a dispatch is resumed. -/
def sampleOf (f : Flight F) (c : Budgeted) (result : Except (Exc F) (ToolResult F))
    (runs : ℕ) (now : ℚ) : Sample where
  tool := f.tool.metadata.name
  durationS := now - c.started
  runs
  rejected := isRejection runs result
  idle := runs_of_isRejection

namespace LatencyLog

/-- What the tracker is told with an event. -/
def told (l : LatencyLog F) : Event F → Option Sample
  | .woke i now => do
      let w ← l.ledger.waiting[i]?
      match w.phase with
      | .ending c result => some (sampleOf w.flight c result w.starts now)
      | _ => none
  | _ => none

/-- What an event tells of a call: the call was about to end and goes on with
its result, and the duration is the one from its start until now. -/
theorem told_eq_some {l : LatencyLog F} {e : Event F} {x : Sample} (h : l.told e = some x) :
    ∃ i f c result runs now, e = .woke i now ∧
      l.ledger.waiting[i]? = some ⟨f, .ending c result, runs⟩ ∧
      x = sampleOf f c result runs now := by
  cases e with
  | woke i now =>
      obtain ⟨w, hw, hx⟩ := Option.bind_eq_some_iff.mp h
      obtain ⟨f, phase, runs⟩ := w
      cases phase with
      | ending c result =>
          exact ⟨i, f, c, result, runs, now, rfl, hw, (Option.some.inj hx).symm⟩
      | _ => cases hx
  | _ => cases h

variable [PyFloat F] [UnicodeDb]

/-- The ledger takes its step, and what it tells is recorded. -/
def step (srv : AtlasServer F) (l : LatencyLog F) (e : Event F) : Option (LatencyLog F) :=
  (l.ledger.step srv e).map fun ledger =>
    { ledger, samples := l.samples ++ (l.told e).toList }

/-- One event. -/
def Step (srv : AtlasServer F) (l : LatencyLog F) (e : Event F) (l' : LatencyLog F) : Prop :=
  l.step srv e = some l'

omit [PyFloat F] [UnicodeDb] in
/-- A server in any state, but without latencies on record, with nothing in
flight. -/
def ofState (s : ServerState F) : LatencyLog F where
  ledger := .ofState { s with tracker := {} }

omit [PyFloat F] [UnicodeDb] in
/-- The latencies that the server holds. -/
def tracker (l : LatencyLog F) : LatencyTracker := l.ledger.system.server.tracker

/-- Without any of the rejected calls every timeout is the same, and an
estimate is made only from calls that ran. -/
def Unaffected (_ : LatencyLog F) (_ : Event F) (l' : LatencyLog F) : Prop :=
  (∀ kept, WithoutRejected l'.samples kept → ∀ tool,
    (replay kept).timeoutFor tool = l'.tracker.timeoutFor tool) ∧
  ∀ tool, 20 ≤ (recent tool l'.samples).length → ∀ x ∈ recent tool l'.samples, 0 < x.runs

/-- When the tracker is told of the twentieth call of a tool or a later one,
that one and all of them before have run. -/
def CleanEstimate (l : LatencyLog F) (e : Event F) (_ : LatencyLog F) : Prop :=
  ∀ x ∈ l.told e, (ofTool x.tool l.samples).length + 1 < 20 ∨
    ∀ y ∈ ofTool x.tool l.samples ++ [x], 0 < y.runs

/-- The ledger counts, and what was told gives the tracker.  Each step of a log
keeps this. -/
structure Told (l : LatencyLog F) : Prop where
  counts : l.ledger.Holds fun _ _ _ => True
  tracker : l.tracker = replay l.samples

/-- A tool has few calls on record, or all of them ran.  Then the estimate of
its latency is one of the tool, and not of its breaker. -/
def Clean (l : LatencyLog F) : Prop :=
  ∀ tool, (ofTool tool l.samples).length < 20 ∨ ∀ x ∈ ofTool tool l.samples, 0 < x.runs

variable {srv : AtlasServer F} {l l' : LatencyLog F} {e : Event F}

/-- What a step of the log does: the ledger takes its own, and what is told is
recorded behind the others. -/
theorem step_cases (h : l.Step srv e l') :
    l.ledger.Step srv e l'.ledger ∧ l'.samples = l.samples ++ (l.told e).toList := by
  obtain ⟨ledger, hledger, rfl⟩ := Option.map_eq_some_iff.mp h
  exact ⟨hledger, rfl⟩

omit [PyFloat F] [UnicodeDb] in
/-- The tracker is told of the dispatch that is resumed, and of no other. -/
theorem told_of_resumes (hl : l.ledger.Holds fun _ _ _ => True) {i : ℕ} {f : Flight F}
    {c : Budgeted} {result : Except (Exc F) (ToolResult F)} {now : ℚ}
    (h : l.ledger.system.Resumes e i f c result now) :
    ∃ runs, l.told e = some (sampleOf f c result runs now) := by
  obtain ⟨rfl, hi⟩ := h
  obtain ⟨runs, hruns⟩ := hl.counted hi
  exact ⟨runs, by simp [told, hruns]⟩

omit [PyFloat F] [UnicodeDb] in
/-- What is told is told as a call goes on with its result. -/
theorem resumes_of_told (hl : l.ledger.Holds fun _ _ _ => True) {x : Sample}
    (h : l.told e = some x) : ∃ i f c result runs now,
      l.ledger.system.Resumes e i f c result now ∧ x = sampleOf f c result runs now := by
  obtain ⟨i, f, c, result, runs, now, rfl, hi, rfl⟩ := told_eq_some h
  have hplace : l.ledger.system.inFlight[i]? = some (f, .ending c result) := by
    rw [← hl.faithful, List.getElem?_map, hi]
    rfl
  exact ⟨i, f, c, result, runs, now, ⟨rfl, hplace⟩, rfl⟩

omit [PyFloat F] [UnicodeDb] in
/-- If no call goes on with its result, nothing is told. -/
theorem told_eq_none (hl : l.ledger.Holds fun _ _ _ => True)
    (h : ∀ i f c result now, ¬ l.ledger.system.Resumes e i f c result now) :
    l.told e = none := by
  cases htold : l.told e with
  | none => rfl
  | some x =>
      obtain ⟨i, f, c, result, runs, now, hresumes, -⟩ := resumes_of_told hl htold
      exact absurd hresumes (h i f c result now)

/-- Every event keeps the record of what was told. -/
theorem told_step (hl : l.Told) (h : l.Step srv e l') : l'.Told := by
  obtain ⟨hledger, hsamples⟩ := step_cases h
  have hsystem := (Ledger.step_cases hledger).1
  refine ⟨hl.counts.step hledger (fun _ _ _ => trivial) fun _ _ _ _ _ _ _ => trivial, ?_⟩
  have hold : l.ledger.system.server.tracker = replay l.samples := hl.tracker
  rw [tracker, hsamples]
  rcases System.server_step hsystem with ⟨m, hm, hserver⟩ | ⟨hnone, -, htracker⟩
  · rcases System.latency_of_moved hm with
      ⟨hnot, now, hreads⟩ | ⟨i, c, result, now, hresumes, -, htracker, -⟩
    · rw [told_eq_none hl.counts hnot, hserver, hreads.tracker, hold]
      simp
    · obtain ⟨runs, htold⟩ := told_of_resumes hl.counts hresumes
      have happended := replay_append l.samples (sampleOf m.flight c result runs now)
      rw [htold, hserver, htracker, hold, Option.toList_some, happended]
      rfl
  · have hnot := System.not_resumes_of_not_moved hnone
    rw [told_eq_none hl.counts hnot, htracker, hold]
    simp

omit [PyFloat F] [UnicodeDb] in
/-- A step that tells of no rejected call too many keeps the estimates
clean. -/
theorem clean_step (hl : l.Clean) (hsamples : l'.samples = l.samples ++ (l.told e).toList)
    (hclean : CleanEstimate l e l') : l'.Clean := by
  intro tool
  rw [hsamples]
  cases htold : l.told e with
  | none => simpa using hl tool
  | some x =>
      by_cases hx : x.tool = tool
      · subst hx
        have hof : ofTool x.tool (l.samples ++ [x]) = ofTool x.tool l.samples ++ [x] := by
          simp [ofTool]
        have hlast := hclean x htold
        simpa [hof] using hlast
      · have hof : ofTool tool (l.samples ++ [x]) = ofTool tool l.samples := by
          simp [ofTool, hx]
        simpa [hof] using hl tool

omit [PyFloat F] [UnicodeDb] in
/-- While the estimates are clean, rejected calls do not affect them. -/
theorem unaffected_of_clean (hl : l'.Told) (hclean : l'.Clean) : Unaffected l e l' := by
  constructor
  · intro kept hkept tool
    rw [hl.tracker]
    exact timeoutFor_withoutRejected hkept (hclean tool)
  · intro tool hmany x hx
    rcases hclean tool with hfew | hran
    · rw [recent, List.length_drop] at hmany
      omega
    · exact hran x (List.mem_of_mem_drop hx)

omit [PyFloat F] [UnicodeDb] in
/-- A call that did not run is used for the estimate as soon as there are
enough. -/
theorem cleanEstimate_of_unaffected (hl : l.Clean)
    (hsamples : l'.samples = l.samples ++ (l.told e).toList) (h : Unaffected l e l') :
    CleanEstimate l e l' := by
  intro x hx
  by_cases hfew : (ofTool x.tool l.samples).length + 1 < 20
  · exact Or.inl hfew
  · right
    have hrecent := h.2 x.tool
    rw [hsamples, show l.told e = some x from hx, Option.toList_some, recent_append] at hrecent
    rcases hl x.tool with hbefore | hran
    · -- the twentieth call: the tracker still holds all of them
      have hall : recent x.tool l.samples = ofTool x.tool l.samples := by
        have hzero : (ofTool x.tool l.samples).length - 500 = 0 := by omega
        rw [recent, hzero, List.drop_zero]
      have hzero : (ofTool x.tool l.samples ++ [x]).length - 500 = 0 := by
        rw [List.length_append, List.length_singleton]
        omega
      rw [hall, hzero, List.drop_zero] at hrecent
      apply hrecent
      rw [List.length_append, List.length_singleton]
      omega
    · -- a later one: it is the last that the tracker holds
      intro y hy
      rcases List.mem_append.mp hy with hy | hy
      · exact hran y hy
      · obtain rfl := List.mem_singleton.mp hy
        apply hrecent
        · simp only [List.length_drop, List.length_append, List.length_singleton, recent]
          omega
        · have hle : (recent y.tool l.samples ++ [y]).length - 500 ≤
              (recent y.tool l.samples).length := by
            rw [List.length_append, List.length_singleton]
            omega
          rw [List.drop_append_of_le_length hle]
          exact List.mem_append.mpr (Or.inr (List.mem_singleton.mpr rfl))

/-- **When rejections do no harm.**  From every state of a server without
latencies on record, no timeout in a run depends on rejected calls, and every
estimate is made only from calls that ran, if and only if no tool comes to
twenty calls on record of which one did not run. -/
theorem unaffected_iff (srv : AtlasServer F) (s : ServerState F) (events : List (Event F))
    (l : LatencyLog F) :
    Run (Guarded (Step srv) Unaffected) (ofState s) events l ↔
      Run (Guarded (Step srv) CleanEstimate) (ofState s) events l := by
  apply run_guarded_iff (I := fun l => l.Told ∧ l.Clean)
  · exact ⟨⟨Ledger.holds_ofState _, rfl⟩, fun tool => Or.inl (by simp [ofState, ofTool])⟩
  · intro l e l' hl hstep haffected
    have hsamples := (step_cases hstep).2
    have hclean := cleanEstimate_of_unaffected hl.2 hsamples haffected
    exact ⟨told_step hl.1 hstep, clean_step hl.2 hsamples hclean⟩
  · intro l e l' hl hstep
    have hsamples := (step_cases hstep).2
    constructor
    · exact cleanEstimate_of_unaffected hl.2 hsamples
    · intro hclean
      exact unaffected_of_clean (told_step hl.1 hstep) (clean_step hl.2 hsamples hclean)

end LatencyLog

/-- A server whose breakers open at the first failure. -/
def brittleServer : AtlasServer WholeFloat :=
  { pingServer with
    settings := { circuitBreakerFailureThreshold := 1, retryMaxAttempts := 1 } }

/-- A ping that fails after a second, and opens the breaker. -/
def pingFails : List (Event WholeFloat) :=
  [.dispatch pingContext (pingContext.buildEnvelope "server.ping" []) ⟨0, 0, ""⟩, .woke 0 0,
    .ran 0 (.error (.tool { cls := .upstreamError, code := "http_timeout", retryable := true })) 1,
    .woke 0 1]

/-- A ping that the breaker rejects. -/
def pingRejected (second : ℕ) : List (Event WholeFloat) :=
  [.dispatch pingContext (pingContext.buildEnvelope "server.ping" [])
      ⟨second, 1000 * second, ""⟩,
    .woke 0 second, .woke 0 second]

/-- The next nineteen, all but the end of the last. -/
def pingedWhileOpen : List (Event WholeFloat) :=
  pingFails ++ ((List.range 19).flatMap fun k => pingRejected (k + 2)).dropLast

/-- They bring the timeout of the next ping down to a second and a half, from
seven and a half. -/
theorem rejected_pings_shorten_timeout : ∃ l l',
    Run (LatencyLog.Step brittleServer) (.ofState brittleServer.initial) pingedWhileOpen l ∧
      l.Step brittleServer (.woke 0 20) l' ∧ l'.tracker.timeoutFor "server.ping" = 3 / 2 ∧
      ¬ LatencyLog.Unaffected l (.woke 0 20) l' := by
  obtain ⟨l, hl, l', hl', hwith, hwithout⟩ :
      ∃ l ∈ exec (LatencyLog.step brittleServer) (.ofState brittleServer.initial)
        pingedWhileOpen, ∃ l' ∈ l.step brittleServer (.woke 0 20),
        l'.tracker.timeoutFor "server.ping" = 3 / 2 ∧
        (replay (l'.samples.filter fun x => !x.rejected)).timeoutFor "server.ping" = 15 / 2 := by
    decide +kernel
  refine ⟨l, l', Run.of_exec hl, hl', hwith, fun h => ?_⟩
  have hsame := h.1 _ (withoutRejected_filter l'.samples) "server.ping"
  rw [hwithout, hwith] at hsame
  norm_num at hsame

end Server
