import AtlasMcp.CacheTasks

/-!
# The counters of hits and misses

`_run_observed` reads the manager's count of hits before it calls `get_or_compute`, and again
after it, and counts the dispatch as a hit if the count has grown.  All dispatches share that
count.

A `Metered` system keeps, with each dispatch, its tool and the count it has read, and the two
counters of each tool; the returns are a record that the code does not keep.  `counted_iff`
says when the counters are right.
-/

namespace SharedCache

open PyJson Errors Cache GuardedRuns TaskTurns

variable {F : Type} {L : L2Backend}

/-- What `_run_observed` remembers while it waits for the cache: how many hits
there were before, of all tools together. -/
structure Meter where
  tool : String
  hitsBefore : ℕ

/-- A dispatch of a tool that returned, and whether its own computation
ran. -/
structure Return where
  tool : String
  computed : Bool
  deriving DecidableEq

/-- The callers of a manager, each with its meter if it is a dispatch, and the
counters `cache_hits` and `cache_misses`. -/
structure Metered (F : Type) (L : L2Backend) where
  system : System F L
  meters : List (Option Meter) := []
  cacheHits : String → ℕ
  cacheMisses : String → ℕ
  returns : List Return := []

/-- The caller is about to return what it computed. -/
def Phase.finishing : Phase F → Bool
  | .wasWritten false _ | .wasReleased (.ok _) => true
  | _ => false

namespace Metered

/-- `observe_cache(tool, hit)`. -/
def observeCache (s : Metered F L) (tool : String) (hit : Bool) : Metered F L :=
  if hit then
    { s with cacheHits := Function.update s.cacheHits tool (s.cacheHits tool + 1) }
  else { s with cacheMisses := Function.update s.cacheMisses tool (s.cacheMisses tool + 1) }

/-- What follows if caller `i`, which has moved, is a dispatch that
returned. -/
def leave (s : Metered F L) (i : ℕ) : Metered F L :=
  match s.system.tasks[i]?, s.meters[i]? with
  | some c, some (some meter) =>
      match c.phase with
      | .ended (.ok _) =>
          { s.observeCache meter.tool (meter.hitsBefore < s.system.tiers.hits) with
            returns := s.returns ++ [⟨meter.tool, c.started.isSome⟩] }
      | _ => s
  | _, _ => s

/-- What is remembered of a caller that arrives. -/
def meterOf (s : Metered F L) (tool : String) : Event F → List (Option Meter)
  | .call (.get _) => [none]
  | .call (.getOrCompute _ _) => [some ⟨tool, s.system.tiers.hits⟩]
  | _ => []

/-- The caller that moves. -/
def place (s : Metered F L) : Event F → Option ℕ
  | .call _ => some s.system.tasks.length
  | .act i _ => some i
  | _ => none

variable [PyFloat F]

/-- An event; with a call of `get_or_compute` comes the tool that is
dispatched. -/
def step (s : Metered F L) (e : (Event F × ℚ) × String) : Option (Metered F L) :=
  (s.system.step e.1).map fun u =>
    let moved := { s with system := u, meters := s.meters ++ s.meterOf e.2 e.1.1 }
    match s.place e.1.1 with
    | some i => moved.leave i
    | none => moved

/-- One event. -/
def Step (s : Metered F L) (e : (Event F × ℚ) × String) (t : Metered F L) : Prop :=
  s.step e = some t

omit [PyFloat F] in
/-- A manager in any state and any counts, with nobody calling. -/
def ofTiers (tiers : Tiers F L) (clock : ℚ) (hits misses : String → ℕ) : Metered F L where
  system := .ofTiers tiers clock
  cacheHits := hits
  cacheMisses := misses

/-- The counters have grown by the dispatches that returned: the misses of a
tool by those whose own computation ran, the hits by the others. -/
def Exact (hits misses : String → ℕ) (t : Metered F L) : Prop :=
  ∀ tool,
    t.cacheMisses tool = misses tool + t.returns.count ⟨tool, true⟩ ∧
    t.cacheHits tool = hits tool + t.returns.count ⟨tool, false⟩

/-- No dispatch returns what it computed after a hit was counted since it
called: that of another dispatch, or its own of a stored `null`. -/
def Undisturbed (s : Metered F L) (e : (Event F × ℚ) × String) (_ : Metered F L) : Prop :=
  ∀ i c meter, e.1.1 = .act i .resumed → s.system.tasks[i]? = some c →
    c.phase.finishing = true → s.meters[i]? = some (some meter) →
    s.system.tiers.hits = meter.hitsBefore

end Metered

/-! ## Turns -/

/-- A caller has started to compute if it is past the cache, and has not as long
as it reads, asks for the lock, or waits. -/
def Tracked (c : Task F) : Prop :=
  match c.phase with
  | .reading _ | .wasRead _ _ | .locking | .wasLocked _ | .sleeping _ _ => c.started = none
  | .computing _ | .writing _ _ | .wasWritten _ _ | .releasing _ | .wasReleased _ =>
      c.started.isSome = true
  | .ended _ => True

/-- The caller reads for `get`. -/
def Phase.plain : Phase F → Bool
  | .reading .plain | .wasRead .plain _ => true
  | _ => false

/-- The caller ended with a value, for which the counters count a hit or a miss.
A caller that ends with an exception is not counted. -/
def Phase.Returned (p : Phase F) : Prop := ∃ v, p = .ended (.ok v)

section Turns

variable [PyFloat F] {s : Tiers F L} {m : Moment} {i : ℕ} {e : Event F} {old : Option (Task F)}
  {next : Tiers F L × Task F}

omit [PyFloat F] in
/-- What a caller does with a value that it has read keeps track: it computes
only when the cache has nothing for it. -/
theorem tracked_afterGet {c : Task F} (hc : c.started = none) (r : Reader) (value : Value F) :
    Tracked (afterGet c r value m) := by
  rcases afterGet_cases c r value m with
    ⟨-, h⟩ | ⟨-, -, h⟩ | ⟨-, waits, -, -, h⟩ | ⟨-, waits, -, -, h⟩ <;> rw [h]
  · trivial
  · exact hc
  · exact hc
  · rfl

omit [PyFloat F] in
theorem tracked_startGet {c : Task F} (hc : c.started = none) (r : Reader) :
    Tracked (startGet s c r m).2 := by
  rcases startGet_cases s c r m with ⟨value, -, -, h⟩ | ⟨-, h⟩ <;> rw [h]
  · trivial
  · exact hc

theorem tracked_afterRead {c : Task F} (hc : c.started = none) (r : Reader)
    (raw : Option String) : Tracked (afterRead s c r raw m).2 := by
  rcases afterRead_cases s c r raw m with ⟨-, h⟩ | ⟨text, -, -, h⟩ | ⟨text, value, -, -, h⟩ <;>
    rw [h]
  · exact tracked_afterGet hc r _
  · trivial
  · exact tracked_afterGet hc r _

omit [PyFloat F] in
/-- The phase says whether the caller has started. -/
theorem Tracked.of_phase {c : Task F} {phase : Phase F} (h : Tracked c) (hphase : c.phase = phase) :
    Tracked { c with phase } := by
  subst hphase
  exact h

/-- A turn keeps track of the start. -/
theorem tracked_turn (h : Turn s m i e old next) (hold : ∀ c, old = some c → Tracked c) :
    Tracked next.2 := by
  cases h with
  | call r => cases r <;> exact tracked_startGet rfl _
  | wake hphase => exact tracked_startGet ((hold _ rfl).of_phase hphase) _
  | answerRead hphase =>
      have hc := (hold _ rfl).of_phase hphase
      exact hc
  | afterRead hphase => exact tracked_afterRead ((hold _ rfl).of_phase hphase) _ _
  | answerLock hphase =>
      have hc := (hold _ rfl).of_phase hphase
      exact hc
  | afterLock hphase =>
      rename_i c granted
      have hc := (hold _ rfl).of_phase hphase
      cases granted
      · exact hc
      · rfl
  | afterCompute outcome hphase =>
      rename_i c locked
      have hc := (hold _ rfl).of_phase hphase
      cases outcome
      · cases locked
        · trivial
        · exact hc
      · exact hc
  | answerWrite hphase =>
      have hc := (hold _ rfl).of_phase hphase
      exact hc
  | afterWrite hphase =>
      rename_i c locked value
      have hc := (hold _ rfl).of_phase hphase
      cases locked
      · trivial
      · exact hc
  | answerRelease hphase =>
      have hc := (hold _ rfl).of_phase hphase
      exact hc
  | afterRelease hphase => trivial

/-- How a turn of a dispatch counts.  A hit ends it, with one more hit; a
value of its own ends it without; else it goes on or raises. -/
inductive Outcome (s : Tiers F L) (i : ℕ) (e : Event F) (old : Option (Task F))
    (next : Tiers F L × Task F) : Prop
  | hit (hphase : next.2.phase.Returned) (hstarted : next.2.started = none)
      (hhits : next.1.hits = s.hits + 1) (hold : ∀ c, old = some c → c.phase.finishing = false)
  | own (c : Task F) (hold : old = some c) (he : e = .act i .resumed)
      (hfinishing : c.phase.finishing = true) (hphase : next.2.phase.Returned)
      (hstarted : next.2.started.isSome = true) (hhits : next.1.hits = s.hits)
  | other (hphase : ¬ next.2.phase.Returned) (hhits : s.hits ≤ next.1.hits)
      (hold : ∀ c, old = some c → c.phase.finishing = false)

omit [PyFloat F] in
/-- A caller that ends with an error has not returned. -/
theorem not_returned_error {exc : Exc F} : ¬ (Phase.ended (.error exc)).Returned := by
  rintro ⟨v, hv⟩
  cases hv

omit [PyFloat F] in
/-- A miss, for a dispatch, is not the end. -/
theorem outcome_miss {c : Task F} {r : Reader} (hr : r ≠ .plain) :
    ¬ (afterGet c r .none m).phase.Returned := by
  rintro ⟨v, hv⟩
  rcases afterGet_cases c r .none m with
    ⟨hplain, -⟩ | ⟨-, -, h⟩ | ⟨-, waits, -, -, h⟩ | ⟨-, waits, -, -, h⟩
  · exact hr (hplain rfl)
  all_goals
    rw [h] at hv
    cases hv

omit [PyFloat F] in
/-- How a read may come out up to its call of the backend: it is counted as a
hit, and the caller returns without computing, or it goes on. -/
theorem outcome_startGet {c : Task F} {r : Reader} (hc : c.started = none)
    (hold : ∀ c, old = some c → c.phase.finishing = false) :
    Outcome s i e old (startGet s c r m) := by
  rcases startGet_cases s c r m with ⟨value, -, -, h⟩ | ⟨-, h⟩ <;> rw [h]
  · exact .hit ⟨value, rfl⟩ hc rfl hold
  · exact .other (by rintro ⟨v, hv⟩; cases hv) le_rfl hold

/-- How a read may come out after its call of the backend. -/
theorem outcome_afterRead {c : Task F} {r : Reader} {raw : Option String}
    (hc : c.started = none) (hr : r ≠ .plain)
    (hold : ∀ c, old = some c → c.phase.finishing = false) :
    Outcome s i e old (afterRead s c r raw m) := by
  rcases afterRead_cases s c r raw m with ⟨-, h⟩ | ⟨text, -, -, h⟩ | ⟨text, value, -, -, h⟩ <;>
    rw [h]
  · exact .other (outcome_miss hr) le_rfl hold
  · exact .other not_returned_error le_rfl hold
  · rcases afterGet_cases c r value m with
      ⟨-, h⟩ | ⟨rfl, -, -⟩ | ⟨rfl, -⟩ | ⟨rfl, -⟩
    · rw [h]
      exact .hit ⟨value, rfl⟩ hc rfl hold
    all_goals exact .other (outcome_miss hr) (Nat.le_succ _) hold

/-- What a turn of a dispatch comes to. -/
theorem outcome_turn (h : Turn s m i e old next)
    (hold : ∀ c, old = some c → Tracked c ∧ c.phase.plain = false)
    (hcall : ∀ key, e ≠ .call (.get key)) : Outcome s i e old next := by
  have hphase_ne (c : Task F) (hc : old = some c) (hfinishing : c.phase.finishing = false) :
      ∀ b, old = some b → b.phase.finishing = false := by
    intro b hb
    rwa [Option.some.inj (hb.symm.trans hc)]
  cases h with
  | call r =>
      cases r with
      | get key => exact absurd rfl (hcall key)
      | getOrCompute key ttl => exact outcome_startGet rfl (by simp)
  | wake hphase =>
      have hc := (hold _ rfl).1.of_phase hphase
      exact outcome_startGet hc (hphase_ne _ rfl (by rw [hphase]; rfl))
  | answerRead hphase =>
      exact .other (by rintro ⟨v, hv⟩; cases hv) le_rfl
        (hphase_ne _ rfl (by rw [hphase]; rfl))
  | afterRead hphase =>
      obtain ⟨hc, hplain⟩ := hold _ rfl
      refine outcome_afterRead (hc.of_phase hphase) ?_ (hphase_ne _ rfl (by rw [hphase]; rfl))
      rintro rfl
      rw [hphase] at hplain
      cases hplain
  | answerLock hphase =>
      exact .other (by rintro ⟨v, hv⟩; cases hv) le_rfl
        (hphase_ne _ rfl (by rw [hphase]; rfl))
  | afterLock hphase =>
      rename_i c granted
      refine .other ?_ le_rfl (hphase_ne _ rfl (by rw [hphase]; rfl))
      cases granted <;> (rintro ⟨v, hv⟩; cases hv)
  | afterCompute outcome hphase =>
      rename_i c locked
      have hne := hphase_ne _ rfl (by rw [hphase]; rfl)
      cases outcome with
      | ok value => exact .other (by rintro ⟨v, hv⟩; cases hv) le_rfl hne
      | error exc =>
          refine .other ?_ le_rfl hne
          cases locked <;> (rintro ⟨v, hv⟩; cases hv)
  | answerWrite hphase =>
      exact .other (by rintro ⟨v, hv⟩; cases hv) le_rfl
        (hphase_ne _ rfl (by rw [hphase]; rfl))
  | afterWrite hphase =>
      rename_i c locked value
      have hc := (hold _ rfl).1.of_phase hphase
      cases locked with
      | false => exact .own c rfl rfl (by rw [hphase]; rfl) ⟨value, rfl⟩ hc rfl
      | true =>
          exact .other (by rintro ⟨v, hv⟩; cases hv) le_rfl
            (hphase_ne _ rfl (by rw [hphase]; rfl))
  | answerRelease hphase =>
      exact .other (by rintro ⟨v, hv⟩; cases hv) le_rfl
        (hphase_ne _ rfl (by rw [hphase]; rfl))
  | afterRelease hphase =>
      rename_i c result
      have hc := (hold _ rfl).1.of_phase hphase
      cases result with
      | ok value => exact .own c rfl rfl (by rw [hphase]; rfl) ⟨value, rfl⟩ hc rfl
      | error exc =>
          exact .other not_returned_error le_rfl (hphase_ne _ rfl (by rw [hphase]; rfl))

omit [PyFloat F] in
/-- A caller that goes on from a read is not one that only reads. -/
theorem plain_afterGet (c : Task F) (r : Reader) (value : Value F) :
    (afterGet c r value m).phase.plain = false := by
  rcases afterGet_cases c r value m with
    ⟨-, h⟩ | ⟨-, -, h⟩ | ⟨-, waits, -, -, h⟩ | ⟨-, waits, -, -, h⟩ <;> rw [h] <;> rfl

omit [PyFloat F] in
/-- A caller that looks the value up first, or again, is not one that only
reads. -/
theorem plain_startGet (c : Task F) {r : Reader} (hr : r ≠ .plain) :
    (startGet s c r m).2.phase.plain = false := by
  rcases startGet_cases s c r m with ⟨value, -, -, h⟩ | ⟨-, h⟩ <;> rw [h]
  · rfl
  · cases r with
    | plain => exact absurd rfl hr
    | _ => rfl

/-- A dispatch does not come to read for `get`. -/
theorem plain_turn (h : Turn s m i e old next)
    (hold : ∀ c, old = some c → c.phase.plain = false) (hcall : ∀ key, e ≠ .call (.get key)) :
    next.2.phase.plain = false := by
  cases h with
  | call r =>
      cases r with
      | get key => exact absurd rfl (hcall key)
      | getOrCompute key ttl => exact plain_startGet _ (by simp)
  | wake hphase => exact plain_startGet _ (by simp)
  | answerRead hphase =>
      rename_i c r
      have hplain := hold _ rfl
      rw [hphase] at hplain
      cases r with
      | plain => cases hplain
      | _ => rfl
  | afterRead hphase =>
      rename_i c r raw
      rcases afterRead_cases s c r raw m with ⟨-, h⟩ | ⟨text, -, -, h⟩ | ⟨text, value, -, -, h⟩ <;>
        rw [h]
      · exact plain_afterGet c r _
      · rfl
      · exact plain_afterGet c r _
  | afterLock hphase =>
      rename_i c granted
      cases granted <;> rfl
  | afterCompute outcome hphase =>
      rename_i c locked
      cases outcome <;> cases locked <;> rfl
  | afterWrite hphase =>
      rename_i c locked value
      cases locked <;> rfl
  | _ => rfl

/-- Nor does any turn take hits away. -/
theorem hits_turn (h : Turn s m i e old next) : s.hits ≤ next.1.hits := by
  have hstart (c : Task F) (r : Reader) : s.hits ≤ (startGet s c r m).1.hits := by
    rcases startGet_cases s c r m with ⟨value, -, -, h⟩ | ⟨-, h⟩ <;> rw [h]
    exact Nat.le_succ _
  cases h with
  | call r => cases r <;> exact hstart _ _
  | wake hphase => exact hstart _ _
  | afterRead hphase =>
      rename_i c r raw
      rcases afterRead_cases s c r raw m with ⟨-, h⟩ | ⟨text, -, -, h⟩ | ⟨text, value, -, -, h⟩ <;>
        rw [h]
      exact Nat.le_succ _
  | afterCompute outcome hphase => cases outcome <;> exact le_rfl
  | _ => exact le_rfl

end Turns

/-! ## Runs -/

namespace Metered

variable [PyFloat F] {s t : Metered F L} {e : (Event F × ℚ) × String}

/-- Each caller has a place for its meter, and a dispatch has read no more
hits than there are now. -/
structure Well (s : Metered F L) : Prop where
  aligned : s.meters.length = s.system.tasks.length
  tracked : Each Tracked s.system.tasks
  dispatch : ∀ (i : ℕ) (c : Task F) (meter : Meter), s.system.tasks[i]? = some c →
    s.meters[i]? = some (some meter) →
    c.phase.plain = false ∧ meter.hitsBefore ≤ s.system.tiers.hits

/-- The counters as they should be, but for the hits that should have been
misses. -/
def Lags (hits misses : String → ℕ) (s : Metered F L) (lag : String → ℕ) : Prop :=
  ∀ tool,
    s.cacheMisses tool + lag tool = misses tool + s.returns.count ⟨tool, true⟩ ∧
    s.cacheHits tool = hits tool + s.returns.count ⟨tool, false⟩ + lag tool

omit [PyFloat F] in
/-- The counters are exact when nothing lags. -/
theorem exact_iff_of_lags {hits misses lag : String → ℕ} (h : Lags hits misses s lag) :
    Exact hits misses s ↔ ∀ tool, lag tool = 0 := by
  constructor
  · intro hexact tool
    have := h tool
    have := hexact tool
    omega
  · intro hzero tool
    have := h tool
    have := hzero tool
    exact ⟨by omega, by omega⟩

omit [PyFloat F] in
/-- A caller that did not return, or is no dispatch, is not counted. -/
theorem leave_of_not {i : ℕ} (h : ∀ c meter, s.system.tasks[i]? = some c →
    s.meters[i]? = some (some meter) → ¬ c.phase.Returned) : s.leave i = s := by
  unfold leave
  split
  next c meter hc hmeter =>
    split
    next v hv => exact absurd ⟨v, hv⟩ (h c meter hc hmeter)
    next => rfl
  next => rfl

omit [PyFloat F] in
/-- A dispatch that returned is counted as a hit if there have been hits
since. -/
theorem leave_of_returned {i : ℕ} {c : Task F} {meter : Meter}
    (hc : s.system.tasks[i]? = some c) (hmeter : s.meters[i]? = some (some meter))
    (hreturned : c.phase.Returned) :
    s.leave i =
      { s.observeCache meter.tool (meter.hitsBefore < s.system.tiers.hits) with
        returns := s.returns ++ [⟨meter.tool, c.started.isSome⟩] } := by
  obtain ⟨v, hv⟩ := hreturned
  simp only [leave, hc, hmeter, hv]

omit [PyFloat F] in
/-- A return that is counted for what it is. -/
theorem Lags.count {hits misses lag : String → ℕ} (h : Lags hits misses s lag) (tool : String)
    (computed : Bool) :
    Lags hits misses { s.observeCache tool !computed with
      returns := s.returns ++ [⟨tool, computed⟩] } lag := by
  intro name
  obtain ⟨hmisses, hhits⟩ := h name
  by_cases hname : tool = name
  · subst hname
    cases computed <;> simp [observeCache] <;> omega
  · have hname' : name ≠ tool := fun heq => hname heq.symm
    cases computed <;> simp [observeCache, hname, Function.update_of_ne hname', hmisses, hhits]

omit [PyFloat F] in
/-- A computation that is counted as a hit. -/
theorem Lags.miscount {hits misses lag : String → ℕ} (h : Lags hits misses s lag)
    (tool : String) :
    Lags hits misses { s.observeCache tool true with returns := s.returns ++ [⟨tool, true⟩] }
      (Function.update lag tool (lag tool + 1)) := by
  intro name
  obtain ⟨hmisses, hhits⟩ := h name
  by_cases hname : tool = name
  · subst hname
    simp [observeCache]
    omega
  · have hname' : name ≠ tool := fun heq => hname heq.symm
    simp [observeCache, hname, Function.update_of_ne hname', hmisses, hhits]

omit [PyFloat F] in
/-- What is counted as a caller leaves does not change the cache. -/
@[simp]
theorem leave_system (s : Metered F L) (i : ℕ) : (s.leave i).system = s.system := by
  unfold leave
  split
  · split
    · unfold observeCache
      split <;> rfl
    · rfl
  · rfl

omit [PyFloat F] in
/-- Neither does it change the meters of the callers under way. -/
@[simp]
theorem leave_meters (s : Metered F L) (i : ℕ) : (s.leave i).meters = s.meters := by
  unfold leave
  split
  · split
    · unfold observeCache
      split <;> rfl
    · rfl
  · rfl

omit [PyFloat F] in
/-- To be well is a matter of the system and the meters. -/
theorem Well.leave (h : Well s) (i : ℕ) : Well (s.leave i) where
  aligned := by simpa using h.aligned
  tracked := by simpa using h.tracked
  dispatch := by simpa using h.dispatch

/-- The part of a step before the counting. -/
def moved (s : Metered F L) (e : (Event F × ℚ) × String) (u : System F L) : Metered F L :=
  { s with system := u, meters := s.meters ++ s.meterOf e.2 e.1.1 }

omit [PyFloat F] in
/-- The counters lag behind by as much as before where nobody has left. -/
theorem Lags.moved {hits misses lag : String → ℕ} (h : Lags hits misses s lag) (u : System F L) :
    Lags hits misses (s.moved e u) lag :=
  h

/-- A step moves one caller, or none. -/
theorem step_cases (h : Step s e t) :
    ∃ u, s.system.Step e.1 u ∧
      ((∃ i old next, s.place e.1.1 = some i ∧ s.system.tasks[i]? = old ∧
          Turn s.system.tiers ⟨s.system.tick, e.1.2⟩ i e.1.1 old next ∧ u.tiers = next.1 ∧
          Replaced s.system.tasks u.tasks i next.2 ∧ t = (s.moved e u).leave i) ∨
        ((∀ i a, e.1.1 ≠ .act i a) ∧ s.meterOf e.2 e.1.1 = [] ∧ u.tasks = s.system.tasks ∧
          u.tiers.hits = s.system.tiers.hits ∧ t = s.moved e u)) := by
  obtain ⟨u, hu, ht⟩ := Option.map_eq_some_iff.mp h
  refine ⟨u, hu, ?_⟩
  obtain ⟨-, -, -, hmoves⟩ := System.step_cases hu
  cases hmoves with
  | task i old next hold hturn htiers htasks hdrops =>
      have hplace : s.place e.1.1 = some i := by
        obtain ⟨⟨e, now⟩, tool⟩ := e
        cases e with
        | call r =>
            have hnew : s.system.tasks[i]? = none := by
              cases hturn
              exact hold
            exact congrArg some (htasks.new hnew).1.symm
        | act j a => exact congrArg some (place_of_turn hturn).symm
        | _ => cases hturn
      rw [hplace] at ht
      exact Or.inl ⟨i, old, next, hplace, hold, hturn, htiers, htasks, ht.symm⟩
  | drop j old next hold hturn htiers hdrops htasks =>
      refine Or.inr ?_
      obtain ⟨⟨e, now⟩, tool⟩ := e
      cases hturn with
      | call d =>
          refine ⟨by simp, rfl, htasks, ?_, ht.symm⟩
          rw [htiers, hits_dropL1]
      | answer hphase =>
          refine ⟨by simp, rfl, htasks, ?_, ht.symm⟩
          rw [htiers, hits_dropL2]
      | finish hphase => exact ⟨by simp, rfl, htasks, by rw [htiers], ht.symm⟩

section Turn

variable {u : System F L} {i : ℕ} {old : Option (Task F)} {next : Tiers F L × Task F}

/-- Which meter is at the place of the caller that moves. -/
theorem meters_moved (hs : Well s) (hold : s.system.tasks[i]? = old)
    (hturn : Turn s.system.tiers ⟨s.system.tick, e.1.2⟩ i e.1.1 old next)
    (htasks : Replaced s.system.tasks u.tasks i next.2) :
    (s.moved e u).meters.length = u.tasks.length ∧
      (∀ j, j ≠ i → (s.moved e u).meters[j]? = s.meters[j]?) ∧
      ((old = none ∧ (s.moved e u).meters[i]? = (s.meterOf e.2 e.1.1)[0]?) ∨
        ∃ c a, old = some c ∧ e.1.1 = .act i a ∧ (s.moved e u).meters = s.meters) := by
  cases old with
  | some c =>
      obtain ⟨a, ha, -⟩ := act_of_turn hturn
      have hmeters : (s.moved e u).meters = s.meters := by simp [moved, meterOf, ha]
      refine ⟨?_, fun j _ => by rw [hmeters], Or.inr ⟨c, a, rfl, ha, hmeters⟩⟩
      rw [hmeters, hs.aligned, htasks.length_eq hold]
  | none =>
      obtain ⟨hi, hlength⟩ := htasks.new hold
      obtain ⟨x, hx⟩ : ∃ x, s.meterOf e.2 e.1.1 = [x] := by
        obtain ⟨⟨e, now⟩, tool⟩ := e
        cases hturn with
        | call r => cases r <;> exact ⟨_, rfl⟩
      have hmeters : (s.moved e u).meters = s.meters ++ [x] := by simp [moved, hx]
      refine ⟨?_, fun j hj => ?_, Or.inl ⟨rfl, ?_⟩⟩
      · rw [hmeters, List.length_append, hs.aligned, hlength]
        rfl
      · rw [hmeters, List.getElem?_append]
        split
        · rfl
        next hge =>
          rw [hi, ← hs.aligned] at hj
          rw [show s.meters[j]? = none from List.getElem?_eq_none (by omega), List.getElem?_eq_none]
          simp
          omega
      · rw [hmeters, hx, hi, ← hs.aligned]
        simp

/-- A dispatch that moves is tracked, and is known to be one. -/
theorem dispatch_of_meter (hs : Well s) (hold : s.system.tasks[i]? = old)
    (hturn : Turn s.system.tiers ⟨s.system.tick, e.1.2⟩ i e.1.1 old next)
    (htasks : Replaced s.system.tasks u.tasks i next.2) {meter : Meter}
    (hmeter : (s.moved e u).meters[i]? = some (some meter)) :
    (∀ c, old = some c → Tracked c ∧ c.phase.plain = false) ∧
      (∀ key, e.1.1 ≠ .call (.get key)) ∧ meter.hitsBefore ≤ s.system.tiers.hits ∧
      ∀ c, old = some c → s.meters[i]? = some (some meter) := by
  obtain ⟨-, -, ⟨rfl, hnew⟩ | ⟨c, a, rfl, ha, hmeters⟩⟩ := meters_moved hs hold hturn htasks
  · rw [hnew] at hmeter
    refine ⟨by simp, fun key hget => ?_, ?_, by simp⟩
    · simp [meterOf, hget] at hmeter
    · obtain ⟨⟨e, now⟩, tool⟩ := e
      cases hturn with
      | call r =>
          cases r with
          | get key => cases hmeter
          | getOrCompute key ttl =>
              obtain rfl : ⟨tool, s.system.tiers.hits⟩ = meter :=
                Option.some.inj (Option.some.inj hmeter)
              exact le_rfl
  · rw [hmeters] at hmeter
    obtain ⟨hplain, hle⟩ := hs.dispatch i c meter hold hmeter
    refine ⟨?_, by simp [ha], hle, fun _ _ => hmeter⟩
    rintro _ ⟨⟩
    exact ⟨hs.tracked i c hold, hplain⟩

theorem well_moved (hs : Well s) (hold : s.system.tasks[i]? = old)
    (hturn : Turn s.system.tiers ⟨s.system.tick, e.1.2⟩ i e.1.1 old next)
    (htiers : u.tiers = next.1) (htasks : Replaced s.system.tasks u.tasks i next.2) :
    Well (s.moved e u) := by
  obtain ⟨hlength, hothers, -⟩ := meters_moved hs hold hturn htasks
  have hhits : s.system.tiers.hits ≤ u.tiers.hits := htiers ▸ hits_turn hturn
  refine ⟨hlength, ?_, fun j c meter hc hmeter => ?_⟩
  · refine htasks.each hs.tracked (fun _ _ _ _ hu => hu) (tracked_turn hturn fun c hc => ?_)
    exact hs.tracked i c (hold.trans hc)
  · by_cases hj : j = i
    · subst hj
      obtain ⟨hdispatch, hcall, hle, -⟩ := dispatch_of_meter hs hold hturn htasks hmeter
      obtain rfl : next.2 = c := Option.some.inj (htasks.1.symm.trans hc)
      exact ⟨plain_turn hturn (fun b hb => (hdispatch b hb).2) hcall, hle.trans hhits⟩
    · rw [hothers j hj] at hmeter
      obtain ⟨hplain, hle⟩ := hs.dispatch j c meter ((htasks.2 j hj).symm.trans hc) hmeter
      exact ⟨hplain, hle.trans hhits⟩

/-- What one move does to the counters: they stay as exact as they are, unless
a dispatch returns what it computed after a hit was counted. -/
theorem lags_moved (hs : Well s) (hold : s.system.tasks[i]? = old)
    (hturn : Turn s.system.tiers ⟨s.system.tick, e.1.2⟩ i e.1.1 old next)
    (htiers : u.tiers = next.1) (htasks : Replaced s.system.tasks u.tasks i next.2)
    {hits misses lag : String → ℕ} (hlags : Lags hits misses s lag) :
    (Undisturbed s e t ∧ Lags hits misses ((s.moved e u).leave i) lag) ∨
      (¬ Undisturbed s e t ∧ ∃ tool, Lags hits misses ((s.moved e u).leave i)
        (Function.update lag tool (lag tool + 1))) := by
  by_cases hdispatch : ∃ meter, (s.moved e u).meters[i]? = some (some meter)
  · obtain ⟨meter, hmeter⟩ := hdispatch
    obtain ⟨htracked, hcall, hle, hmeters⟩ := dispatch_of_meter hs hold hturn htasks hmeter
    -- unless the caller was about to return, no one is disturbed
    have hquiet (h : ∀ c, old = some c → c.phase.finishing = false) : Undisturbed s e t := by
      intro j c meter' hact hc hfinishing
      obtain rfl : i = j := by
        rw [hact] at hturn
        exact place_of_turn hturn
      rw [h c (hold.symm.trans hc)] at hfinishing
      cases hfinishing
    have hleave (hreturned : next.2.phase.Returned) := leave_of_returned (s := s.moved e u)
      htasks.1 hmeter hreturned
    rcases outcome_turn hturn htracked hcall with
      ⟨hphase, hstarted, hhits, hnot⟩ | ⟨c, rfl, hact, hfinishing, hphase, hstarted, hhits⟩ |
      ⟨hphase, -, hnot⟩
    · have hhit : meter.hitsBefore < u.tiers.hits := by rw [htiers, hhits]; omega
      refine Or.inl ⟨hquiet hnot, ?_⟩
      rw [hleave hphase, hstarted]
      simpa [moved, hhit] using (hlags.moved u).count meter.tool false
    · have hsame : u.tiers.hits = s.system.tiers.hits := by rw [htiers, hhits]
      by_cases hclean : s.system.tiers.hits = meter.hitsBefore
      · have hmiss : ¬ meter.hitsBefore < u.tiers.hits := by omega
        refine Or.inl ⟨?_, ?_⟩
        · intro j b meter' hact' _ _ hmeter'
          obtain rfl : i = j := by simpa [hact] using hact'
          rw [hmeters c rfl] at hmeter'
          rw [← Option.some.inj (Option.some.inj hmeter'), hclean]
        · rw [hleave hphase, hstarted]
          simpa [moved, hmiss] using (hlags.moved u).count meter.tool true
      · have hhit : meter.hitsBefore < u.tiers.hits := by omega
        refine Or.inr ⟨fun h => hclean (h i c meter hact hold hfinishing (hmeters c rfl)),
          meter.tool, ?_⟩
        rw [hleave hphase, hstarted]
        simpa [moved, hhit] using (hlags.moved u).miscount meter.tool
    · refine Or.inl ⟨hquiet hnot, ?_⟩
      rw [leave_of_not]
      · exact hlags
      · intro c meter' hc _
        rwa [← Option.some.inj (htasks.1.symm.trans hc)]
  · refine Or.inl ⟨?_, ?_⟩
    · intro j c meter hact hc _ hmeter
      obtain rfl : i = j := by
        rw [hact] at hturn
        exact place_of_turn hturn
      obtain ⟨-, -, ⟨rfl, -⟩ | ⟨b, a, -, -, hmeters⟩⟩ := meters_moved hs hold hturn htasks
      · cases hc.symm.trans hold
      · exact absurd ⟨meter, by rwa [hmeters]⟩ hdispatch
    · rw [leave_of_not fun c meter _ hmeter => absurd ⟨meter, hmeter⟩ hdispatch]
      exact hlags

end Turn

/-- **What one step does to the counters.** -/
theorem step_lags (hs : Well s) (h : Step s e t) {hits misses lag : String → ℕ}
    (hlags : Lags hits misses s lag) :
    Well t ∧ ((Undisturbed s e t ∧ Lags hits misses t lag) ∨
      (¬ Undisturbed s e t ∧ ∃ tool, Lags hits misses t
        (Function.update lag tool (lag tool + 1)))) := by
  obtain ⟨u, hu, ⟨i, old, next, hplace, hold, hturn, htiers, htasks, rfl⟩ |
    ⟨hact, hmeters, htasks, hhits, rfl⟩⟩ := step_cases h
  · exact ⟨(well_moved hs hold hturn htiers htasks).leave i,
      lags_moved hs hold hturn htiers htasks hlags⟩
  · have hsame : (s.moved e u).meters = s.meters := by simp [moved, hmeters]
    refine ⟨⟨?_, ?_, ?_⟩, Or.inl ⟨fun i c meter he => absurd he (hact i _), hlags⟩⟩
    · rw [hsame, moved, htasks]
      exact hs.aligned
    · rw [moved, htasks]
      exact hs.tracked
    · rw [hsame, moved, htasks, hhits]
      exact hs.dispatch

variable {events : List ((Event F × ℚ) × String)} {tiers : Tiers F L} {clock : ℚ}
  {hits misses : String → ℕ}

omit [PyFloat F] in
theorem well_ofTiers : Well (ofTiers tiers clock hits misses) :=
  ⟨rfl, each_nil, fun _ _ _ hc => by simp [ofTiers, System.ofTiers] at hc⟩

omit [PyFloat F] in
theorem lags_ofTiers : Lags hits misses (ofTiers tiers clock hits misses) fun _ => 0 :=
  fun _ => ⟨rfl, rfl⟩

/-- Undisturbed steps keep the counters exact. -/
theorem exact_of_undisturbed
    (h : Run (Guarded Step Undisturbed) (ofTiers tiers clock hits misses) events t) :
    Well t ∧ Lags hits misses t fun _ => 0 := by
  apply h.invariant (I := fun s => Well s ∧ Lags hits misses s fun _ => 0)
    ⟨well_ofTiers, lags_ofTiers⟩
  rintro s e t ⟨hs, hlags⟩ ⟨hstep, hundisturbed⟩
  obtain ⟨ht, ⟨-, hnext⟩ | ⟨hnot, -⟩⟩ := step_lags hs hstep hlags
  · exact ⟨ht, hnext⟩
  · exact absurd hundisturbed hnot

/-- What lags behind once never catches up. -/
theorem undisturbed_of_exact (h : Run Step (ofTiers tiers clock hits misses) events t) :
    Well t ∧ ∃ lag, Lags hits misses t lag ∧ ((∀ tool, lag tool = 0) →
      Run (Guarded Step Undisturbed) (ofTiers tiers clock hits misses) events t) := by
  induction h with
  | nil => exact ⟨well_ofTiers, _, lags_ofTiers, fun _ => .nil⟩
  | snoc hrun hlast ih =>
      obtain ⟨hs, lag, hlags, hguarded⟩ := ih
      obtain ⟨ht, ⟨hundisturbed, hnext⟩ | ⟨-, tool, hnext⟩⟩ := step_lags hs hlast hlags
      · exact ⟨ht, lag, hnext, fun hzero => (hguarded hzero).snoc ⟨hlast, hundisturbed⟩⟩
      · refine ⟨ht, _, hnext, fun hzero => ?_⟩
        have htool := hzero tool
        simp at htool

/-- **When the counters are right.**  In every run of callers of a cache, from
any state of the cache and the counters, the counters have grown by the
dispatches that returned, each counted for what it was, if and only if no
dispatch returned what it computed after a hit was counted since it called. -/
theorem counted_iff (h : Run Step (ofTiers tiers clock hits misses) events t) :
    Exact hits misses t ↔
      Run (Guarded Step Undisturbed) (ofTiers tiers clock hits misses) events t := by
  constructor
  · intro hexact
    obtain ⟨-, lag, hlags, hguarded⟩ := undisturbed_of_exact h
    exact hguarded ((exact_iff_of_lags hlags).mp hexact)
  · intro hguarded
    exact (exact_iff_of_lags (exact_of_undisturbed hguarded).2).mpr fun _ => rfl

end Metered

/-! ## A computation beside a hit -/

/-- L1 holds a value under "w". -/
def warmTiers : Tiers WholeFloat InMemoryL2.backend :=
  { newTiers with l1 := newTiers.l1.set "w" (.int 1) 60 0 }

/-- The caller has ended. -/
def Phase.isEnded : Phase F → Bool
  | .ended _ => true
  | _ => false

/-- While a query is computed, a search is answered from L1. -/
def hitBeside : List ((Event WholeFloat × ℚ) × String) :=
  ((.call (.getOrCompute "k" none), 0), "postgres.query") ::
    (asksForLock 0 0).map (·, "") ++
    [((.call (.getOrCompute "w" none), 1), "semantic_search"),
      ((.act 0 (.computed (.ok (.int 7))), 2), ""), ((.act 0 .answered, 2), ""),
      ((.act 0 .resumed, 2), ""), ((.act 0 .answered, 2), ""), ((.act 0 .resumed, 2), "")]

/-- Both end; the query is counted as a hit. -/
theorem exists_hitBeside : ∃ t,
    Run Metered.Step (.ofTiers warmTiers 0 (fun _ => 0) fun _ => 0) hitBeside t ∧
      t.system.tasks.map (fun c => c.phase.isEnded) = [true, true] ∧
      t.returns = [⟨"semantic_search", false⟩, ⟨"postgres.query", true⟩] ∧
      t.cacheHits "postgres.query" = 1 ∧ t.cacheMisses "postgres.query" = 0 := by
  obtain ⟨t, ht, hends⟩ : ∃ t ∈ exec Metered.step
      (.ofTiers warmTiers 0 (fun _ => 0) fun _ => 0) hitBeside,
      t.system.tasks.map (fun c => c.phase.isEnded) = [true, true] ∧
      t.returns = [⟨"semantic_search", false⟩, ⟨"postgres.query", true⟩] ∧
      t.cacheHits "postgres.query" = 1 ∧ t.cacheMisses "postgres.query" = 0 := by
    decide +kernel
  exact ⟨t, Run.of_exec ht, hends⟩

/-- Such a run is not one of undisturbed returns. -/
theorem hitBeside_disturbed : ∃ t,
    Run Metered.Step (.ofTiers warmTiers 0 (fun _ => 0) fun _ => 0) hitBeside t ∧
      ¬ Run (Guarded Metered.Step Metered.Undisturbed)
        (.ofTiers warmTiers 0 (fun _ => 0) fun _ => 0) hitBeside t := by
  obtain ⟨t, hrun, -, hreturns, hhits, -⟩ := exists_hitBeside
  refine ⟨t, hrun, fun hguarded => ?_⟩
  have hexact := ((Metered.counted_iff hrun).mpr hguarded "postgres.query").2
  rw [hhits, hreturns] at hexact
  exact absurd hexact (by decide)

/-- When both have ended, the hits of the query have grown by one and its
misses by none. -/
theorem hitBeside_miscounted : ∃ t,
    Run Metered.Step (.ofTiers warmTiers 0 (fun _ => 0) fun _ => 0) hitBeside t ∧
      (∀ c ∈ t.system.tasks, c.phase.isEnded = true) ∧
      ¬ Metered.Exact (fun _ => 0) (fun _ => 0) t := by
  obtain ⟨t, hrun, hended, hreturns, hhits, -⟩ := exists_hitBeside
  refine ⟨t, hrun, fun c hc => ?_, fun hexact => ?_⟩
  · have hmem : c.phase.isEnded ∈ t.system.tasks.map fun c => c.phase.isEnded :=
      List.mem_map_of_mem hc
    rw [hended] at hmem
    simpa using hmem
  · have hquery := (hexact "postgres.query").2
    rw [hhits, hreturns] at hquery
    exact absurd hquery (by decide)

end SharedCache
