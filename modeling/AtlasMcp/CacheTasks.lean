import AtlasMcp.GuardedRuns
import AtlasMcp.L2Backends
import AtlasMcp.TaskTurns

/-!
# Callers of a cache manager

`CacheManager.get` and `get_or_compute` suspend at every call of the backend, while the
value is computed and while they sleep; in between they run to the next of these without
letting others in.  A `Task` is such a caller and its `Phase` is where it is suspended.
A call of the backend has its effect at some moment (`answered`), and the caller goes on
at a later one (`resumed`): others may move before, between and after.

An invalidation empties L1 as it is called, and L2 when the backend answers.

A `System` is a manager with its callers and invalidations.  Its events happen at times
that do not decrease; `step_cases` says once what an event does.
-/

namespace SharedCache

open PyJson PyText Errors Cache GuardedRuns TaskTurns

variable {F : Type} {L : L2Backend}

/-- A request for a value: to read it, or to compute it where there is
none. -/
inductive Request
  | get (key : String)
  | getOrCompute (key : String) (ttl : Option ℤ)

/-- The four ways to invalidate: one key, under two names, or all keys of a tool
of a tenant, or of a tenant. -/
inductive Invalidation
  | delete (key : String)
  | invalidateKey (key : String)
  | invalidateTool (tenant tool : String)
  | invalidateTenant (tenant : String)

/-- What an invalidation drops: a key, or all keys with a common beginning. -/
inductive Target
  | one (key : String)
  | under (pre : String)

/-- Which entries an invalidation is about: those of one key, or all those
under a prefix. -/
def Invalidation.target : Invalidation → Target
  | .delete key | .invalidateKey key => .one key
  | .invalidateTool tenant tool => .under ("atlas:" ++ tenant ++ ":" ++ tool ++ ":")
  | .invalidateTenant tenant => .under ("atlas:" ++ tenant ++ ":")

/-- The key is one of those to be removed. -/
def Target.covers : Target → String → Bool
  | .one k, key => key = k
  | .under pre, key => startsWith key pre

/-- When something happens: the number of the event and the time.  Of two events
at one time, the numbers say which one came first. -/
structure Moment where
  tick : ℕ
  now : ℚ

/-- The reads of the cache: that of `get`, the first one of `get_or_compute`,
and its others, each after a number of waits before the last one. -/
inductive Reader
  | plain
  | first
  | again (waits : ℕ)

/-- Where a caller is suspended.  It waits for the backend to read, lock,
write or release, or to go on after that; it computes, or sleeps.  `locked`
says whether it is in the section that ends with the release. -/
inductive Phase (F : Type)
  | reading (r : Reader)
  | wasRead (r : Reader) (raw : Option String)
  | locking
  | wasLocked (granted : Bool)
  | computing (locked : Bool)
  | writing (locked : Bool) (value : Value F)
  | wasWritten (locked : Bool) (value : Value F)
  | releasing (result : Except (Exc F) (Value F))
  | wasReleased (result : Except (Exc F) (Value F))
  | sleeping (waits : ℕ) (since : ℚ)
  | ended (result : Except (Exc F) (Value F))

/-- A caller.  The code does not keep the rest: the event of its call and of
its last read of L2, the event at which the computation of the value it has in
hand started, the start and the outcome of its own computation, and when the
lock it has taken and not released lapses. -/
structure Task (F : Type) where
  key : String
  ttl : Option ℤ
  phase : Phase F
  calledAt : ℕ
  readAt : ℕ := 0
  source : ℕ := 0
  started : Option Moment := none
  outcome : Option (Except (Exc F) (Value F)) := none
  lock : Option ℚ := none

/-- Where an invalidation is suspended: it has emptied L1 and waits for L2 to
be emptied, or to go on after that; or it has returned, with the number of the
entries that were deleted. -/
inductive DropPhase
  | dropping
  | wasDropped (deleted : Option ℕ)
  | returned (deleted : Option ℕ) (tick : ℕ)
  deriving DecidableEq

/-- An invalidation.  The code does not keep the events of its call, of the
answer of the backend, with which L2 has no key of it, and of its return. -/
structure Drop where
  target : Target
  phase : DropPhase
  calledAt : ℕ
  emptiedAt : Option ℕ := none

/-- A text written to L2, when it expires, and the event of the write.  Only the
last one of a key is kept. -/
structure Written where
  raw : String
  expiresAt : ℚ
  tick : ℕ

/-- A cache manager.  The rest is a record the code does not keep: the events
at which the computations of the values in the tiers started, and the last
text written to L2 under a key and not dropped since. -/
structure Tiers (F : Type) (L : L2Backend) where
  settings : ServerSettings
  l1 : L1Cache F
  l2 : L.State
  hits : ℕ
  misses : ℕ
  l1Source : String → ℕ := fun _ => 0
  l2Source : String → ℕ := fun _ => 0
  written : String → Option Written := fun _ => none

/-- `CacheManager(settings, l2)`. -/
def Tiers.start (settings : ServerSettings) (l2 : L.State) : Tiers F L where
  settings
  l1 := { maxItems := settings.cacheL1MaxItems }
  l2
  hits := 0
  misses := 0

/-- `ttl or self.settings.cache_l2_ttl_seconds`. -/
def Tiers.ttlL2 (s : Tiers F L) : Option ℤ → ℤ
  | some ttl => if ttl ≠ 0 then ttl else s.settings.cacheL2TtlSeconds
  | none => s.settings.cacheL2TtlSeconds

section Pieces

variable [PyFloat F]

/-- What a caller does with the value a read returned. -/
def afterGet (c : Task F) (r : Reader) (value : Value F) (m : Moment) : Task F :=
  match r, value with
  | .first, .none => { c with phase := .locking }
  | .again waits, .none =>
      if waits + 1 < CacheManager.stampedeMaxWaits then
        { c with phase := .sleeping (waits + 1) m.now }
      else { c with phase := .computing false, started := some m }
  | _, value => { c with phase := .ended (.ok value) }

/-- `get` up to its call of the backend. -/
def startGet (s : Tiers F L) (c : Task F) (r : Reader) (m : Moment) : Tiers F L × Task F :=
  let (hit, l1) := s.l1.get c.key m.now
  match hit with
  | .none => ({ s with l1 }, { c with phase := .reading r })
  | hit => ({ s with l1, hits := s.hits + 1 },
      afterGet { c with source := s.l1Source c.key } r hit m)

/-- L2 answers a reader.  What it has found is promoted only when the reader
goes on. -/
def answerRead (s : Tiers F L) (c : Task F) (r : Reader) (m : Moment) :
    Tiers F L × Task F :=
  let (raw, l2) := L.get s.l2 c.key m.now
  ({ s with l2 },
    { c with phase := .wasRead r raw, readAt := m.tick, source := s.l2Source c.key })

/-- `get` after its call of the backend. -/
def afterRead (s : Tiers F L) (c : Task F) (r : Reader) (raw : Option String)
    (m : Moment) : Tiers F L × Task F :=
  match raw with
  | none => ({ s with misses := s.misses + 1 }, afterGet c r .none m)
  | some raw =>
      match loads raw with
      | none => (s, { c with phase := .ended (.error (.other "JSONDecodeError")) })
      | some value =>
          ({ s with
              l1 := s.l1.set c.key value s.settings.cacheL1TtlSeconds m.now
              hits := s.hits + 1
              l1Source := Function.update s.l1Source c.key c.source },
            afterGet c r value m)

/-- The key of the lock of a computation. -/
def lockKey (key : String) : String := key ++ ":lock"

/-- L2 answers whether the lock was granted, and it was if nobody else has
it. -/
def answerLock (s : Tiers F L) (c : Task F) (m : Moment) : Tiers F L × Task F :=
  let (granted, l2) :=
    L.acquireLock s.l2 (lockKey c.key) CacheManager.stampedeLockTtlMs m.now
  ({ s with l2 },
    { c with
      phase := .wasLocked granted
      lock := if granted then some (m.now + CacheManager.stampedeLockTtlMs / 1000)
        else c.lock })

/-- Whoever was granted the lock computes; the others sleep before they look
again. -/
def afterLock (c : Task F) (granted : Bool) (m : Moment) : Task F :=
  if granted then { c with phase := .computing true, started := some m }
  else { c with phase := .sleeping 0 m.now }

/-- To leave the locked section is to release the lock first. -/
def leave (c : Task F) (locked : Bool) (result : Except (Exc F) (Value F)) : Task F :=
  { c with phase := if locked then .releasing result else .ended result }

/-- `compute` ended: `set` up to its call of the backend. -/
def afterCompute (s : Tiers F L) (c : Task F) (locked : Bool)
    (outcome : Except (Exc F) (Value F)) (m : Moment) : Tiers F L × Task F :=
  let c := { c with outcome := some outcome }
  match outcome with
  | .error exc => (s, leave c locked (.error exc))
  | .ok value =>
      let ttlL1 := min (s.ttlL2 c.ttl) s.settings.cacheL1TtlSeconds
      let source := c.started.elim 0 Moment.tick
      ({ s with
          l1 := s.l1.set c.key value ttlL1 m.now
          l1Source := Function.update s.l1Source c.key source },
        { c with phase := .writing locked value, source })

/-- L2 is written.  L1 has had the value since it was computed. -/
def answerWrite (s : Tiers F L) (c : Task F) (locked : Bool) (value : Value F)
    (m : Moment) : Tiers F L × Task F :=
  let ttlL2 := s.ttlL2 c.ttl
  ({ s with
      l2 := L.set s.l2 c.key (dumps value) ttlL2 m.now
      l2Source := Function.update s.l2Source c.key c.source
      written := Function.update s.written c.key
        (some ⟨dumps value, m.now + ttlL2, m.tick⟩) },
    { c with phase := .wasWritten locked value })

/-- L2 releases the lock, whoever holds it by now. -/
def answerRelease (s : Tiers F L) (c : Task F) (result : Except (Exc F) (Value F)) :
    Tiers F L × Task F :=
  ({ s with l2 := L.releaseLock s.l2 (lockKey c.key) },
    { c with phase := .wasReleased result, lock := none })

/-- A call up to its first suspension. -/
def begin (s : Tiers F L) (m : Moment) : Request → Tiers F L × Task F
  | .get key =>
      startGet s { key, ttl := none, phase := .reading .plain, calledAt := m.tick } .plain m
  | .getOrCompute key ttl =>
      startGet s { key, ttl, phase := .reading .first, calledAt := m.tick } .first m

omit [PyFloat F] in
/-- A value ends the call; on a miss `get` returns `None`, and
`get_or_compute` goes on to lock, to sleep, or to compute. -/
theorem afterGet_cases (c : Task F) (r : Reader) (value : Value F) (m : Moment) :
    ((value = .none → r = .plain) ∧
      afterGet c r value m = { c with phase := .ended (.ok value) }) ∨
    (value = .none ∧ r = .first ∧ afterGet c r value m = { c with phase := .locking }) ∨
    (value = .none ∧ ∃ waits, r = .again waits ∧ waits + 1 < CacheManager.stampedeMaxWaits ∧
      afterGet c r value m = { c with phase := .sleeping (waits + 1) m.now }) ∨
    (value = .none ∧ ∃ waits, r = .again waits ∧ CacheManager.stampedeMaxWaits ≤ waits + 1 ∧
      afterGet c r value m = { c with phase := .computing false, started := some m }) := by
  by_cases hvalue : value = .none
  · subst hvalue
    cases r with
    | plain => exact Or.inl ⟨fun _ => rfl, rfl⟩
    | first => exact Or.inr (Or.inl ⟨rfl, rfl, rfl⟩)
    | again waits =>
        by_cases hlast : waits + 1 < CacheManager.stampedeMaxWaits
        · exact Or.inr (Or.inr (Or.inl ⟨rfl, waits, rfl, hlast, if_pos hlast⟩))
        · exact Or.inr (Or.inr (Or.inr ⟨rfl, waits, rfl, not_lt.mp hlast, if_neg hlast⟩))
  · refine Or.inl ⟨fun h => absurd h hvalue, ?_⟩
    cases r <;> cases value <;> first | rfl | exact absurd rfl hvalue

omit [PyFloat F] in
/-- A caller goes on with what it is, but for its phase and the start of its
computation. -/
theorem afterGet_frame (c : Task F) (r : Reader) (value : Value F) (m : Moment) :
    ∃ phase started, afterGet c r value m = { c with phase, started } := by
  rcases afterGet_cases c r value m with
    ⟨-, h⟩ | ⟨-, -, h⟩ | ⟨-, waits, -, -, h⟩ | ⟨-, waits, -, -, h⟩ <;>
  exact ⟨_, _, h⟩

omit [PyFloat F] in
/-- A hit in L1 ends the call; on a miss the caller turns to L2. -/
theorem startGet_cases (s : Tiers F L) (c : Task F) (r : Reader) (m : Moment) :
    (∃ value, value ≠ .none ∧ (s.l1.get c.key m.now).1 = value ∧
      startGet s c r m =
        ({ s with l1 := (s.l1.get c.key m.now).2, hits := s.hits + 1 },
          { c with source := s.l1Source c.key, phase := .ended (.ok value) })) ∨
    ((s.l1.get c.key m.now).1 = .none ∧
      startGet s c r m =
        ({ s with l1 := (s.l1.get c.key m.now).2 }, { c with phase := .reading r })) := by
  by_cases hmiss : (s.l1.get c.key m.now).1 = .none
  · exact Or.inr ⟨hmiss, by simp only [startGet, hmiss]⟩
  · refine Or.inl ⟨_, hmiss, rfl, ?_⟩
    have hend : afterGet { c with source := s.l1Source c.key } r
        (s.l1.get c.key m.now).1 m =
        { c with
          source := s.l1Source c.key
          phase := .ended (.ok (s.l1.get c.key m.now).1) } := by
      rcases afterGet_cases { c with source := s.l1Source c.key } r
        (s.l1.get c.key m.now).1 m with ⟨-, h⟩ | ⟨h, -⟩ | ⟨h, -⟩ | ⟨h, -⟩
      · exact h
      · exact absurd h hmiss
      · exact absurd h hmiss
      · exact absurd h hmiss
    rw [← hend]
    simp only [startGet]

/-- A text that L2 returned is promoted; without one, or if it cannot be read,
nothing is written. -/
theorem afterRead_cases (s : Tiers F L) (c : Task F) (r : Reader) (raw : Option String)
    (m : Moment) :
    (raw = none ∧ afterRead s c r raw m =
      ({ s with misses := s.misses + 1 }, afterGet c r .none m)) ∨
    (∃ text, raw = some text ∧ loads (F := F) text = none ∧ afterRead s c r raw m =
      (s, { c with phase := .ended (.error (.other "JSONDecodeError")) })) ∨
    (∃ text value, raw = some text ∧ loads text = some value ∧ afterRead s c r raw m =
      ({ s with
          l1 := s.l1.set c.key value s.settings.cacheL1TtlSeconds m.now
          hits := s.hits + 1
          l1Source := Function.update s.l1Source c.key c.source },
        afterGet c r value m)) := by
  cases raw with
  | none => exact Or.inl ⟨rfl, rfl⟩
  | some text =>
      cases hloads : loads (F := F) text with
      | none => exact Or.inr (Or.inl ⟨text, rfl, hloads, by simp only [afterRead, hloads]⟩)
      | some value =>
          exact Or.inr (Or.inr ⟨text, value, rfl, hloads, by simp only [afterRead, hloads]⟩)

/-- What a suspended caller waits for. -/
inductive Action (F : Type)
  | answered
  | resumed
  | computed (outcome : Except (Exc F) (Value F))

/-- What a suspended caller does next, if it is what it waits for. -/
def act (s : Tiers F L) (c : Task F) (m : Moment) : Action F → Option (Tiers F L × Task F)
  | .answered =>
      match c.phase with
      | .reading r => some (answerRead s c r m)
      | .locking => some (answerLock s c m)
      | .writing locked value => some (answerWrite s c locked value m)
      | .releasing result => some (answerRelease s c result)
      | _ => none
  | .resumed =>
      match c.phase with
      | .wasRead r raw => some (afterRead s c r raw m)
      | .wasLocked granted => some (s, afterLock c granted m)
      | .wasWritten locked value => some (s, leave c locked (.ok value))
      | .wasReleased result => some (s, { c with phase := .ended result })
      | .sleeping waits _ => some (startGet s c (.again waits) m)
      | _ => none
  | .computed outcome =>
      match c.phase with
      | .computing locked => some (afterCompute s c locked outcome m)
      | _ => none

/-- The L1 part of an invalidation. -/
def Tiers.dropL1 (s : Tiers F L) : Target → Tiers F L
  | .one key => { s with l1 := s.l1.delete key }
  | .under pre => { s with l1 := (s.l1.deletePrefix pre).2 }

/-- The L2 part, with what it returns. -/
def Tiers.dropL2 (s : Tiers F L) (t : Target) : Option ℕ × Tiers F L :=
  let written key := if t.covers key then none else s.written key
  match t with
  | .one key => (none, { s with l2 := L.delete s.l2 key, written })
  | .under pre =>
      let (deleted, l2) := L.deletePrefix s.l2 pre
      (some deleted, { s with l2, written })

end Pieces

section Frame

variable (s : Tiers F L) (t : Target)

/-- Emptying a tier leaves the other one, and all that is on record of both,
apart from the texts in L2. -/
@[simp]
theorem l2_dropL1 : (s.dropL1 t).l2 = s.l2 := by
  cases t <;> rfl

@[simp]
theorem l1Source_dropL1 : (s.dropL1 t).l1Source = s.l1Source := by
  cases t <;> rfl

@[simp]
theorem l2Source_dropL1 : (s.dropL1 t).l2Source = s.l2Source := by
  cases t <;> rfl

@[simp]
theorem written_dropL1 : (s.dropL1 t).written = s.written := by
  cases t <;> rfl

/-- No call is a hit because of an invalidation. -/
@[simp]
theorem hits_dropL1 : (s.dropL1 t).hits = s.hits := by
  cases t <;> rfl

@[simp]
theorem l1_dropL2 : (s.dropL2 t).2.l1 = s.l1 := by
  cases t <;> rfl

@[simp]
theorem l1Source_dropL2 : (s.dropL2 t).2.l1Source = s.l1Source := by
  cases t <;> rfl

@[simp]
theorem l2Source_dropL2 : (s.dropL2 t).2.l2Source = s.l2Source := by
  cases t <;> rfl

@[simp]
theorem hits_dropL2 : (s.dropL2 t).2.hits = s.hits := by
  cases t <;> rfl

end Frame

/-- L1 after an invalidation has none of its keys, and no new entry. -/
theorem lookup_dropL1 {s : Tiers F L} {t : Target} {key : String} {entry : L1Entry F}
    (h : (s.dropL1 t).l1.store.lookup key = some entry) :
    t.covers key = false ∧ s.l1.store.lookup key = some entry := by
  cases t with
  | one k =>
      by_cases hkey : key = k
      · subst hkey
        simp [Tiers.dropL1, L1Cache.delete] at h
      · simpa [Tiers.dropL1, L1Cache.delete, Target.covers, hkey,
          AList.lookup_erase_ne hkey] using h
  | under pre =>
      have hlookup := StoreRecords.lookup_eraseAll s.l1.store (s.l1.matched pre) key
      simp only [Tiers.dropL1, L1Cache.deletePrefix] at h
      rw [hlookup] at h
      split at h
      next => cases h
      next hnot =>
          refine ⟨?_, h⟩
          have hmem : key ∈ s.l1.store.keys := AList.lookup_isSome.mp (by simp [h])
          by_contra hpre
          exact hnot (List.mem_filter.mpr ⟨hmem, by simpa [Target.covers] using hpre⟩)

/-- L2 after an invalidation has none of its keys, and all others as
before. -/
theorem text_dropL2 (s : Tiers F L) (t : Target) (key : String) (now : ℚ) :
    L.text (s.dropL2 t).2.l2 key now = if t.covers key then none else L.text s.l2 key now := by
  cases t with
  | one k =>
      by_cases hkey : key = k
      · subst hkey
        simpa [Tiers.dropL2, Target.covers] using L.text_delete
      · simpa [Tiers.dropL2, Target.covers, hkey] using L.text_delete_ne hkey
  | under pre =>
      cases hpre : startsWith key pre with
      | true => simpa [Tiers.dropL2, Target.covers, hpre] using L.text_deletePrefix hpre
      | false => simpa [Tiers.dropL2, Target.covers, hpre] using L.text_deletePrefix_ne hpre

/-- An invalidation drops the texts that it covers from L2, and no others. -/
theorem written_dropL2 (s : Tiers F L) (t : Target) (key : String) :
    (s.dropL2 t).2.written key = if t.covers key then none else s.written key := by
  cases t <;> rfl

theorem locked_dropL2 (s : Tiers F L) (t : Target) (lockKey : String) (now : ℚ) :
    L.Locked (s.dropL2 t).2.l2 lockKey now ↔ L.Locked s.l2 lockKey now := by
  cases t with
  | one key => exact L.locked_delete
  | under pre => exact L.locked_deletePrefix

/-- What happens next: a call; the backend answers caller `i`, the caller goes
on, or its computation ends; an invalidation is called; the backend answers
invalidation `j`, or it returns. -/
inductive Event (F : Type)
  | call (r : Request)
  | act (i : ℕ) (a : Action F)
  | invalidate (d : Invalidation)
  | dropAnswered (j : ℕ)
  | dropReturned (j : ℕ)

/-- A cache manager with its callers and invalidations, and the number and the
time of the last event. -/
structure System (F : Type) (L : L2Backend) where
  tiers : Tiers F L
  tasks : List (Task F) := []
  drops : List Drop := []
  clock : ℚ
  tick : ℕ := 1

namespace System

variable [PyFloat F]

/-- The system after an event at a time. -/
def after (s : System F L) (now : ℚ) : Event F → Option (System F L)
  | .call r =>
      let (tiers, c) := begin s.tiers ⟨s.tick, now⟩ r
      some { s with tiers, tasks := s.tasks ++ [c] }
  | .act i a => do
      let c ← s.tasks[i]?
      let (tiers, c') ← act s.tiers c ⟨s.tick, now⟩ a
      return { s with tiers, tasks := s.tasks.set i c' }
  | .invalidate d => some
      { s with
        tiers := s.tiers.dropL1 d.target
        drops := s.drops ++ [{ target := d.target, phase := .dropping, calledAt := s.tick }] }
  | .dropAnswered j =>
      match s.drops[j]? with
      | some ⟨target, .dropping, calledAt, _⟩ =>
          let (deleted, tiers) := s.tiers.dropL2 target
          some { s with
            tiers
            drops := s.drops.set j ⟨target, .wasDropped deleted, calledAt, some s.tick⟩ }
      | _ => none
  | .dropReturned j =>
      match s.drops[j]? with
      | some ⟨target, .wasDropped deleted, calledAt, emptiedAt⟩ =>
          some { s with
            drops := s.drops.set j ⟨target, .returned deleted s.tick, calledAt, emptiedAt⟩ }
      | _ => none

/-- The next event, at a time that is not before the last one. -/
def step (s : System F L) (e : Event F × ℚ) : Option (System F L) :=
  if s.clock ≤ e.2 then
    (s.after e.2 e.1).map fun t => { t with clock := e.2, tick := s.tick + 1 }
  else none

/-- One event, at a time not before the last one.  There is none for a caller
that does not wait for it. -/
def Step (s : System F L) (e : Event F × ℚ) (t : System F L) : Prop := s.step e = some t

/-- A manager in any state, with nobody calling it and nothing recorded. -/
def ofTiers (tiers : Tiers F L) (clock : ℚ) : System F L where
  tiers :=
    { tiers with
      l1Source := fun _ => 0
      l2Source := fun _ => 0
      written := fun _ => none }
  clock

end System

section Turns

variable [PyFloat F]

/-- What a turn of caller `i` can be, by where the caller was suspended
before. -/
inductive Turn (s : Tiers F L) (m : Moment) (i : ℕ) :
    Event F → Option (Task F) → Tiers F L × Task F → Prop
  | call (r) : Turn s m i (.call r) none (begin s m r)
  | answerRead {c r} (h : c.phase = .reading r) :
      Turn s m i (.act i .answered) (some c) (answerRead s c r m)
  | afterRead {c r raw} (h : c.phase = .wasRead r raw) :
      Turn s m i (.act i .resumed) (some c) (afterRead s c r raw m)
  | answerLock {c} (h : c.phase = .locking) :
      Turn s m i (.act i .answered) (some c) (answerLock s c m)
  | afterLock {c granted} (h : c.phase = .wasLocked granted) :
      Turn s m i (.act i .resumed) (some c) (s, afterLock c granted m)
  | afterCompute {c locked} (outcome) (h : c.phase = .computing locked) :
      Turn s m i (.act i (.computed outcome)) (some c) (afterCompute s c locked outcome m)
  | answerWrite {c locked value} (h : c.phase = .writing locked value) :
      Turn s m i (.act i .answered) (some c) (answerWrite s c locked value m)
  | afterWrite {c locked value} (h : c.phase = .wasWritten locked value) :
      Turn s m i (.act i .resumed) (some c) (s, leave c locked (.ok value))
  | answerRelease {c result} (h : c.phase = .releasing result) :
      Turn s m i (.act i .answered) (some c) (answerRelease s c result)
  | afterRelease {c result} (h : c.phase = .wasReleased result) :
      Turn s m i (.act i .resumed) (some c) (s, { c with phase := .ended result })
  | wake {c waits since} (h : c.phase = .sleeping waits since) :
      Turn s m i (.act i .resumed) (some c) (startGet s c (.again waits) m)

/-- A turn of a suspended caller is what `act` says. -/
theorem act_of_turn {s : Tiers F L} {m : Moment} {c : Task F} {i : ℕ} {e : Event F}
    {next : Tiers F L × Task F} (h : Turn s m i e (some c) next) :
    ∃ a, e = .act i a ∧ act s c m a = some next := by
  cases h <;> exact ⟨_, rfl, by simp only [act, *]⟩

theorem place_of_turn {s : Tiers F L} {m : Moment} {i j : ℕ} {a : Action F}
    {old : Option (Task F)} {next : Tiers F L × Task F} (h : Turn s m i (.act j a) old next) :
    i = j := by
  cases h <;> rfl

theorem turn_of_act {s : Tiers F L} {m : Moment} {c : Task F} {a : Action F}
    {next : Tiers F L × Task F} (h : act s c m a = some next) (i : ℕ) :
    Turn s m i (.act i a) (some c) next := by
  cases a with
  | answered =>
      simp only [act] at h
      split at h
      next r hphase => exact Option.some.inj h ▸ .answerRead hphase
      next hphase => exact Option.some.inj h ▸ .answerLock hphase
      next locked value hphase => exact Option.some.inj h ▸ .answerWrite hphase
      next result hphase => exact Option.some.inj h ▸ .answerRelease hphase
      next => cases h
  | resumed =>
      simp only [act] at h
      split at h
      next r raw hphase => exact Option.some.inj h ▸ .afterRead hphase
      next granted hphase => exact Option.some.inj h ▸ .afterLock hphase
      next locked value hphase => exact Option.some.inj h ▸ .afterWrite hphase
      next result hphase => exact Option.some.inj h ▸ .afterRelease hphase
      next waits since hphase => exact Option.some.inj h ▸ .wake hphase
      next => cases h
  | computed outcome =>
      simp only [act] at h
      split at h
      next locked hphase => exact Option.some.inj h ▸ .afterCompute outcome hphase
      next => cases h

/-- A turn without a call of the backend. -/
structure Local (s : Tiers F L) (m : Moment) (old : Option (Task F))
    (next : Tiers F L × Task F) : Prop where
  l2 : next.1.l2 = s.l2
  l2Source : next.1.l2Source = s.l2Source
  written : next.1.written = s.written
  lock : next.2.lock = old.bind Task.lock
  readAt : next.2.readAt = old.elim 0 Task.readAt
  calledAt : next.2.calledAt = old.elim m.tick Task.calledAt
  key : ∀ c, old = some c → next.2.key = c.key

/-- With the turn the backend does what the caller has asked it for: it reads,
locks, writes or releases. -/
def Answers (s : Tiers F L) (m : Moment) (i : ℕ) (e : Event F) (c : Task F)
    (next : Tiers F L × Task F) : Prop :=
  e = .act i .answered ∧
    ((∃ r, c.phase = .reading r ∧ next = answerRead s c r m) ∨
      (c.phase = .locking ∧ next = answerLock s c m) ∨
      (∃ locked value, c.phase = .writing locked value ∧
        next = answerWrite s c locked value m) ∨
      ∃ result, c.phase = .releasing result ∧ next = answerRelease s c result)

omit [PyFloat F] in
/-- Up to its call of the backend, `get` leaves L2 and the lock alone. -/
theorem local_startGet (s : Tiers F L) (c : Task F) (r : Reader) (m : Moment) :
    Local s m (some c) (startGet s c r m) := by
  rcases startGet_cases s c r m with ⟨value, -, -, h⟩ | ⟨-, h⟩ <;> rw [h] <;>
  exact ⟨rfl, rfl, rfl, rfl, rfl, rfl, fun _ hc => by rw [← Option.some.inj hc]⟩

/-- After its call of the backend, `get` leaves them alone again: it promotes
to L1. -/
theorem local_afterRead (s : Tiers F L) (c : Task F) (r : Reader) (raw : Option String)
    (m : Moment) : Local s m (some c) (afterRead s c r raw m) := by
  rcases afterRead_cases s c r raw m with
    ⟨-, h⟩ | ⟨text, -, -, h⟩ | ⟨text, value, -, -, h⟩
  · obtain ⟨phase, started, hc⟩ := afterGet_frame c r .none m
    rw [h, hc]
    exact ⟨rfl, rfl, rfl, rfl, rfl, rfl, fun _ hc => by rw [← Option.some.inj hc]⟩
  · rw [h]
    exact ⟨rfl, rfl, rfl, rfl, rfl, rfl, fun _ hc => by rw [← Option.some.inj hc]⟩
  · obtain ⟨phase, started, hc⟩ := afterGet_frame c r value m
    rw [h, hc]
    exact ⟨rfl, rfl, rfl, rfl, rfl, rfl, fun _ hc => by rw [← Option.some.inj hc]⟩

/-- Between two calls of the backend a caller leaves L2 alone. -/
theorem turn_cases {s : Tiers F L} {m : Moment} {i : ℕ} {e : Event F}
    {old : Option (Task F)} {next : Tiers F L × Task F} (h : Turn s m i e old next) :
    Local s m old next ∨ ∃ c, old = some c ∧ Answers s m i e c next := by
  cases h with
  | call r =>
      have hnew : ∀ c : Task F, c.lock = none → c.readAt = 0 → c.calledAt = m.tick → ∀ r,
          Local s m none (startGet s c r m) := by
        intro c hlock hread hcalled r
        have h := local_startGet s c r m
        exact ⟨h.l2, h.l2Source, h.written, h.lock.trans hlock, h.readAt.trans hread,
          h.calledAt.trans hcalled, fun _ hc => by cases hc⟩
      cases r with
      | get key => exact Or.inl (hnew _ rfl rfl rfl _)
      | getOrCompute key ttl => exact Or.inl (hnew _ rfl rfl rfl _)
  | wake hphase => exact Or.inl (local_startGet s _ _ m)
  | afterRead hphase => exact Or.inl (local_afterRead s _ _ _ m)
  | answerRead hphase => exact Or.inr ⟨_, rfl, rfl, Or.inl ⟨_, hphase, rfl⟩⟩
  | answerLock hphase => exact Or.inr ⟨_, rfl, rfl, Or.inr (Or.inl ⟨hphase, rfl⟩)⟩
  | answerWrite hphase =>
      exact Or.inr ⟨_, rfl, rfl, Or.inr (Or.inr (Or.inl ⟨_, _, hphase, rfl⟩))⟩
  | answerRelease hphase =>
      exact Or.inr ⟨_, rfl, rfl, Or.inr (Or.inr (Or.inr ⟨_, hphase, rfl⟩))⟩
  | afterLock hphase =>
      rename_i c granted
      left
      cases granted <;>
      exact ⟨rfl, rfl, rfl, rfl, rfl, rfl, fun _ hc => by rw [← Option.some.inj hc]; rfl⟩
  | afterCompute outcome hphase =>
      left
      cases outcome <;>
      exact ⟨rfl, rfl, rfl, rfl, rfl, rfl, fun _ hc => by rw [← Option.some.inj hc]; rfl⟩
  | afterWrite hphase =>
      exact Or.inl ⟨rfl, rfl, rfl, rfl, rfl, rfl, fun _ hc => by rw [← Option.some.inj hc]; rfl⟩
  | afterRelease hphase =>
      exact Or.inl ⟨rfl, rfl, rfl, rfl, rfl, rfl, fun _ hc => by rw [← Option.some.inj hc]⟩

/-- A caller keeps the event of its call; that of a new one is the present
event. -/
theorem calledAt_turn {s : Tiers F L} {m : Moment} {i : ℕ} {old : Option (Task F)}
    {next : Tiers F L × Task F} (h : Turn s m i e old next) :
    next.2.calledAt = old.elim m.tick Task.calledAt := by
  rcases turn_cases h with hlocal | ⟨c, rfl, rfl, ⟨r, hphase, rfl⟩ |
    ⟨hphase, rfl⟩ | ⟨locked, value, hphase, rfl⟩ | ⟨result, hphase, rfl⟩⟩
  · exact hlocal.calledAt
  all_goals rfl

/-- The last read of L2 is at most the one of this turn. -/
theorem readAt_turn {s : Tiers F L} {m : Moment} {i : ℕ} {e : Event F} {old : Option (Task F)}
    {next : Tiers F L × Task F} (h : Turn s m i e old next) :
    next.2.readAt = m.tick ∨ next.2.readAt = old.elim 0 Task.readAt := by
  rcases turn_cases h with hlocal | ⟨c, rfl, rfl, ⟨r, hphase, rfl⟩ |
    ⟨hphase, rfl⟩ | ⟨locked, value, hphase, rfl⟩ | ⟨result, hphase, rfl⟩⟩
  · exact Or.inr hlocal.readAt
  · exact Or.inl rfl
  · exact Or.inr rfl
  · exact Or.inr rfl
  · exact Or.inr rfl

/-- Callers have read before. -/
theorem readAt_lt_turn {s : Tiers F L} {m : Moment} {i : ℕ} {e : Event F}
    {old : Option (Task F)} {next : Tiers F L × Task F} (h : Turn s m i e old next)
    (hold : ∀ c ∈ old, c.readAt < m.tick) : next.2.readAt < m.tick + 1 := by
  rcases readAt_turn h with hread | hread <;> rw [hread]
  · exact Nat.lt_succ_self _
  · cases old with
    | none => exact Nat.succ_pos _
    | some c => exact (hold c rfl).trans (Nat.lt_succ_self _)

/-- What a turn of invalidation `j` can be: it is called, L2 answers it, or it
returns. -/
inductive DropTurn (s : Tiers F L) (tick j : ℕ) :
    Event F → Option Drop → Tiers F L × Drop → Prop
  | call (d : Invalidation) :
      DropTurn s tick j (.invalidate d) none
        (s.dropL1 d.target, { target := d.target, phase := .dropping, calledAt := tick })
  | answer {d} (h : d.phase = .dropping) :
      DropTurn s tick j (.dropAnswered j) (some d)
        ((s.dropL2 d.target).2,
          { d with phase := .wasDropped (s.dropL2 d.target).1, emptiedAt := some tick })
  | finish {d deleted} (h : d.phase = .wasDropped deleted) :
      DropTurn s tick j (.dropReturned j) (some d)
        (s, { d with phase := .returned deleted tick })

namespace System

/-- What an event moves: one caller, or one invalidation.  The others stay as
they are. -/
inductive Moves (s : System F L) (e : Event F × ℚ) (t : System F L) : Prop
  | task (i : ℕ) (old : Option (Task F)) (next : Tiers F L × Task F)
      (hold : s.tasks[i]? = old) (hturn : Turn s.tiers ⟨s.tick, e.2⟩ i e.1 old next)
      (htiers : t.tiers = next.1) (htasks : Replaced s.tasks t.tasks i next.2)
      (hdrops : t.drops = s.drops)
  | drop (j : ℕ) (old : Option Drop) (next : Tiers F L × Drop)
      (hold : s.drops[j]? = old) (hturn : DropTurn s.tiers s.tick j e.1 old next)
      (htiers : t.tiers = next.1) (hdrops : Replaced s.drops t.drops j next.2)
      (htasks : t.tasks = s.tasks)

/-- **What one event does.** -/
theorem step_cases {s t : System F L} {e : Event F × ℚ} (h : Step s e t) :
    s.clock ≤ e.2 ∧ t.clock = e.2 ∧ t.tick = s.tick + 1 ∧ Moves s e t := by
  obtain ⟨e, now⟩ := e
  obtain ⟨hclock, u, hafter, rfl⟩ : s.clock ≤ now ∧ ∃ u, s.after now e = some u ∧
      { u with clock := now, tick := s.tick + 1 } = t := by
    simpa [Step, step] using h
  refine ⟨hclock, rfl, rfl, ?_⟩
  cases e with
  | call r =>
      obtain rfl := Option.some.inj hafter
      exact .task s.tasks.length none _ (by simp) (.call r) rfl (replaced_append _ _) rfl
  | act i a =>
      obtain ⟨c, hc, next, hnext, rfl⟩ : ∃ c, s.tasks[i]? = some c ∧
          ∃ next, act s.tiers c ⟨s.tick, now⟩ a = some next ∧
            { s with tiers := next.1, tasks := s.tasks.set i next.2 } = u := by
        simpa [after, Option.bind_eq_some_iff] using hafter
      exact .task i (some c) next hc (turn_of_act hnext i) rfl (replaced_set hc _) rfl
  | invalidate d =>
      obtain rfl := Option.some.inj hafter
      exact .drop s.drops.length none _ (by simp) (.call d) rfl (replaced_append _ _) rfl
  | dropAnswered j =>
      simp only [after] at hafter
      split at hafter
      next target calledAt emptiedAt hd =>
          obtain rfl := Option.some.inj hafter
          exact .drop j _ _ hd (.answer rfl) rfl (replaced_set hd _) rfl
      next => cases hafter
  | dropReturned j =>
      simp only [after] at hafter
      split at hafter
      next target deleted calledAt emptiedAt hd =>
          obtain rfl := Option.some.inj hafter
          exact .drop j _ _ hd (.finish rfl) rfl (replaced_set hd _) rfl
      next => cases hafter

end System

end Turns

/-- The manager of the examples. -/
def newTiers : Tiers WholeFloat InMemoryL2.backend := .start {} {}

/-- A caller that has called reads L2, asks for the lock, and goes on. -/
def asksForLock (i : ℕ) (now : ℚ) : List (Event WholeFloat × ℚ) :=
  [(.act i .answered, now), (.act i .resumed, now), (.act i .answered, now),
    (.act i .resumed, now)]

end SharedCache
