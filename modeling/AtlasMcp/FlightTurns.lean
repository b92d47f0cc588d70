import AtlasMcp.OneComputation
import AtlasMcp.JsonSorted

/-!
# Turns of callers that share a computation

Of several callers of a key that is not in the cache, one computes.  The others ask for
its lock, poll L2 after they were refused, and are served once the value is stored.  Each
of these is a condition on a caller that its turns keep, as long as the cache is what it
takes it for (`asks_turn`, `polls_turn`, `served_turn`, `leads_turn`).

A caller that has woken up `n` times has waited for `n` times the length of a sleep since
the computation started, which is why it does not give up before the computation ends.
Whatever happens, each turn takes a caller on (`turns_le`).
-/

namespace SharedCache

open PyJson PyText Errors Cache GuardedRuns TaskTurns

variable {F : Type} {L : L2Backend}

/-- How long a caller sleeps, in seconds. -/
def pollWait : ℚ := CacheManager.stampedeWaitMs / 1000

theorem pollWait_pos : 0 < pollWait := by
  norm_num [pollWait, CacheManager.stampedeWaitMs]

/-- How long a waiter waits at most: its sleeps, one after the other. -/
theorem waitBudget_eq : waitBudget = CacheManager.stampedeMaxWaits * pollWait := by
  norm_num [waitBudget, pollWait, CacheManager.stampedeMaxWaits, CacheManager.stampedeWaitMs]

/-- A value other than `None` that JSON can express.  Of the values that are
computed, these are found in the cache again. -/
structure IsJson (v : Value F) : Prop where
  wf : v.Wf
  native : v.Native
  ne_none : v ≠ .none

/-- It is read back as it is. -/
theorem IsJson.loads_dumps [PyFloat F] {v : Value F} (h : IsJson v) :
    loads (dumps v) = some v := by
  rw [PyJson.loads_dumps h.wf, Value.jsonify_of_native v h.native]

/-- A caller of the key calls, moves on, or has computed a JSON value. -/
def Event.Computes (key : String) : Event F → Prop
  | .call (.getOrCompute k _) => k = key
  | .call (.get _) => False
  | .act _ (.computed outcome) => ∃ v, IsJson v ∧ outcome = .ok v
  | .act _ _ => True
  | _ => False

/-- From the time on, there is no value under the key: what there may be in the
tiers has expired. -/
structure Missing (key : String) (clock : ℚ) (s : Tiers F L) : Prop where
  inL1 : ∀ now, clock ≤ now → (s.l1.get key now).1 = .none
  inL2 : ∀ now, clock ≤ now → L.text s.l2 key now = none

/-- From the time on, the lock of the key is free, because nobody has it or
because it has lapsed. -/
def Unlocked (key : String) (clock : ℚ) (s : Tiers F L) : Prop :=
  ∀ now, clock ≤ now → ¬ L.Locked s.l2 (lockKey key) now

/-- All there is in L1 under the key is the value.  There may be nothing as
well. -/
def Holding (key : String) (v : Value F) (s : Tiers F L) : Prop :=
  ∀ entry, s.l1.store.lookup key = some entry → entry.value = v

/-- A caller on its way to the lock, which has missed so far. -/
def Asks (c : Task F) : Prop :=
  c.started = none ∧
  match c.phase with
  | .reading .first | .locking => True
  | .wasRead .first raw => raw = none
  | _ => False

/-- A caller that was refused the lock after the computation started.  It
sleeps at least `pollWait` before each of its reads. -/
def Polls (start clock : ℚ) (c : Task F) : Prop :=
  c.started = none ∧
  match c.phase with
  | .wasLocked granted => granted = false
  | .sleeping waits since => start + waits * pollWait ≤ since
  | .reading (.again waits) => start + (waits + 1) * pollWait ≤ clock
  | .wasRead (.again waits) raw => raw = none ∧ start + (waits + 1) * pollWait ≤ clock
  | _ => False

/-- A caller that finds the value, or has found it. -/
def Served [PyFloat F] (v : Value F) (c : Task F) : Prop :=
  c.started = none ∧
  match c.phase with
  | .reading _ | .sleeping _ _ => True
  | .wasRead _ raw => raw = some (dumps v)
  | .ended result => result = .ok v
  | _ => False

/-- The caller that has computed the value, and stores it. -/
def Leads (v : Value F) (c : Task F) : Prop :=
  c.started.isSome = true ∧ c.outcome = some (.ok v) ∧
  match c.phase with
  | .writing locked value | .wasWritten locked value => locked = true ∧ value = v
  | .releasing result | .wasReleased result | .ended result => result = .ok v
  | _ => False

theorem busy_of_asks {c : Task F} (h : Asks c) : c.phase.busy = true := by
  obtain ⟨-, hin⟩ := h
  revert hin
  cases c.phase with
  | reading r | wasRead r raw | locking => exact fun _ => rfl
  | _ => exact fun hin => absurd hin id

/-- Who is not busy while another one computes sleeps. -/
theorem sleeping_of_polls {start clock : ℚ} {c : Task F} (h : Asks c ∨ Polls start clock c)
    (hbusy : c.phase.busy = false) :
    c.started = none ∧ ∃ waits since, c.phase = .sleeping waits since ∧
      start + waits * pollWait ≤ since := by
  rcases h with hasks | ⟨hstarted, hin⟩
  · rw [busy_of_asks hasks] at hbusy
    cases hbusy
  · refine ⟨hstarted, ?_⟩
    revert hin hbusy
    cases c.phase with
    | sleeping waits since => exact fun _ hin => ⟨waits, since, rfl, hin⟩
    | computing locked | ended result => exact fun _ hin => absurd hin id
    | _ => exact fun hbusy => by cases hbusy

/-- Who waits neither computes nor has ended. -/
theorem waiting_of_polls {start clock : ℚ} {c : Task F} (h : Asks c ∨ Polls start clock c) :
    (∀ locked, c.phase ≠ .computing locked) ∧ ∀ result, c.phase ≠ .ended result := by
  constructor
  · intro locked hphase
    rcases h with ⟨-, hin⟩ | ⟨-, hin⟩ <;>
    · rw [hphase] at hin
      exact hin
  · intro result hphase
    rcases h with ⟨-, hin⟩ | ⟨-, hin⟩ <;>
    · rw [hphase] at hin
      exact hin

section Pieces

variable {key : String} {clock : ℚ} {s : Tiers F L} {m : Moment} {v : Value F}

/-- What is missing is missing later, if nothing has been stored since. -/
theorem Missing.later {clock' : ℚ} (h : Missing key clock s) (hclock : clock ≤ clock') :
    Missing key clock' s :=
  ⟨fun now hnow => h.inL1 now (hclock.trans hnow),
    fun now hnow => h.inL2 now (hclock.trans hnow)⟩

/-- A read of L1 finds no more afterwards. -/
theorem missing_get {c : L1Cache F} {t now : ℚ} (h : (c.get key now).1 = .none) :
    ((c.get key t).2.get key now).1 = .none := by
  by_contra hhit
  obtain ⟨entry, hlookup, hlive, hvalue⟩ := L1Cache.get_hit rfl hhit
  have hold := L1Cache.sub_get c key t key entry hlookup
  rw [L1Cache.get_of_live hold hlive] at h
  exact hhit (hvalue ▸ h)

/-- On a miss a caller turns to L2, and L1 is as good as before. -/
theorem Missing.startGet (h : Missing key m.now s) {c : Task F} (hkey : c.key = key)
    (r : Reader) :
    (SharedCache.startGet s c r m).2 = { c with phase := .reading r } ∧
      (SharedCache.startGet s c r m).1.l2 = s.l2 ∧
      Missing key m.now (SharedCache.startGet s c r m).1 := by
  subst hkey
  have hmiss := h.inL1 m.now le_rfl
  rcases startGet_cases s c r m with ⟨value, hvalue, hhit, -⟩ | ⟨-, hget⟩
  · exact absurd (hhit.symm.trans hmiss) hvalue
  · rw [hget]
    exact ⟨rfl, rfl, fun now hnow => missing_get (h.inL1 now hnow), h.inL2⟩

/-- Reading a key that is missing in L2 finds nothing, and changes nothing. -/
theorem Missing.answerRead (h : Missing key m.now s) {c : Task F} (hkey : c.key = key)
    (r : Reader) :
    (SharedCache.answerRead s c r m).2.phase = .wasRead r none ∧
      Missing key m.now (SharedCache.answerRead s c r m).1 := by
  subst hkey
  have hmiss : (L.get s.l2 c.key m.now).1 = none := h.inL2 m.now le_rfl
  refine ⟨by simp only [SharedCache.answerRead, hmiss], h.inL1, fun now hnow => ?_⟩
  exact (L.text_get hnow).trans (h.inL2 now hnow)

theorem Holding.get (h : Holding key v s) (k : String) (now : ℚ) :
    ∀ entry, (s.l1.get k now).2.store.lookup key = some entry → entry.value = v :=
  fun entry hlookup => h entry (L1Cache.sub_get s.l1 k now key entry hlookup)

theorem holding_set (l1 : L1Cache F) (key : String) (v : Value F) (ttl : ℤ) (now : ℚ) :
    ∀ entry, (l1.set key v ttl now).store.lookup key = some entry → entry.value = v := by
  have hset : StoreRecords.Records (fun k (e : L1Entry F) => k = key → e.value = v)
      (l1.set key v ttl now).store := by
    apply L1Cache.records_set
    · intro k e _ hne hk
      exact absurd hk hne
    · intro _ _
      rfl
  exact fun entry hlookup => hset key entry hlookup rfl

end Pieces

section Turns

variable [PyFloat F] {key : String} {v : Value F} {s : Tiers F L} {m : Moment} {i : ℕ}
  {e : Event F} {old : Option (Task F)} {next : Tiers F L × Task F}

theorem key_turn (h : Turn s m i e old next) (hevent : e.Computes key)
    (hold : ∀ c ∈ old, c.key = key) : next.2.key = key := by
  cases old with
  | some c =>
      rcases turn_cases h with hlocal | ⟨c', hc, -, ⟨r, -, rfl⟩ | ⟨-, rfl⟩ |
        ⟨locked, value, -, rfl⟩ | ⟨result, -, rfl⟩⟩
      · exact (hlocal.key c rfl).trans (hold c rfl)
      all_goals exact hold c' hc
  | none =>
      cases h with
      | call r =>
          cases r with
          | get k => exact absurd hevent id
          | getOrCompute k ttl =>
              rcases startGet_cases s ⟨k, ttl, .reading .first, m.tick, 0, 0, none, none, none⟩
                .first m with ⟨value, -, -, hget⟩ | ⟨-, hget⟩ <;>
              · rw [begin, hget]
                exact hevent

/-- Who asks goes on asking, until the backend answers for the lock. -/
theorem asks_turn (h : Turn s m i e old next) (hevent : e.Computes key)
    (hmissing : Missing key m.now s) (hold : ∀ c ∈ old, c.key = key ∧ Asks c) :
    (Asks next.2 ∧ Missing key m.now next.1 ∧
      ∀ k now, L.Locked next.1.l2 k now ↔ L.Locked s.l2 k now) ∨
    ∃ c, old = some c ∧ c.phase = .locking ∧ next = answerLock s c m := by
  cases h with
  | call r =>
      left
      cases r with
      | get k => exact absurd hevent id
      | getOrCompute k ttl =>
          obtain ⟨hread, hl2, hkept⟩ := hmissing.startGet (m := m)
            (c := ⟨k, ttl, .reading .first, m.tick, 0, 0, none, none, none⟩) hevent .first
          refine ⟨?_, hkept, fun k now => by rw [begin, hl2]⟩
          rw [begin, hread]
          exact ⟨rfl, trivial⟩
  | answerRead hphase =>
      rename_i c r
      left
      obtain ⟨hkey, hstarted, hin⟩ := hold c rfl
      obtain ⟨hread, hkept⟩ := hmissing.answerRead (m := m) hkey r
      refine ⟨⟨hstarted, ?_⟩, hkept, fun k now => L.locked_get⟩
      rw [hread]
      cases r <;> simp_all
  | afterRead hphase =>
      rename_i c r raw
      left
      obtain ⟨hkey, hstarted, hin⟩ := hold c rfl
      rw [hphase] at hin
      cases r with
      | first =>
          obtain rfl : raw = none := hin
          exact ⟨⟨hstarted, trivial⟩, ⟨hmissing.inL1, hmissing.inL2⟩, fun _ _ => Iff.rfl⟩
      | plain => exact absurd hin id
      | again waits => exact absurd hin id
  | answerLock hphase => exact Or.inr ⟨_, rfl, hphase, rfl⟩
  | afterLock hphase | afterCompute _ hphase | answerWrite hphase | afterWrite hphase
  | answerRelease hphase | afterRelease hphase | wake hphase =>
      have hin := (hold _ rfl).2.2
      rw [hphase] at hin
      exact absurd hin id

/-- Who polls goes on polling, and has not come to the end. -/
theorem polls_turn {start clock : ℚ} {c : Task F} (h : Turn s m i e (some c) next)
    (hmissing : Missing key m.now s) (hkey : c.key = key) (hc : Polls start clock c)
    (hstart : start ≤ m.now) (hbudget : m.now < start + waitBudget)
    (hbusy : c.phase.busy = true → m.now = clock)
    (hslept : ∀ waits since, c.phase = .sleeping waits since → since + pollWait ≤ m.now) :
    Polls start m.now next.2 ∧ Missing key m.now next.1 := by
  obtain ⟨hstarted, hin⟩ := hc
  cases h with
  | answerRead hphase =>
      rename_i r
      obtain ⟨hread, hkept⟩ := hmissing.answerRead (m := m) hkey r
      have hnow := hbusy (by rw [hphase]; rfl)
      refine ⟨⟨hstarted, ?_⟩, hkept⟩
      rw [hphase] at hin
      rw [hread]
      cases r with
      | again waits => exact ⟨rfl, hnow ▸ hin⟩
      | first => exact absurd hin id
      | plain => exact absurd hin id
  | afterRead hphase =>
      rename_i r raw
      have hnow := hbusy (by rw [hphase]; rfl)
      rw [hphase] at hin
      cases r with
      | again waits =>
          obtain ⟨rfl, hwaited⟩ := hin
          refine ⟨?_, ⟨hmissing.inL1, hmissing.inL2⟩⟩
          rcases afterGet_cases c (.again waits) .none m with
            ⟨hplain, -⟩ | ⟨-, hfirst, -⟩ | ⟨-, n, hn, -, hget⟩ | ⟨-, n, hn, hlast, -⟩
          · cases hplain rfl
          · cases hfirst
          · obtain rfl : waits = n := by simpa using hn
            simp only [afterRead, hget]
            refine ⟨hstarted, ?_⟩
            push_cast
            exact hnow ▸ hwaited
          · -- it would have waited for as long as a computation may take
            obtain rfl : waits = n := by simpa using hn
            have hall : (CacheManager.stampedeMaxWaits : ℚ) ≤ waits + 1 := by exact_mod_cast hlast
            have hlong := mul_le_mul_of_nonneg_right hall pollWait_pos.le
            rw [waitBudget_eq] at hbudget
            linarith
      | first => exact absurd hin id
      | plain => exact absurd hin id
  | afterLock hphase =>
      rename_i granted
      rw [hphase] at hin
      obtain rfl : granted = false := hin
      refine ⟨⟨hstarted, ?_⟩, hmissing⟩
      simpa [afterLock] using hstart
  | wake hphase =>
      rename_i waits since
      obtain ⟨hread, -, hkept⟩ := hmissing.startGet (m := m) hkey (.again waits)
      have hslept := hslept waits since hphase
      refine ⟨?_, hkept⟩
      rw [hphase] at hin
      rw [hread]
      refine ⟨hstarted, ?_⟩
      simp only at hin ⊢
      linarith
  | answerLock hphase | afterCompute _ hphase | answerWrite hphase | afterWrite hphase
  | answerRelease hphase | afterRelease hphase =>
      rw [hphase] at hin
      exact absurd hin id

/-- Who is served stays served. -/
theorem served_turn (h : Turn s m i e old next) (hevent : e.Computes key) (hjson : IsJson v)
    (hholding : Holding key v s) (htext : L.text s.l2 key m.now = some (dumps v))
    (hold : ∀ c ∈ old, c.key = key ∧ Served v c) :
    Served v next.2 ∧ Holding key v next.1 ∧ next.1.written = s.written := by
  have hstart : ∀ (c : Task F) (r : Reader), c.key = key → c.started = none →
      Served v (startGet s c r m).2 ∧ Holding key v (startGet s c r m).1 ∧
        (startGet s c r m).1.written = s.written := by
    intro c r hkey hstarted
    subst hkey
    rcases startGet_cases s c r m with ⟨value, hvalue, hhit, hget⟩ | ⟨-, hget⟩
    · obtain ⟨entry, hlookup, -, hentry⟩ := L1Cache.get_hit hhit hvalue
      obtain rfl : value = v := hentry.symm.trans (hholding entry hlookup)
      rw [hget]
      exact ⟨⟨hstarted, rfl⟩, hholding.get c.key m.now, rfl⟩
    · rw [hget]
      exact ⟨⟨hstarted, trivial⟩, hholding.get c.key m.now, rfl⟩
  cases h with
  | call r =>
      cases r with
      | get k => exact absurd hevent id
      | getOrCompute k ttl => exact hstart _ _ hevent rfl
  | wake hphase =>
      obtain ⟨hkey, hstarted, -⟩ := hold _ rfl
      exact hstart _ _ hkey hstarted
  | answerRead hphase =>
      rename_i c r
      obtain ⟨hkey, hstarted, -⟩ := hold c rfl
      subst hkey
      exact ⟨⟨hstarted, htext⟩, hholding, rfl⟩
  | afterRead hphase =>
      rename_i c r raw
      obtain ⟨hkey, hstarted, hin⟩ := hold c rfl
      subst hkey
      rw [hphase] at hin
      obtain rfl : raw = some (dumps v) := hin
      rcases afterRead_cases s c r (some (dumps v)) m with
        ⟨hraw, -⟩ | ⟨text, hraw, hloads, -⟩ | ⟨text, value, hraw, hloads, hget⟩
      · cases hraw
      · obtain rfl := Option.some.inj hraw
        rw [hjson.loads_dumps] at hloads
        cases hloads
      · obtain rfl := Option.some.inj hraw
        obtain rfl : v = value := Option.some.inj (hjson.loads_dumps.symm.trans hloads)
        rw [hget]
        refine ⟨?_, holding_set _ _ _ _ _, rfl⟩
        rcases afterGet_cases c r v m with ⟨-, hend⟩ | ⟨hnone, -⟩ | ⟨hnone, -⟩ | ⟨hnone, -⟩
        · simp only [hend]
          exact ⟨hstarted, rfl⟩
        all_goals exact absurd hnone hjson.ne_none
  | answerLock hphase | afterLock hphase | afterCompute _ hphase | answerWrite hphase
  | afterWrite hphase | answerRelease hphase | afterRelease hphase =>
      have hin := (hold _ rfl).2.2
      rw [hphase] at hin
      exact absurd hin id

/-- The caller that has computed stores its value and returns it. -/
theorem leads_turn {c : Task F} (h : Turn s m i e (some c) next) (hc : Leads v c)
    (hwritten : (∃ w ∈ s.written c.key, w.raw = dumps v) ∨ c.phase = .writing true v) :
    Leads v next.2 ∧ next.1.l1 = s.l1 ∧ ∃ w ∈ next.1.written c.key, w.raw = dumps v := by
  obtain ⟨hstarted, houtcome, hin⟩ := hc
  have hkept : (∀ locked value, c.phase ≠ .writing locked value) →
      ∃ w ∈ s.written c.key, w.raw = dumps v :=
    fun hnot => hwritten.resolve_right (hnot true v)
  cases h with
  | answerWrite hphase =>
      rename_i locked value
      rw [hphase] at hin
      obtain ⟨rfl, rfl⟩ := hin
      refine ⟨⟨hstarted, houtcome, rfl, rfl⟩, rfl, ?_⟩
      exact ⟨_, by simp only [answerWrite, Function.update_self]; rfl, rfl⟩
  | afterWrite hphase =>
      rename_i locked value
      rw [hphase] at hin
      obtain ⟨rfl, rfl⟩ := hin
      exact ⟨⟨hstarted, houtcome, rfl⟩, rfl, hkept (by simp [hphase])⟩
  | answerRelease hphase =>
      rw [hphase] at hin
      exact ⟨⟨hstarted, houtcome, hin⟩, rfl, hkept (by simp [hphase])⟩
  | afterRelease hphase =>
      rw [hphase] at hin
      exact ⟨⟨hstarted, houtcome, hin⟩, rfl, hkept (by simp [hphase])⟩
  | answerRead hphase | afterRead hphase | answerLock hphase | afterLock hphase
  | afterCompute _ hphase | wake hphase =>
      rw [hphase] at hin
      exact absurd hin id

end Turns

/-- The turns of a call that waits in vain to the end. -/
def maxTurns : ℕ := 3 * (CacheManager.stampedeMaxWaits - 1) + 12

/-- How many turns a caller has before it at most. -/
def Phase.turnsLeft : Phase F → ℕ
  | .reading .first => maxTurns
  | .wasRead .first _ => maxTurns - 1
  | .locking => maxTurns - 2
  | .wasLocked _ => maxTurns - 3
  | .sleeping waits _ => 3 * (CacheManager.stampedeMaxWaits - 1 - waits) + 8
  | .reading (.again waits) => 3 * (CacheManager.stampedeMaxWaits - 1 - waits) + 7
  | .wasRead (.again waits) _ => 3 * (CacheManager.stampedeMaxWaits - 1 - waits) + 6
  | .computing _ => 5
  | .writing _ _ => 4
  | .wasWritten _ _ => 3
  | .reading .plain | .releasing _ => 2
  | .wasRead .plain _ | .wasReleased _ => 1
  | .ended _ => 0

/-- The event is a turn of caller `i` after its call. -/
def Event.isTurn (i : ℕ) : Event F → Bool
  | .act j _ => j = i
  | _ => false

/-- A caller that begins to read has no more turns left than one that
reads. -/
theorem turnsLeft_startGet (s : Tiers F L) (c : Task F) (r : Reader) (m : Moment) :
    (startGet s c r m).2.phase.turnsLeft ≤ (Phase.reading (F := F) r).turnsLeft := by
  rcases startGet_cases s c r m with ⟨value, -, -, hget⟩ | ⟨-, hget⟩
  · rw [hget]
    exact Nat.zero_le _
  · rw [hget]

theorem turnsLeft_afterGet (c : Task F) (r : Reader) (raw : Option String) (value : Value F)
    (m : Moment) :
    (afterGet c r value m).phase.turnsLeft < (Phase.wasRead (F := F) r raw).turnsLeft := by
  rcases afterGet_cases c r value m with
    ⟨-, hget⟩ | ⟨-, rfl, hget⟩ | ⟨-, n, rfl, hn, hget⟩ | ⟨-, n, rfl, hn, hget⟩ <;> rw [hget]
  · cases r <;> simp [Phase.turnsLeft, maxTurns]
  · simp [Phase.turnsLeft, maxTurns]
  · simp only [Phase.turnsLeft]
    omega
  · simp only [Phase.turnsLeft]
    omega

/-- Every turn takes a caller on. -/
theorem turnsLeft_turn [PyFloat F] {s : Tiers F L} {m : Moment} {i : ℕ} {e : Event F}
    {c : Task F} {next : Tiers F L × Task F} (h : Turn s m i e (some c) next) :
    next.2.phase.turnsLeft < c.phase.turnsLeft := by
  cases h with
  | answerRead hphase =>
      rename_i r
      rw [hphase]
      cases r <;> simp [answerRead, Phase.turnsLeft, maxTurns]
  | afterRead hphase =>
      rename_i r raw
      rw [hphase]
      rcases afterRead_cases s c r raw m with
        ⟨-, hget⟩ | ⟨text, -, -, hget⟩ | ⟨text, value, -, -, hget⟩ <;> rw [hget]
      · exact turnsLeft_afterGet _ _ _ _ _
      · cases r <;> simp [Phase.turnsLeft, maxTurns]
      · exact turnsLeft_afterGet _ _ _ _ _
  | answerLock hphase =>
      rw [hphase]
      simp [answerLock, Phase.turnsLeft, maxTurns, CacheManager.stampedeMaxWaits]
  | afterLock hphase =>
      rename_i granted
      rw [hphase]
      cases granted <;>
      simp [afterLock, Phase.turnsLeft, maxTurns, CacheManager.stampedeMaxWaits]
  | afterCompute outcome hphase =>
      rename_i locked
      rw [hphase]
      cases outcome <;> cases locked <;> simp [afterCompute, leave, Phase.turnsLeft]
  | answerWrite hphase =>
      rw [hphase]
      simp [answerWrite, Phase.turnsLeft]
  | afterWrite hphase =>
      rename_i locked value
      rw [hphase]
      cases locked <;> simp [leave, Phase.turnsLeft]
  | answerRelease hphase =>
      rw [hphase]
      simp [answerRelease, Phase.turnsLeft]
  | afterRelease hphase =>
      rw [hphase]
      simp [Phase.turnsLeft]
  | wake hphase =>
      rename_i waits since
      rw [hphase]
      have hread := turnsLeft_startGet s c (.again waits) m
      simp only [Phase.turnsLeft] at hread ⊢
      omega

/-- A caller that has not ended can go on. -/
theorem goesOn_of_not_ended [PyFloat F] (s : Tiers F L) {c : Task F} (m : Moment)
    (h : ∀ result, c.phase ≠ .ended result) : ∃ a, (act s c m a).isSome = true := by
  cases hphase : c.phase with
  | reading r | locking | writing locked value | releasing result =>
      exact ⟨.answered, by simp [act, hphase]⟩
  | wasRead r raw | wasLocked granted | wasWritten locked value | wasReleased result
  | sleeping waits since => exact ⟨.resumed, by simp [act, hphase]⟩
  | computing locked => exact ⟨.computed (.ok .none), by simp [act, hphase]⟩
  | ended result => exact absurd hphase (h result)

namespace System

variable [PyFloat F] {s t : System F L} {events : List (Event F × ℚ)}

/-- **A caller returns after at most `maxTurns` turns.** -/
theorem turns_le {tiers : Tiers F L} {clock : ℚ} (hrun : Run Step (ofTiers tiers clock) events s)
    (i : ℕ) : events.countP (fun e => e.1.isTurn i) +
      s.tasks[i]?.elim maxTurns (fun c => c.phase.turnsLeft) ≤ maxTurns := by
  induction hrun with
  | nil => simp [ofTiers]
  | snoc hbefore hlast ih =>
      rename_i ls e u v
      obtain ⟨e, now⟩ := e
      rw [List.countP_append, List.countP_singleton]
      obtain ⟨-, -, -, hmoves⟩ := step_cases hlast
      cases hmoves with
      | drop j old next hold hturn htiers hdrops htasks =>
          have hnot : e.isTurn i = false := by cases hturn <;> rfl
          rw [htasks]
          simpa [hnot] using ih
      | task k old next hold hturn htiers htasks hdrops =>
          by_cases hki : k = i
          · subst hki
            rw [htasks.1]
            simp only [Option.elim_some]
            cases old with
            | some c =>
                have hless := turnsLeft_turn hturn
                rw [hold] at ih
                simp only [Option.elim_some] at ih
                split <;> omega
            | none =>
                rw [hold] at ih
                simp only [Option.elim_none] at ih
                have hnot : e.isTurn k = false := by cases hturn; rfl
                have hless : next.2.phase.turnsLeft ≤ maxTurns := by
                  cases hturn with
                  | call r =>
                      cases r with
                      | get key =>
                          have hread := turnsLeft_startGet u.tiers
                            ⟨key, none, .reading .plain, u.tick, 0, 0, none, none, none⟩
                            .plain ⟨u.tick, now⟩
                          exact hread.trans (by simp [Phase.turnsLeft, maxTurns])
                      | getOrCompute key ttl => exact turnsLeft_startGet _ _ _ _
                simp only [hnot, Bool.false_eq_true, if_false]
                omega
          · have hnot : e.isTurn i = false := by
              cases hturn <;> simp [Event.isTurn, hki]
            rw [htasks.2 i (Ne.symm hki)]
            simpa [hnot] using ih

end System

end SharedCache
