import AtlasMcp.FlightTurns

/-!
# Single flight

Callers of one key over a backend in the process, none of whose computations fails, and
each of which ends before those who wait for it give up, share one computation.

A run of them goes through four stages: callers ask for the lock; one of them was granted
it; it computes, and the others wait for it; it has computed a value, and the others find
it.  Each stage has one lemma on what an event leads to.
-/

namespace SharedCache

open PyJson PyText Errors Cache GuardedRuns TaskTurns

variable {F : Type} {L : L2Backend}

namespace System

/-- Since when the caller slept that wakes with the event. -/
def sleptSince (s : System F L) : Event F → Option ℚ
  | .act i .resumed => do
      let c ← s.tasks[i]?
      match c.phase with
      | .sleeping _ since => some since
      | _ => none
  | _ => none

/-- Computations end before others give up waiting for them, and sleeps are
not cut short.  What was stored under the key has not expired. -/
def InTime (key : String) (s : System F L) (e : Event F × ℚ) (_ : System F L) : Prop :=
  (∀ c ∈ s.tasks, c.phase.isComputing = true → ∀ m ∈ c.started, e.2 < m.now + waitBudget) ∧
  (∀ since ∈ s.sleptSince e.1, since + pollWait ≤ e.2) ∧
  ∀ w ∈ s.tiers.written key, e.2 < w.expiresAt

/-- The callers of this key go on at once when the backend has answered, and
the computation ends before its lock lapses. -/
def Calm (key : String) (s : System F L) (e : Event F × ℚ) (t : System F L) : Prop :=
  AtOnce s e t ∧ InTime key s e t

instance (key : String) (s t : System F L) (e : Event F × ℚ) : Decidable (InTime key s e t) :=
  inferInstanceAs (Decidable
    ((∀ c ∈ _, _ → ∀ m ∈ _, _ < _) ∧ (∀ since ∈ _, _ ≤ _) ∧ ∀ w ∈ _, _ < _))

instance (key : String) (s t : System F L) (e : Event F × ℚ) : Decidable (Calm key s e t) :=
  inferInstanceAs (Decidable (_ ∧ _))

theorem inProcess_of_calm {key : String} {s t : System F L} {e : Event F × ℚ}
    (h : Calm key s e t) : InProcess s e t :=
  ⟨h.1, fun c hc hcomputing m hm => (h.2.1 c hc hcomputing m hm).le⟩

variable {key : String} {s t : System F L} {e : Event F} {now : ℚ}

/-- Callers ask for the lock: none has been granted it yet, and there is nothing
under the key. -/
structure Asking (key : String) (s : System F L) : Prop where
  asks : Each Asks s.tasks
  missing : Missing key s.clock s.tiers
  unlocked : Unlocked key s.clock s.tiers

/-- The only caller was granted the lock.  No other one has come in between,
because it goes on at once. -/
structure Granted (key : String) (s : System F L) (i : ℕ) (c : Task F) : Prop where
  leader : s.tasks[i]? = some c
  unstarted : c.started = none
  phase : c.phase = .wasLocked true
  alone : ∀ j u, j ≠ i → s.tasks[j]? ≠ some u
  missing : Missing key s.clock s.tiers

/-- A caller has the lock and computes, and the others wait for it.  They have
not waited long enough to compute by themselves. -/
structure Computing (key : String) (s : System F L) (i : ℕ) (c : Task F) (m : Moment) :
    Prop where
  leader : s.tasks[i]? = some c
  phase : c.phase = .computing true
  started : c.started = some m
  begun : m.now ≤ s.clock
  others : ∀ j u, j ≠ i → s.tasks[j]? = some u → Asks u ∨ Polls m.now s.clock u
  missing : Missing key s.clock s.tiers

/-- A caller has computed a value, and the others find it in L1 or in L2. -/
structure Stored [PyFloat F] (key : String) (s : System F L) (i : ℕ) (c : Task F)
    (v : Value F) : Prop where
  leader : s.tasks[i]? = some c
  leads : Leads v c
  json : IsJson v
  others : ∀ j u, j ≠ i → s.tasks[j]? = some u → Served v u
  holding : Holding key v s.tiers
  written : (∃ w ∈ s.tiers.written key, w.raw = dumps v) ∨ c.phase = .writing true v

/-- How far the flight has come: everybody asks for the value, one has the
lock, that one computes, or the value is stored. -/
inductive Stage [PyFloat F] (key : String) (s : System F L) : Prop
  | asking (h : Asking key s)
  | granted {i c} (h : Granted key s i c)
  | computing {i c m} (h : Computing key s i c m)
  | stored {i c v} (h : Stored key s i c v)

variable [PyFloat F]

/-- What each event moves is a caller of the key. -/
theorem moves_of_computes (h : Step s (e, now) t) (hevent : e.Computes key) :
    ∃ (i : ℕ) (old : Option (Task F)) (next : Tiers F L × Task F), s.tasks[i]? = old ∧
      Turn s.tiers ⟨s.tick, now⟩ i e old next ∧ t.tiers = next.1 ∧
      Replaced s.tasks t.tasks i next.2 := by
  obtain ⟨-, -, -, hmoves⟩ := step_cases h
  cases hmoves with
  | task i old next hold hturn htiers htasks hdrops =>
      exact ⟨i, old, next, hold, hturn, htiers, htasks⟩
  | drop j old next hold hturn htiers hdrops htasks =>
      cases hturn <;> exact absurd hevent id

/-- While everybody asks, everybody goes on asking, or one of them is granted
the lock. -/
theorem asking_step (hs : Asking key s) (hkeyed : Each (fun c => c.key = key) s.tasks)
    (h : Step s (e, now) t) (hevent : e.Computes key) (hcalm : Calm key s (e, now) t) :
    Asking key t ∨ ∃ i c, Granted key t i c := by
  obtain ⟨hclock, htclock, -, -⟩ := step_cases h
  obtain ⟨i, old, next, hold, hturn, htiers, htasks⟩ := moves_of_computes h hevent
  have hmissing := hs.missing.later hclock
  rcases asks_turn hturn hevent hmissing
      (fun c hc => ⟨hkeyed i c (hold.trans hc), hs.asks i c (hold.trans hc)⟩) with
    ⟨hasks, hkept, hlocked⟩ | ⟨c, rfl, hphase, rfl⟩
  · left
    refine ⟨htasks.each hs.asks (fun _ _ _ _ hu => hu) hasks, ?_, ?_⟩
    · rw [htiers, htclock]
      exact hkept
    · intro now' hnow
      rw [htiers, hlocked]
      exact hs.unlocked now' (hclock.trans (htclock ▸ hnow))
  · right
    have hkey : c.key = key := hkeyed i c hold
    have hgranted : (L.acquireLock s.tiers.l2 (lockKey c.key)
        CacheManager.stampedeLockTtlMs now).1 = true :=
      L.acquireLock_iff.mpr (hkey ▸ hs.unlocked now hclock)
    refine ⟨i, _, htasks.1, (hs.asks i c hold).1, ?_, ?_, ?_⟩
    · simp only [answerLock, hgranted]
    · -- any other caller would be busy too
      intro j u hji hu
      have hold' : s.tasks[j]? = some u := (htasks.2 j hji).symm.trans hu
      have hidle := hcalm.1.others hturn hji hold'
      rw [busy_of_asks (hs.asks j u hold')] at hidle
      cases hidle
    · rw [htiers, htclock]
      exact ⟨hmissing.inL1, fun now' hnow => L.text_acquireLock.trans (hmissing.inL2 now' hnow)⟩

theorem granted_step {i : ℕ} {c : Task F} (hs : Granted key s i c) (h : Step s (e, now) t)
    (hevent : e.Computes key) (hcalm : Calm key s (e, now) t) :
    ∃ c m, Computing key t i c m := by
  obtain ⟨hclock, htclock, -, -⟩ := step_cases h
  obtain ⟨k, old, next, hold, hturn, htiers, htasks⟩ := moves_of_computes h hevent
  have hki : i = k := by
    by_contra hik
    have hidle := hcalm.1.others hturn hik hs.leader
    rw [hs.phase] at hidle
    cases hidle
  subst hki
  obtain rfl : old = some c := hold.symm.trans hs.leader
  cases hturn with
  | afterLock hphase =>
      rename_i granted
      obtain rfl : granted = true := by simpa [hs.phase] using hphase.symm
      refine ⟨_, ⟨s.tick, now⟩, htasks.1, rfl, rfl, htclock.ge, ?_, ?_⟩
      · intro j u hji hu
        exact absurd ((htasks.2 j hji).symm.trans hu) (hs.alone j u hji)
      · rw [htiers, htclock]
        exact hs.missing.later hclock
  | answerRead hphase | afterRead hphase | answerLock hphase | afterCompute _ hphase
  | answerWrite hphase | afterWrite hphase | answerRelease hphase | afterRelease hphase
  | wake hphase =>
      rw [hs.phase] at hphase
      cases hphase

/-- Who wakes has slept for the length of a sleep. -/
theorem slept_of_calm (hcalm : Calm key s (e, now) t) {m : Moment} {i : ℕ} {c : Task F}
    {next : Tiers F L × Task F} (hc : s.tasks[i]? = some c)
    (hturn : Turn s.tiers m i e (some c) next) :
    ∀ waits since, c.phase = .sleeping waits since → since + pollWait ≤ now := by
  intro waits since hphase
  obtain ⟨a, rfl, hact⟩ := act_of_turn hturn
  have ha : a = .resumed := by
    cases a with
    | resumed => rfl
    | answered => simp [act, hphase] at hact
    | computed outcome => simp [act, hphase] at hact
  subst ha
  exact hcalm.2.2.1 since (by simp [sleptSince, hc, hphase])

/-- Whoever computes goes on computing, or stores what was computed. -/
theorem computing_step {i : ℕ} {c : Task F} {m : Moment} (hs : Computing key s i c m)
    (hholder : s.OneHolder) (hkeyed : Each (fun c => c.key = key) s.tasks)
    (h : Step s (e, now) t) (hevent : e.Computes key) (hcalm : Calm key s (e, now) t) :
    (∃ c m, Computing key t i c m) ∨ ∃ c v, Stored key t i c v := by
  obtain ⟨hclock, htclock, -, -⟩ := step_cases h
  obtain ⟨k, old, next, hold, hturn, htiers, htasks⟩ := moves_of_computes h hevent
  have hcomputing : c.phase.isComputing = true := by
    rw [hs.phase]
    rfl
  have hbudget : now < m.now + waitBudget :=
    hcalm.2.1 c (List.mem_of_getElem? hs.leader) hcomputing m hs.started
  by_cases hki : k = i
  · subst hki
    right
    obtain rfl : old = some c := hold.symm.trans hs.leader
    cases hturn with
    | afterCompute outcome hphase =>
        rename_i locked
        obtain rfl : true = locked := by simpa [hs.phase] using hphase
        obtain ⟨v, hjson, rfl⟩ := hevent
        refine ⟨_, v, htasks.1, ⟨by simp [afterCompute, hs.started], rfl, rfl, rfl⟩, hjson,
          ?_, ?_, Or.inr rfl⟩
        · intro j u hji hu
          have hold' : s.tasks[j]? = some u := (htasks.2 j hji).symm.trans hu
          have hidle := hcalm.1.others (Turn.afterCompute (s := s.tiers) (m := m) (.ok v) hphase)
            hji hold'
          obtain ⟨hstarted, waits, since, hphase, -⟩ :=
            sleeping_of_polls (hs.others j u hji hold') hidle
          refine ⟨hstarted, ?_⟩
          rw [hphase]
          trivial
        · rw [htiers, ← hkeyed k c hold]
          exact holding_set _ _ _ _ _
    | answerRead hphase | afterRead hphase | answerLock hphase | afterLock hphase
    | answerWrite hphase | afterWrite hphase | answerRelease hphase | afterRelease hphase
    | wake hphase =>
        rw [hs.phase] at hphase
        cases hphase
  · left
    have hmissing := hs.missing.later hclock
    have hmoved : (Asks next.2 ∨ Polls m.now now next.2) ∧ Missing key now next.1 := by
      have hask : (∀ u ∈ old, u.key = key ∧ Asks u) →
          (Asks next.2 ∨ Polls m.now now next.2) ∧ Missing key now next.1 := by
        intro hasks
        rcases asks_turn hturn hevent hmissing hasks with
          ⟨hnext, hkept, -⟩ | ⟨u, rfl, hphase, rfl⟩
        · exact ⟨Or.inl hnext, hkept⟩
        · -- the lock is held by the caller that computes
          obtain ⟨hkey, hstarted, -⟩ := hasks u rfl
          have htimely := hholder.timely i c hs.leader
          have hlock := htimely
          simp only [LockInTime, hs.phase] at hlock
          obtain ⟨m', -, hlock⟩ := hlock
          have hholds : c.Holds c.key now := htimely.holds (by simp [hlock])
            (fun hcomputing m' hm' => (hcalm.2.1 c (List.mem_of_getElem? hs.leader)
              hcomputing m' hm').le) (fun hbusy => by simp [hs.phase, Phase.busy] at hbusy)
          have hlocked := hholder.kept i c hs.leader c.key now hclock hholds
          rw [hkeyed i c hs.leader, ← hkey] at hlocked
          have hrefused : (L.acquireLock s.tiers.l2 (lockKey u.key)
              CacheManager.stampedeLockTtlMs now).1 = false := by
            by_contra hgranted
            exact L.acquireLock_iff.mp (by simpa using hgranted) hlocked
          refine ⟨Or.inr ⟨hstarted, ?_⟩, hmissing.inL1, fun now' hnow => ?_⟩
          · simp only [answerLock, hrefused]
          · exact L.text_acquireLock.trans (hmissing.inL2 now' hnow)
      cases old with
      | none => exact hask fun u hu => by cases hu
      | some u =>
          rcases hs.others k u hki hold with hasks | hpolls
          · apply hask
            intro u' hu'
            obtain rfl : u = u' := Option.some.inj hu'
            exact ⟨hkeyed k u hold, hasks⟩
          · obtain ⟨hnext, hkept⟩ := polls_turn hturn hmissing (hkeyed k u hold) hpolls
              (hs.begun.trans hclock) hbudget (fun hbusy => (hcalm.1.task hold hbusy).2)
              (slept_of_calm hcalm hold hturn)
            exact ⟨Or.inr hnext, hkept⟩
    refine ⟨c, m, (htasks.2 i (Ne.symm hki)).trans hs.leader, hs.phase, hs.started,
      htclock ▸ hs.begun.trans hclock, ?_, ?_⟩
    · intro j u hji hu
      rw [htclock]
      rcases htasks.cases hu with ⟨rfl, rfl⟩ | ⟨hjk, hold'⟩
      · exact hmoved.1
      · obtain ⟨hstarted, waits, since, hphase, hsince⟩ :=
          sleeping_of_polls (hs.others j u hji hold') (hcalm.1.others hturn hjk hold')
        refine Or.inr ⟨hstarted, ?_⟩
        rw [hphase]
        exact hsince
    · rw [htiers, htclock]
      exact hmoved.2

theorem stored_step {i : ℕ} {c : Task F} {v : Value F} (hs : Stored key s i c v)
    (htext : s.TextKept) (hkeyed : Each (fun c => c.key = key) s.tasks)
    (h : Step s (e, now) t) (hevent : e.Computes key) (hcalm : Calm key s (e, now) t) :
    ∃ c, Stored key t i c v := by
  obtain ⟨hclock, htclock, -, -⟩ := step_cases h
  obtain ⟨k, old, next, hold, hturn, htiers, htasks⟩ := moves_of_computes h hevent
  by_cases hki : k = i
  · subst hki
    obtain rfl : old = some c := hold.symm.trans hs.leader
    obtain rfl : c.key = key := hkeyed k c hold
    obtain ⟨hleads, hl1, hwritten⟩ := leads_turn hturn hs.leads hs.written
    refine ⟨next.2, htasks.1, hleads, hs.json, ?_, ?_, Or.inl ?_⟩
    · exact fun j u hji hu => hs.others j u hji ((htasks.2 j hji).symm.trans hu)
    · rw [htiers, Holding, hl1]
      exact hs.holding
    · rw [htiers]
      exact hwritten
  · -- while others move, the value is written to L2
    obtain ⟨w, hw, hraw⟩ : ∃ w ∈ s.tiers.written key, w.raw = dumps v := by
      refine hs.written.resolve_right fun hwriting => ?_
      have hidle := hcalm.1.others hturn (Ne.symm hki) hs.leader
      rw [hwriting] at hidle
      cases hidle
    have hread : L.text s.tiers.l2 key now = some (dumps v) :=
      hraw ▸ htext key w hw now hclock (hcalm.2.2.2 w hw)
    obtain ⟨hserved, hholding, hwritten⟩ := served_turn hturn hevent hs.json hs.holding hread
      fun u hu => ⟨hkeyed k u (hold.trans hu), hs.others k u hki (hold.trans hu)⟩
    refine ⟨c, (htasks.2 i (Ne.symm hki)).trans hs.leader, hs.leads, hs.json, ?_, ?_, Or.inl ?_⟩
    · intro j u hji hu
      rcases htasks.cases hu with ⟨rfl, rfl⟩ | ⟨hjk, hold'⟩
      · exact hserved
      · exact hs.others j u hji hold'
    · rw [htiers]
      exact hholding
    · rw [htiers, hwritten]
      exact ⟨w, hw, hraw⟩

/-- A computation starts while nobody has started one.  In a flight this happens
once. -/
def FirstStart (s : System F L) (e : Event F × ℚ) (_ : System F L) : Prop :=
  ∀ c ∈ s.starter e.2 e.1, ∀ b ∈ s.tasks, b.started = none

/-- What each step keeps: the stage, and that all the callers are of the one
key. -/
structure Flight (key : String) (s : System F L) : Prop extends OneHolder s where
  looked : s.Looked
  keyed : Each (fun c => c.key = key) s.tasks
  stage : Stage key s

/-- At the start nothing is cached under the key, and nobody has the lock of
it. -/
theorem flight_ofTiers {tiers : Tiers F L} {clock : ℚ} (hmissing : Missing key clock tiers)
    (hfree : Unlocked key clock tiers) : Flight key (ofTiers tiers clock) where
  toOneHolder := oneHolder_ofTiers tiers clock
  looked := looked_ofTiers tiers clock
  keyed := each_nil
  stage := .asking ⟨each_nil, ⟨hmissing.inL1, hmissing.inL2⟩, hfree⟩

/-- A step leaves the flight where it is, or takes it to its next stage. -/
theorem stage_step (hs : Flight key s) (h : Step s (e, now) t) (hevent : e.Computes key)
    (hcalm : Calm key s (e, now) t) : Stage key t := by
  cases hs.stage with
  | asking hstage =>
      rcases asking_step hstage hs.keyed h hevent hcalm with ht | ⟨i, c, ht⟩
      · exact .asking ht
      · exact .granted ht
  | granted hstage =>
      obtain ⟨c, m, ht⟩ := granted_step hstage h hevent hcalm
      exact .computing ht
  | computing hstage =>
      rcases computing_step hstage hs.toOneHolder hs.keyed h hevent hcalm with
        ⟨c, m, ht⟩ | ⟨c, v, ht⟩
      · exact .computing ht
      · exact .stored ht
  | stored hstage =>
      obtain ⟨c, ht⟩ := stored_step hstage hs.looked.text hs.keyed h hevent hcalm
      exact .stored ht

/-- A step keeps the flight: its stage, and what holds in all of them. -/
theorem flight_step (hs : Flight key s) (h : Step s (e, now) t) (hevent : e.Computes key)
    (hcalm : Calm key s (e, now) t) : Flight key t where
  toOneHolder := oneHolder_step hs.toOneHolder h (inProcess_of_calm hcalm)
  looked := looked_step hs.looked h
  keyed := by
    obtain ⟨i, old, next, hold, hturn, -, htasks⟩ := moves_of_computes h hevent
    exact htasks.each hs.keyed (fun _ _ _ _ hu => hu)
      (key_turn hturn hevent fun c hc => hs.keyed i c (hold.trans hc))
  stage := stage_step hs h hevent hcalm

/-- Nobody starts to compute after another one has. -/
theorem firstStart_of_flight (hs : Flight key s) (h : Step s (e, now) t)
    (hevent : e.Computes key) (hcalm : Calm key s (e, now) t) : FirstStart s (e, now) t := by
  intro c' hc' b hb
  obtain ⟨j, hj⟩ := List.mem_iff_getElem?.mp hb
  obtain ⟨k, htasks, hbefore⟩ := replaced_of_starter h hc'
  obtain ⟨-, -, -, -, -, -, -, locked, hphase⟩ := act_of_starter hc'
  have hserved : ∀ v, ¬ Served v c' := by
    intro v hserved
    have hin := hserved.2
    rw [hphase] at hin
    exact hin
  cases hs.stage with
  | asking hstage => exact (hstage.asks j b hj).1
  | granted hstage =>
      rename_i i c
      by_cases hji : j = i
      · subst hji
        obtain rfl : c = b := Option.some.inj (hstage.leader.symm.trans hj)
        exact hstage.unstarted
      · exact absurd hj (hstage.alone j b hji)
  | computing hstage =>
      -- the caller that starts is not the one that computes already
      rename_i i c m
      have hki : k ≠ i := by
        intro hki
        subst hki
        have hidle := hbefore c hstage.leader
        rw [hstage.phase] at hidle
        cases hidle
      rcases computing_step hstage hs.toOneHolder hs.keyed h hevent hcalm with
        ⟨c₁, m₁, ht⟩ | ⟨c₁, v, ht⟩
      · exact absurd hphase ((waiting_of_polls (ht.others k c' hki htasks.1)).1 locked)
      · exact absurd (ht.others k c' hki htasks.1) (hserved v)
  | stored hstage =>
      rename_i i c v
      obtain ⟨c₁, ht⟩ := stored_step hstage hs.looked.text hs.keyed h hevent hcalm
      by_cases hki : k = i
      · subst hki
        obtain rfl : c₁ = c' := Option.some.inj (ht.leader.symm.trans htasks.1)
        have hin := ht.leads.2.2
        rw [hphase] at hin
        exact absurd hin id
      · exact absurd (ht.others k c' hki htasks.1) (hserved v)

/-- When nobody is busy, somebody has started to compute. -/
theorem started_of_flight (hs : Flight key s) (hsome : s.tasks ≠ [])
    (hidle : ∀ c ∈ s.tasks, c.phase.busy = false) : ∃ c ∈ s.tasks, c.started.isSome = true := by
  cases hs.stage with
  | asking hstage =>
      obtain ⟨c, hc⟩ := List.exists_mem_of_ne_nil s.tasks hsome
      obtain ⟨j, hj⟩ := List.mem_iff_getElem?.mp hc
      have hbusy := hidle c hc
      rw [busy_of_asks (hstage.asks j c hj)] at hbusy
      cases hbusy
  | granted hstage =>
      rename_i i c
      have hbusy := hidle c (List.mem_of_getElem? hstage.leader)
      rw [hstage.phase] at hbusy
      cases hbusy
  | computing hstage =>
      exact ⟨_, List.mem_of_getElem? hstage.leader, by simp [hstage.started]⟩
  | stored hstage => exact ⟨_, List.mem_of_getElem? hstage.leader, hstage.leads.1⟩

/-- Who has ended returned the value that was computed. -/
theorem shared_of_flight (hs : Flight key s) {c : Task F} (hc : c ∈ s.tasks)
    {result : Except (Exc F) (Value F)} (hended : c.phase = .ended result) :
    ∃ b ∈ s.tasks, ∃ v, b.started.isSome = true ∧ b.outcome = some (.ok v) ∧ IsJson v ∧
      result = .ok v := by
  obtain ⟨j, hj⟩ := List.mem_iff_getElem?.mp hc
  cases hs.stage with
  | asking hstage =>
      have hin := (hstage.asks j c hj).2
      rw [hended] at hin
      exact absurd hin id
  | granted hstage =>
      rename_i i l
      by_cases hji : j = i
      · subst hji
        obtain rfl : l = c := Option.some.inj (hstage.leader.symm.trans hj)
        rw [hstage.phase] at hended
        cases hended
      · exact absurd hj (hstage.alone j c hji)
  | computing hstage =>
      rename_i i l m
      by_cases hji : j = i
      · subst hji
        obtain rfl : l = c := Option.some.inj (hstage.leader.symm.trans hj)
        rw [hstage.phase] at hended
        cases hended
      · exact absurd hended ((waiting_of_polls (hstage.others j c hji hj)).2 result)
  | stored hstage =>
      rename_i i l v
      refine ⟨l, List.mem_of_getElem? hstage.leader, v, hstage.leads.1, hstage.leads.2.1,
        hstage.json, ?_⟩
      by_cases hji : j = i
      · subst hji
        obtain rfl : l = c := Option.some.inj (hstage.leader.symm.trans hj)
        have hin := hstage.leads.2.2
        rw [hended] at hin
        exact hin
      · have hin := (hstage.others j c hji hj).2
        rw [hended] at hin
        exact hin

/-- What callers that share a computation can rely on.  A computation starts
while nobody has started one, and when all of them compute, sleep or have
ended, one has started.  Who has ended returned the value that was computed,
and who has not can go on, but not for more than `maxTurns` turns. -/
structure SharesOne (start : System F L) (events : List (Event F × ℚ)) (s : System F L) :
    Prop where
  first : Run (Guarded Step FirstStart) start events s
  started : s.tasks ≠ [] → (∀ c ∈ s.tasks, c.phase.busy = false) →
    ∃ c ∈ s.tasks, c.started.isSome = true
  shared : ∀ c ∈ s.tasks, ∀ result, c.phase = .ended result →
    ∃ b ∈ s.tasks, ∃ v, b.started.isSome = true ∧ b.outcome = some (.ok v) ∧ IsJson v ∧
      result = .ok v
  turns : ∀ i, events.countP (fun e => e.1.isTurn i) ≤ maxTurns
  goesOn : ∀ c ∈ s.tasks, (∀ result, c.phase ≠ .ended result) → ∀ m,
    ∃ a, (act s.tiers c m a).isSome = true

/-- **Single flight.**  Callers of a key over the in-process backend, called
at any times and interleaved in any way where they compute and sleep, share
one computation: if there was no value under the key and nobody has its lock,
computations return JSON values before those who wait for them give up, and
sleeps are not cut short, then until what is stored expires. -/
theorem single_flight {tiers : Tiers F InMemoryL2.backend} {clock : ℚ} {key : String}
    {events : List (Event F × ℚ)} {s : System F InMemoryL2.backend}
    (hmissing : Missing key clock tiers) (hfree : Unlocked key clock tiers)
    (hevents : ∀ e ∈ events, e.1.Computes key)
    (hrun : Run (Guarded Step (Calm key)) (ofTiers tiers clock) events s) :
    SharesOne (ofTiers tiers clock) events s := by
  have hstart := flight_ofTiers hmissing hfree
  have hcalls : Run (Guarded (Guarded Step (Calm key)) fun _ e _ => e.1.Computes key)
      (ofTiers tiers clock) events s :=
    hrun.guarded fun e _ _ hdid _ => hevents e hdid.mem
  have hflight : Flight key s :=
    hcalls.invariant hstart fun s e t hs h => flight_step hs h.1.1 h.2 h.1.2
  have hsteps : Run Step (ofTiers tiers clock) events s :=
    hrun.transfer (I := fun _ => True) trivial fun _ _ _ _ h => ⟨trivial, h.1⟩
  refine ⟨?_, started_of_flight hflight, ?_, ?_, ?_⟩
  · apply hcalls.transfer (I := Flight key) hstart
    intro s e t hs h
    exact ⟨flight_step hs h.1.1 h.2 h.1.2, h.1.1, firstStart_of_flight hs h.1.1 h.2 h.1.2⟩
  · intro c hc result hended
    exact shared_of_flight hflight hc hended
  · intro i
    have hturns := turns_le hsteps i
    omega
  · intro c _ hrunning m
    exact goesOn_of_not_ended s.tiers m hrunning

end System

/-- The second caller waits for the first one, which computes for a hundredth
of a second. -/
def sharedFlight : List (Event WholeFloat × ℚ) :=
  (.call (.getOrCompute "k" none), 0) :: asksForLock 0 0 ++
    (.call (.getOrCompute "k" none), 0) :: asksForLock 1 0 ++
    [(.act 0 (.computed (.ok (.int 7))), 1 / 100), (.act 0 .answered, 1 / 100),
      (.act 0 .resumed, 1 / 100), (.act 0 .answered, 1 / 100), (.act 0 .resumed, 1 / 100),
      (.act 1 .resumed, 1 / 40)]

/-- Both end, and one of them has computed. -/
theorem flight_shared : ∃ s,
    s.tasks.map (fun c => (c.phase.turnsLeft, c.started.isSome)) = [(0, true), (0, false)] ∧
    System.SharesOne (.ofTiers newTiers 0) sharedFlight s := by
  have hmissing : Missing "k" 0 newTiers := ⟨fun _ _ => rfl, fun _ _ => rfl⟩
  have hfree : Unlocked "k" 0 newTiers := by
    intro now _ hlocked
    obtain ⟨expires, hlookup, -⟩ := hlocked
    cases hlookup
  have hjson : IsJson (Value.int 7 : Value WholeFloat) := ⟨trivial, trivial, by simp⟩
  have hevents : ∀ e ∈ sharedFlight, e.1.Computes "k" := by
    simp [sharedFlight, asksForLock, Event.Computes, hjson]
  obtain ⟨s, hs, hended⟩ : ∃ s ∈ execGuarded System.step (System.Calm "k")
      (.ofTiers newTiers 0) sharedFlight,
      s.tasks.map (fun c => (c.phase.turnsLeft, c.started.isSome)) =
        [(0, true), (0, false)] := by decide +kernel
  exact ⟨s, hended, System.single_flight hmissing hfree hevents (Run.of_execGuarded hs)⟩

end SharedCache
