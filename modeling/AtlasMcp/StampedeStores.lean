import AtlasMcp.CacheTasks

/-!
# Computing what is stored already

Of the callers that miss a key, one is to compute, and the others are to read what it
stores.  A caller that has missed L2 does not look again before it computes: if another
one stores a value in between, it computes what is stored already.  So does a caller
that finds a stored `None`, which reads like a missing entry.

`nothing_stored_iff` says that there is nothing else, over every backend and however
callers are suspended around its calls.
-/

namespace SharedCache

open PyJson PyText Errors Cache GuardedRuns TaskTurns

variable {F : Type} {L : L2Backend} [PyFloat F]

namespace System

/-- The caller that starts to compute with the event. -/
def starter (s : System F L) (now : ℚ) : Event F → Option (Task F)
  | .act i .resumed => do
      let c ← s.tasks[i]?
      let next ← act s.tiers c ⟨s.tick, now⟩ .resumed
      match next.2.phase with
      | .computing _ => some next.2
      | _ => none
  | _ => none

/-- No caller starts to compute a value while one that was stored, and not
dropped since, has not expired. -/
def NothingStored (s : System F L) (e : Event F × ℚ) (_ : System F L) : Prop :=
  ∀ c ∈ s.starter e.2 e.1, ∀ w ∈ s.tiers.written c.key, w.expiresAt ≤ e.2

instance (s t : System F L) (e : Event F × ℚ) : Decidable (NothingStored s e t) :=
  inferInstanceAs (Decidable (∀ c ∈ _, ∀ w ∈ _, _ ≤ _))

/-- When a caller starts to compute, no value that has not expired was stored
since its last read of L2, and none before that is a `None`. -/
def NotStoredSinceRead (s : System F L) (e : Event F × ℚ) (_ : System F L) : Prop :=
  ∀ c ∈ s.starter e.2 e.1, ∀ w ∈ s.tiers.written c.key, e.2 < w.expiresAt →
    w.tick < c.readAt ∧ loads (F := F) w.raw ≠ some .none

/-- What the backend returns under a key is the text written last, until it
expires. -/
def TextKept (s : System F L) : Prop :=
  ∀ key, ∀ w ∈ s.tiers.written key, ∀ now, s.clock ≤ now → now < w.expiresAt →
    L.text s.tiers.l2 key now = some w.raw

/-- A caller that has read L2 has found what was written before, unless it had
expired or is a `None`. -/
def HasLooked (written : String → Option Written) (clock : ℚ) (c : Task F) : Prop :=
  match c.phase with
  | .wasRead _ raw => ∀ w ∈ written c.key, w.tick < c.readAt →
      w.expiresAt ≤ clock ∨ raw = some w.raw
  | .locking | .wasLocked _ => ∀ w ∈ written c.key, w.tick < c.readAt →
      w.expiresAt ≤ clock ∨ loads (F := F) w.raw = some .none
  | _ => True

/-- What each step keeps: the texts that were written are in L2 until they
expire, and whoever computes has looked for one before. -/
structure Looked (s : System F L) : Prop where
  text : s.TextKept
  past : Each (fun c => c.readAt < s.tick) s.tasks
  looked : Each (HasLooked s.tiers.written s.clock) s.tasks

theorem looked_ofTiers (tiers : Tiers F L) (clock : ℚ) : (ofTiers tiers clock).Looked where
  text key w hw := by cases hw
  past := each_nil
  looked := each_nil

/-- A computation starts as a caller goes on: with the lock that it was
granted, or because it has waited long enough. -/
theorem act_of_starter {s : System F L} {now : ℚ} {e : Event F} {c' : Task F}
    (h : c' ∈ s.starter now e) : ∃ (i : ℕ) (c : Task F) (next : Tiers F L × Task F),
      e = .act i .resumed ∧ s.tasks[i]? = some c ∧
      act s.tiers c ⟨s.tick, now⟩ .resumed = some next ∧ next.2 = c' ∧
      ∃ locked, c'.phase = .computing locked := by
  unfold starter at h
  split at h
  next i =>
      obtain ⟨c, hc, hact⟩ := Option.bind_eq_some_iff.mp h
      obtain ⟨next, hnext, hphase⟩ := Option.bind_eq_some_iff.mp hact
      split at hphase
      next locked hcomputing =>
          have hc' : next.2 = c' := Option.some.inj hphase
          exact ⟨i, c, next, rfl, hc, hnext, hc', locked, hc' ▸ hcomputing⟩
      next => cases hphase
  next => cases h

/-- A caller starts to compute when it was granted the lock, or missed L2. -/
theorem missed_of_computing {s : Tiers F L} {c : Task F} {m : Moment}
    {next : Tiers F L × Task F} (h : act s c m .resumed = some next) {locked : Bool}
    (hcomputing : next.2.phase = .computing locked) :
    c.phase = .wasLocked true ∨ ∃ r raw, c.phase = .wasRead r raw ∧
      ∀ text ∈ raw, loads (F := F) text = some .none := by
  cases turn_of_act h 0 with
  | afterLock hphase =>
      rename_i granted
      cases granted with
      | true => exact Or.inl hphase
      | false => cases hcomputing
  | afterRead hphase =>
      rename_i r raw
      refine Or.inr ⟨r, raw, hphase, fun text htext => ?_⟩
      rcases afterRead_cases s c r raw m with
        ⟨hraw, -⟩ | ⟨text', -, -, hend⟩ | ⟨text', value, hraw, hloads, hend⟩
      · rw [hraw] at htext
        cases htext
      · rw [hend] at hcomputing
        cases hcomputing
      · obtain rfl : text' = text := Option.some.inj (hraw.symm.trans htext)
        rw [hend] at hcomputing
        rcases afterGet_cases c r value m with
          ⟨-, hget⟩ | ⟨hnone, -⟩ | ⟨hnone, -⟩ | ⟨hnone, -⟩
        · rw [hget] at hcomputing
          cases hcomputing
        all_goals exact hnone ▸ hloads
  | afterWrite hphase =>
      rename_i locked' value
      cases locked' <;> cases hcomputing
  | afterRelease hphase => cases hcomputing
  | wake hphase =>
      rename_i waits since
      rcases startGet_cases s c (.again waits) m with ⟨value, -, -, hget⟩ | ⟨-, hget⟩ <;>
      · rw [hget] at hcomputing
        cases hcomputing

/-- A caller has looked also later on, and if the writes since then are
new. -/
theorem HasLooked.mono {written written' : String → Option Written} {clock clock' : ℚ}
    {c : Task F} (h : HasLooked written clock c) (hclock : clock ≤ clock')
    (hwritten : ∀ w ∈ written' c.key, w.tick < c.readAt → w ∈ written c.key) :
    HasLooked written' clock' c := by
  unfold HasLooked at h ⊢
  split
  next raw hphase =>
      simp only [hphase] at h
      intro w hw hbefore
      exact (h w (hwritten w hw hbefore) hbefore).imp_left fun hexpired => hexpired.trans hclock
  next hphase =>
      simp only [hphase] at h
      intro w hw hbefore
      exact (h w (hwritten w hw hbefore) hbefore).imp_left fun hexpired => hexpired.trans hclock
  next hphase =>
      simp only [hphase] at h
      intro w hw hbefore
      exact (h w (hwritten w hw hbefore) hbefore).imp_left fun hexpired => hexpired.trans hclock
  next => trivial

section Turns

variable {s : Tiers F L} {m : Moment} {i : ℕ} {e : Event F} {old : Option (Task F)}
  {next : Tiers F L × Task F}

/-- A caller that goes on to L1 has not looked yet. -/
theorem hasLooked_startGet (written : String → Option Written) (clock : ℚ)
    (s : Tiers F L) (c : Task F) (r : Reader) (m : Moment) :
    HasLooked written clock (startGet s c r m).2 := by
  rcases startGet_cases s c r m with ⟨value, -, -, h⟩ | ⟨-, h⟩ <;>
  · rw [h]
    trivial

/-- A caller that missed L2 goes on with what it has looked at. -/
theorem hasLooked_afterGet {written : String → Option Written} {clock : ℚ} {c : Task F}
    {r : Reader} {value : Value F} {m : Moment}
    (h : value = .none → ∀ w ∈ written c.key, w.tick < c.readAt →
      w.expiresAt ≤ clock ∨ loads (F := F) w.raw = some .none) :
    HasLooked written clock (afterGet c r value m) := by
  rcases afterGet_cases c r value m with
    ⟨-, hget⟩ | ⟨hnone, -, hget⟩ | ⟨hnone, waits, -, -, hget⟩ | ⟨hnone, waits, -, -, hget⟩
  · rw [hget]
    trivial
  · rw [hget]
    exact h hnone
  · rw [hget]
    trivial
  · rw [hget]
    trivial

/-- The caller that moves has looked at what was written before its last
read. -/
theorem hasLooked_turn (h : Turn s m i e old next)
    (htext : ∀ key, ∀ w ∈ s.written key, m.now < w.expiresAt →
      L.text s.l2 key m.now = some w.raw)
    (hold : ∀ c ∈ old, HasLooked s.written m.now c) :
    HasLooked s.written m.now next.2 := by
  cases h with
  | call r => cases r <;> exact hasLooked_startGet _ _ _ _ _ _
  | wake hphase => exact hasLooked_startGet _ _ _ _ _ _
  | answerRead hphase =>
      rename_i c r
      intro w hw _
      rcases le_or_gt w.expiresAt m.now with hexpired | hlive
      · exact Or.inl hexpired
      · exact Or.inr (htext c.key w hw hlive)
  | afterRead hphase =>
      rename_i c r raw
      have hlooked := hold c rfl
      simp only [HasLooked, hphase] at hlooked
      rcases afterRead_cases s c r raw m with
        ⟨hraw, hget⟩ | ⟨text, -, -, hget⟩ | ⟨text, value, hraw, hloads, hget⟩ <;> rw [hget]
      · apply hasLooked_afterGet
        intro _ w hw hbefore
        rcases hlooked w hw hbefore with hexpired | hsame
        · exact Or.inl hexpired
        · rw [hraw] at hsame
          cases hsame
      · trivial
      · apply hasLooked_afterGet
        intro hnone w hw hbefore
        rcases hlooked w hw hbefore with hexpired | hsame
        · exact Or.inl hexpired
        · obtain rfl : text = w.raw := Option.some.inj (hraw.symm.trans hsame)
          exact Or.inr (hnone ▸ hloads)
  | answerLock hphase =>
      have hlooked := hold _ rfl
      simp only [HasLooked, hphase] at hlooked
      exact hlooked
  | afterLock hphase =>
      rename_i c granted
      cases granted <;> trivial
  | afterCompute outcome hphase =>
      rename_i c locked
      cases outcome <;> cases locked <;> trivial
  | answerWrite hphase => trivial
  | afterWrite hphase =>
      rename_i c locked value
      cases locked <;> trivial
  | answerRelease hphase => trivial
  | afterRelease hphase => trivial

/-- A turn keeps what is written readable. -/
theorem text_turn (h : Turn s m i e old next)
    (htext : ∀ key, ∀ w ∈ s.written key, ∀ now, m.now ≤ now → now < w.expiresAt →
      L.text s.l2 key now = some w.raw) :
    ∀ key, ∀ w ∈ next.1.written key, ∀ now, m.now ≤ now → now < w.expiresAt →
      L.text next.1.l2 key now = some w.raw := by
  intro key w hw now hnow hlive
  rcases turn_cases h with hlocal | ⟨c, rfl, rfl, ⟨r, hphase, rfl⟩ |
    ⟨hphase, rfl⟩ | ⟨locked, value, hphase, rfl⟩ | ⟨result, hphase, rfl⟩⟩
  · rw [hlocal.l2]
    exact htext key w (hlocal.written ▸ hw) now hnow hlive
  · exact (L.text_get hnow).trans (htext key w hw now hnow hlive)
  · exact L.text_acquireLock.trans (htext key w hw now hnow hlive)
  · by_cases hkey : key = c.key
    · subst hkey
      obtain rfl : ⟨dumps value, m.now + s.ttlL2 c.ttl, m.tick⟩ = w := by
        simpa [answerWrite] using hw
      exact L.text_set hnow hlive
    · have hold : w ∈ s.written key := by
        simpa [answerWrite, Function.update_of_ne hkey] using hw
      exact (L.text_set_ne hkey).trans (htext key w hold now hnow hlive)
  · exact L.text_releaseLock.trans (htext key w hw now hnow hlive)

/-- What is written was there before, or is new. -/
theorem written_turn (h : Turn s m i e old next) {key : String} {w : Written}
    (hw : w ∈ next.1.written key) : w ∈ s.written key ∨ w.tick = m.tick := by
  rcases turn_cases h with hlocal | ⟨c, rfl, rfl, ⟨r, hphase, rfl⟩ |
    ⟨hphase, rfl⟩ | ⟨locked, value, hphase, rfl⟩ | ⟨result, hphase, rfl⟩⟩
  · exact Or.inl (hlocal.written ▸ hw)
  · exact Or.inl hw
  · exact Or.inl hw
  · by_cases hkey : key = c.key
    · subst hkey
      obtain rfl : ⟨dumps value, m.now + s.ttlL2 c.ttl, m.tick⟩ = w := by
        simpa [answerWrite] using hw
      exact Or.inr rfl
    · exact Or.inl (by simpa [answerWrite, Function.update_of_ne hkey] using hw)
  · exact Or.inl hw

end Turns

/-- Every step leaves callers that have looked. -/
theorem looked_step {s t : System F L} {e : Event F} {now : ℚ} (hs : s.Looked)
    (h : Step s (e, now) t) : t.Looked := by
  obtain ⟨hclock, htclock, htick, hmoves⟩ := step_cases h
  cases hmoves with
  | drop j old next hold hturn htiers hdrops htasks =>
      have hkept : ∀ key, ∀ w ∈ next.1.written key, w ∈ s.tiers.written key ∧
          ∀ now, L.text next.1.l2 key now = L.text s.tiers.l2 key now := by
        intro key w hw
        cases hturn with
        | call d =>
            rw [written_dropL1] at hw
            exact ⟨hw, fun now => by rw [l2_dropL1]⟩
        | answer hphase =>
            rename_i d
            rw [written_dropL2] at hw
            split at hw
            next => cases hw
            next hcovers =>
                refine ⟨hw, fun now => ?_⟩
                rw [text_dropL2, if_neg hcovers]
        | finish hphase => exact ⟨hw, fun _ => rfl⟩
      refine ⟨fun key w hw now' hnow hlive => ?_, ?_, ?_⟩
      · rw [htiers] at hw ⊢
        obtain ⟨hold, htext⟩ := hkept key w hw
        rw [htext]
        exact hs.text key w hold now' (hclock.trans (htclock ▸ hnow)) hlive
      · rw [htasks, htick]
        exact hs.past.imp fun c hc => hc.trans (Nat.lt_succ_self _)
      · rw [htasks, htiers, htclock]
        exact hs.looked.imp fun c hc => hc.mono hclock fun w hw _ => (hkept _ w hw).1
  | task i old next hold hturn htiers htasks hdrops =>
      have htext : ∀ key, ∀ w ∈ s.tiers.written key, ∀ now', now ≤ now' →
          now' < w.expiresAt → L.text s.tiers.l2 key now' = some w.raw :=
        fun key w hw now' hnow => hs.text key w hw now' (hclock.trans hnow)
      refine ⟨?_, ?_, ?_⟩
      · rw [TextKept, htiers, htclock]
        exact text_turn hturn htext
      · rw [htick]
        exact htasks.each hs.past (fun j b _ _ hb => hb.trans (Nat.lt_succ_self _))
          (readAt_lt_turn hturn fun c hc => hs.past i c (hold.trans hc))
      · rw [htiers, htclock]
        refine htasks.each hs.looked (fun j b _ hb hlooked => ?_) ?_
        · apply hlooked.mono hclock
          intro w hw hbefore
          rcases written_turn hturn hw with hold | hnew
          · exact hold
          · have hpast := hs.past j b hb
            simp only at hnew hpast
            omega
        · have hmoved : HasLooked s.tiers.written now next.2 :=
            hasLooked_turn hturn (fun key w hw => htext key w hw now le_rfl) fun c hc =>
              (hs.looked i c (hold.trans hc)).mono hclock fun w hw _ => hw
          apply hmoved.mono le_rfl
          intro w hw hbefore
          rcases written_turn hturn hw with hold' | hnew
          · exact hold'
          · -- a read comes no later than this turn, and the write is of this turn
            rcases readAt_turn hturn with hread | hread
            · simp only at hnew hread
              omega
            · cases old with
              | none =>
                  simp only [Option.elim_none] at hread
                  omega
              | some c =>
                  have hpast := hs.past i c hold
                  simp only [Option.elim_some] at hnew hread hpast
                  omega

/-- A caller that starts to compute has looked. -/
theorem nothingStored_of_notStoredSinceRead {s t : System F L} {e : Event F × ℚ} (hs : s.Looked)
    (hclock : s.clock ≤ e.2) (hseen : NotStoredSinceRead s e t) : NothingStored s e t := by
  intro c' hc' w hw
  by_contra hlive
  obtain ⟨hbefore, hsome⟩ := hseen c' hc' w hw (not_le.mp hlive)
  obtain ⟨i, c, next, -, hc, hact, rfl, locked, hcomputing⟩ := act_of_starter hc'
  have hlocal : Local s.tiers ⟨s.tick, e.2⟩ (some c) next := by
    rcases turn_cases (turn_of_act hact i) with hlocal | ⟨_, -, he, -⟩
    · exact hlocal
    · cases he
  rw [hlocal.key c rfl] at hw
  rw [hlocal.readAt] at hbefore
  have hexpired : ¬ w.expiresAt ≤ s.clock := fun h => hlive (h.trans hclock)
  have hlooked := hs.looked i c hc
  rcases missed_of_computing hact hcomputing with hphase | ⟨r, raw, hphase, hmissed⟩
  · simp only [HasLooked, hphase] at hlooked
    rcases hlooked w hw hbefore with h | h
    · exact hexpired h
    · exact hsome h
  · simp only [HasLooked, hphase] at hlooked
    rcases hlooked w hw hbefore with h | h
    · exact hexpired h
    · exact hsome (hmissed w.raw h)

/-- **No value is computed twice, unless it is stored behind a reader's
back.**  Over every backend, in a run no caller starts to compute while a
value stored before has not expired, if and only if whenever one starts, no
value that has not expired was stored since its last read of L2, and none
before that is a `None`. -/
theorem nothing_stored_iff (tiers : Tiers F L) (clock : ℚ) (events : List (Event F × ℚ))
    (s : System F L) :
    Run (Guarded Step NothingStored) (ofTiers tiers clock) events s ↔
      Run (Guarded Step NotStoredSinceRead) (ofTiers tiers clock) events s := by
  apply run_guarded_iff (I := Looked) (looked_ofTiers tiers clock)
  · intro s e t hs hstep _
    exact looked_step hs hstep
  · intro s e t hs hstep
    constructor
    · intro hnothing c hc w hw hlive
      exact absurd (hnothing c hc w hw) (not_le.mpr hlive)
    · exact nothingStored_of_notStoredSinceRead hs (step_cases hstep).1

end System

/-- Both callers miss L2 before the first one asks for the lock; it computes,
stores and releases, and then the second one is granted the lock. -/
def missedTogether : List (Event WholeFloat × ℚ) :=
  [(.call (.getOrCompute "k" none), 0), (.call (.getOrCompute "k" none), 0),
    (.act 0 .answered, 0), (.act 1 .answered, 0), (.act 0 .resumed, 0),
    (.act 1 .resumed, 0), (.act 0 .answered, 0), (.act 0 .resumed, 0),
    (.act 0 (.computed (.ok (.int 7))), 1 / 2), (.act 0 .answered, 1 / 2),
    (.act 0 .resumed, 1 / 2), (.act 0 .answered, 1 / 2), (.act 1 .answered, 1 / 2)]

/-- The second caller computes what is stored. -/
theorem stored_value_computed_again : ∃ s t,
    Run System.Step (.ofTiers newTiers 0) missedTogether s ∧
      System.Step s (.act 1 .resumed, 1 / 2) t ∧
      ¬ System.NothingStored s (.act 1 .resumed, 1 / 2) t := by
  obtain ⟨s, hs, t, ht, hbroken⟩ : ∃ s ∈ exec System.step
      (.ofTiers newTiers 0) missedTogether, ∃ t ∈ s.step (.act 1 .resumed, 1 / 2),
      ¬ System.NothingStored s (.act 1 .resumed, 1 / 2) t := by decide +kernel
  exact ⟨s, t, Run.of_exec hs, ht, hbroken⟩

end SharedCache
