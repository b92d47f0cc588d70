import AtlasMcp.CacheTasks

/-!
# What an invalidation leaves behind

Once an invalidation has returned, later reads are not to return values that were
computed, or being computed, when it was called.  It empties each tier once, and a
caller in flight may write such a value to a tier after that: one that computes, or one
that has read L2 and promotes what it read.

`fresh_of_no_old_write` says that there is nothing else: while no such value is stored in a
tier that has been emptied, and no caller promotes one that it read before L2 was emptied, no
call made after the invalidation has returned returns one.  What such a call itself reads
from L2, and promotes, has been put there since.
-/

namespace SharedCache

open PyJson PyText Errors Cache GuardedRuns TaskTurns StoreRecords

variable {F : Type} {L : L2Backend}

/-- The event at which an invalidation returned. -/
def Drop.returnedAt (d : Drop) : Option ℕ :=
  match d.phase with
  | .returned _ tick => some tick
  | _ => none

/-- The invalidation covers the key, and returned before the event.  Whoever
reads after it should not see what was computed before it was called. -/
def Drop.DoneBefore (d : Drop) (key : String) (tick : ℕ) : Prop :=
  d.target.covers key = true ∧ ∃ returned ∈ d.returnedAt, returned < tick

instance (d : Drop) (key : String) (tick : ℕ) : Decidable (d.DoneBefore key tick) :=
  inferInstanceAs (Decidable (_ ∧ _))

/-- The invalidation had emptied L2 before the event.  What is read from L2 from
then on was written after it. -/
def Drop.EmptiedBefore (d : Drop) (tick : ℕ) : Prop := ∃ emptied ∈ d.emptiedAt, emptied < tick

instance (d : Drop) (tick : ℕ) : Decidable (d.EmptiedBefore tick) :=
  inferInstanceAs (Decidable (∃ emptied ∈ d.emptiedAt, emptied < tick))

/-- The caller has returned a value. -/
def Task.returnsValue (c : Task F) : Bool :=
  match c.phase with
  | .ended (.ok .none) => false
  | .ended (.ok _) => true
  | _ => false

namespace System

variable [PyFloat F]

/-- The caller that promotes with the event what it has read from L2. -/
def promotes (s : System F L) : Event F → Option (Task F)
  | .act i .resumed => do
      let c ← s.tasks[i]?
      match c.phase with
      | .wasRead _ (some text) => (loads (F := F) text).map fun _ => c
      | _ => none
  | _ => none

omit [PyFloat F] in
/-- What the event stores in L1: the key, and when the computation of the
value started. -/
def storesL1 (s : System F L) : Event F → Option (String × ℕ)
  | .act i (.computed (.ok _)) => do
      let c ← s.tasks[i]?
      match c.phase with
      | .computing _ => some (c.key, c.started.elim 0 Moment.tick)
      | _ => none
  | _ => none

omit [PyFloat F] in
/-- What it stores in L2. -/
def storesL2 (s : System F L) : Event F → Option (String × ℕ)
  | .act i .answered => do
      let c ← s.tasks[i]?
      match c.phase with
      | .writing _ _ => some (c.key, c.source)
      | _ => none
  | _ => none

/-- A value returned by a call was not being computed when an invalidation of
its key was called that had returned before the call. -/
def FreshReturns (_ : System F L) (_ : Event F × ℚ) (t : System F L) : Prop :=
  ∀ c ∈ t.tasks, c.returnsValue = true → ∀ d ∈ t.drops, d.DoneBefore c.key c.calledAt →
    d.calledAt ≤ c.source

/-- No value is stored in a tier that an invalidation of its key has emptied,
if it was being computed when the invalidation was called; nor does a caller
promote such a value that it read from L2 before the invalidation had emptied
it. -/
def NoOldWrite (s : System F L) (e : Event F × ℚ) (_ : System F L) : Prop :=
  (∀ w ∈ s.storesL1 e.1, ∀ d ∈ s.drops, d.target.covers w.1 = true → d.calledAt ≤ w.2) ∧
  (∀ w ∈ s.storesL2 e.1, ∀ d ∈ s.drops, d.target.covers w.1 = true → d.phase ≠ .dropping →
    d.calledAt ≤ w.2) ∧
  ∀ c ∈ s.promotes e.1, ∀ d ∈ s.drops, d.target.covers c.key = true →
    ¬ d.EmptiedBefore c.readAt → d.calledAt ≤ c.source

instance (s t : System F L) (e : Event F × ℚ) : Decidable (FreshReturns s e t) :=
  inferInstanceAs (Decidable (∀ c ∈ _, _ → ∀ d ∈ _, _ → _ ≤ _))

instance (s t : System F L) (e : Event F × ℚ) : Decidable (NoOldWrite s e t) :=
  inferInstanceAs (Decidable (_ ∧ _))

end System

/-- The entries of L1 are at least as new as every invalidation of their
key. -/
def CleanL1 (drops : List Drop) (s : Tiers F L) : Prop :=
  Records (fun key _ => ∀ d ∈ drops, d.target.covers key = true →
    d.calledAt ≤ s.l1Source key) s.l1.store

/-- What L2 returns is at least as new as every invalidation that has emptied
it. -/
def CleanL2 (drops : List Drop) (s : Tiers F L) (clock : ℚ) : Prop :=
  ∀ key now text, clock ≤ now → L.text s.l2 key now = some text →
    ∀ d ∈ drops, d.target.covers key = true → d.phase ≠ .dropping →
      d.calledAt ≤ s.l2Source key

/-- A value whose computation started at the event may be returned by the
caller. -/
def Since (drops : List Drop) (c : Task F) (tick : ℕ) : Prop :=
  ∀ d ∈ drops, d.DoneBefore c.key c.calledAt → d.calledAt ≤ tick

/-- The value that a caller has in hand, or will have computed, may be
returned. -/
def InHand (drops : List Drop) (c : Task F) : Prop :=
  match c.phase with
  | .computing _ => Since drops c (c.started.elim 0 Moment.tick)
  | .wasRead _ (some _) | .writing _ _ | .wasWritten _ _ | .releasing (.ok _)
  | .wasReleased (.ok _) => Since drops c c.source
  | .ended (.ok value) => value ≠ .none → Since drops c c.source
  | _ => True

/-- What a caller has read from an L2 that had been emptied is new enough to
promote. -/
def ReadSince (drops : List Drop) (c : Task F) : Prop :=
  match c.phase with
  | .wasRead _ (some _) => ∀ d ∈ drops, d.target.covers c.key = true →
      d.EmptiedBefore c.readAt → d.calledAt ≤ c.source
  | _ => True

namespace System

/-- What each step keeps: whatever is in a tier, or in the hands of a caller
that could still store it, is as new as the invalidations that it came after. -/
structure Clean (s : System F L) : Prop where
  called : ∀ d ∈ s.drops, d.calledAt < s.tick
  emptied : ∀ d ∈ s.drops, d.phase = .dropping → d.emptiedAt = none
  l1 : CleanL1 s.drops s.tiers
  l2 : CleanL2 s.drops s.tiers s.clock
  past : Each (fun c => c.calledAt < s.tick ∧ c.readAt < s.tick) s.tasks
  read : Each (ReadSince s.drops) s.tasks
  tasks : Each (InHand s.drops) s.tasks

theorem clean_ofTiers (tiers : Tiers F L) (clock : ℚ) : (ofTiers tiers clock).Clean where
  called := by simp [ofTiers]
  emptied := by simp [ofTiers]
  l1 := by simp [CleanL1, Records, ofTiers]
  l2 := by simp [CleanL2, ofTiers]
  past := each_nil
  read := each_nil
  tasks := each_nil

end System

/-- New invalidations that are not done by the call of the caller change
nothing. -/
theorem InHand.mono {drops drops' : List Drop} {c : Task F} (h : InHand drops c)
    (hnew : ∀ d ∈ drops', d.DoneBefore c.key c.calledAt → d ∈ drops) : InHand drops' c := by
  have hsince : ∀ tick, Since drops c tick → Since drops' c tick :=
    fun tick hc d hd hdone => hc d (hnew d hd hdone) hdone
  unfold InHand at h ⊢
  split <;> rename_i hphase <;> simp only [hphase] at h <;>
  first | exact hsince _ h | exact fun hvalue => hsince _ (h hvalue) | trivial

section Turns

variable {drops : List Drop} {s s' : Tiers F L} {m : Moment} {i : ℕ} {e : Event F}
  {old : Option (Task F)} {next : Tiers F L × Task F}

/-- An invalidation that has returned has emptied L2 before. -/
theorem Drop.DoneBefore.not_dropping {d : Drop} {key : String} {tick : ℕ}
    (h : d.DoneBefore key tick) : d.phase ≠ .dropping := by
  obtain ⟨-, returned, hreturned, -⟩ := h
  intro hphase
  simp [Drop.returnedAt, hphase] at hreturned

/-- Reading L1 adds no entry to it, so that those that are left are as new as
before. -/
theorem CleanL1.startGet (h : CleanL1 drops s) (c : Task F) (r : Reader) (m : Moment) :
    CleanL1 drops (startGet s c r m).1 := by
  have hsub := L1Cache.sub_get s.l1 c.key m.now
  rcases startGet_cases s c r m with ⟨value, -, -, hget⟩ | ⟨-, hget⟩ <;>
  · rw [hget]
    exact h.of_sub hsub

/-- A write to L1 that is new enough. -/
theorem CleanL1.set (h : CleanL1 drops s) {key : String} {value : Value F} {ttl : ℤ}
    {now : ℚ} {source : ℕ} (hl1 : s'.l1 = s.l1.set key value ttl now)
    (hsource : s'.l1Source = Function.update s.l1Source key source)
    (hnew : ∀ d ∈ drops, d.target.covers key = true → d.calledAt ≤ source) :
    CleanL1 drops s' := by
  rw [CleanL1, hl1, hsource]
  refine L1Cache.records_set (h.imp fun k entry hk hne d hd hcovers => ?_) fun _ d hd hcovers => ?_
  · rw [Function.update_of_ne hne]
    exact hk d hd hcovers
  · rw [Function.update_self]
    exact hnew d hd hcovers

/-- A caller that a hit in L1 serves. -/
theorem inHand_startGet (h : CleanL1 drops s) (c : Task F) (r : Reader) (m : Moment) :
    InHand drops (startGet s c r m).2 := by
  rcases startGet_cases s c r m with ⟨value, hvalue, hhit, hget⟩ | ⟨-, hget⟩ <;> rw [hget]
  · obtain ⟨entry, hlookup, -⟩ := L1Cache.get_hit hhit hvalue
    intro _ d hd hdone
    exact h _ _ hlookup d hd hdone.1
  · trivial

/-- A caller goes on with the value it has read. -/
theorem inHand_afterGet {c : Task F} {r : Reader} {value : Value F}
    (hcalled : ∀ d ∈ drops, d.calledAt < m.tick)
    (h : value ≠ .none → Since drops c c.source) : InHand drops (afterGet c r value m) := by
  rcases afterGet_cases c r value m with
    ⟨-, hget⟩ | ⟨-, -, hget⟩ | ⟨-, waits, -, -, hget⟩ | ⟨-, waits, -, -, hget⟩ <;> rw [hget]
  · exact h
  · trivial
  · trivial
  · exact fun d hd _ => (hcalled d hd).le

variable [PyFloat F]

/-- What the caller that moves has in hand may be returned. -/
theorem inHand_turn (h : Turn s m i e old next) (hl1 : CleanL1 drops s)
    (hl2 : CleanL2 drops s m.now) (hcalled : ∀ d ∈ drops, d.calledAt < m.tick)
    (hold : ∀ c ∈ old, InHand drops c) : InHand drops next.2 := by
  cases h with
  | call r => cases r <;> exact inHand_startGet hl1 _ _ _
  | wake hphase => exact inHand_startGet hl1 _ _ _
  | answerRead hphase =>
      rename_i c r
      cases htext : (L.get s.l2 c.key m.now).1 with
      | none => simp [InHand, answerRead, htext]
      | some text =>
          simp only [InHand, answerRead, htext]
          intro d hd hdone
          exact hl2 c.key m.now text le_rfl htext d hd hdone.1 hdone.not_dropping
  | afterRead hphase =>
      rename_i c r raw
      have hin := hold c rfl
      rcases afterRead_cases s c r raw m with
        ⟨-, hget⟩ | ⟨text, -, -, hget⟩ | ⟨text, value, hraw, -, hget⟩ <;> rw [hget]
      · exact inHand_afterGet hcalled fun hnone => absurd rfl hnone
      · trivial
      · subst hraw
        simp only [InHand, hphase] at hin
        exact inHand_afterGet hcalled fun _ => hin
  | answerLock hphase => trivial
  | afterLock hphase =>
      rename_i c granted
      cases granted with
      | true => exact fun d hd _ => (hcalled d hd).le
      | false => trivial
  | afterCompute outcome hphase =>
      rename_i c locked
      have hin := hold c rfl
      simp only [InHand, hphase] at hin
      cases outcome with
      | ok value => exact hin
      | error exc => cases locked <;> trivial
  | answerWrite hphase =>
      have hin := hold _ rfl
      simp only [InHand, hphase] at hin
      exact hin
  | afterWrite hphase =>
      rename_i c locked value
      have hin := hold c rfl
      simp only [InHand, hphase] at hin
      cases locked with
      | true => exact hin
      | false => exact fun _ => hin
  | answerRelease hphase =>
      rename_i c result
      have hin := hold c rfl
      simp only [InHand, hphase] at hin
      cases result with
      | ok value => exact hin
      | error exc => trivial
  | afterRelease hphase =>
      rename_i c result
      have hin := hold c rfl
      simp only [InHand, hphase] at hin
      cases result with
      | ok value => exact fun _ => hin
      | error exc => trivial

omit [PyFloat F] in
/-- A caller that goes on from a read has nothing in hand that it could still
promote. -/
theorem readSince_afterGet (c : Task F) (r : Reader) (value : Value F) (m : Moment) :
    ReadSince drops (afterGet c r value m) := by
  rcases afterGet_cases c r value m with
    ⟨-, hget⟩ | ⟨-, -, hget⟩ | ⟨-, waits, -, -, hget⟩ | ⟨-, waits, -, -, hget⟩ <;> rw [hget] <;>
  trivial

omit [PyFloat F] in
theorem readSince_startGet (s : Tiers F L) (c : Task F) (r : Reader) (m : Moment) :
    ReadSince drops (startGet s c r m).2 := by
  rcases startGet_cases s c r m with ⟨value, -, -, hget⟩ | ⟨-, hget⟩ <;> rw [hget] <;> trivial

/-- A read of L2 comes after every invalidation that has emptied it. -/
theorem readSince_turn (h : Turn s m i e old next) (hl2 : CleanL2 drops s m.now)
    (hemptied : ∀ d ∈ drops, d.phase = .dropping → d.emptiedAt = none) :
    ReadSince drops next.2 := by
  cases h with
  | call r => cases r <;> exact readSince_startGet _ _ _ _
  | wake hphase => exact readSince_startGet _ _ _ _
  | answerRead hphase =>
      rename_i c r
      cases htext : (L.get s.l2 c.key m.now).1 with
      | none => simp [ReadSince, answerRead, htext]
      | some text =>
          simp only [ReadSince, answerRead, htext]
          rintro d hd hcovers ⟨emptied, hsome, -⟩
          refine hl2 c.key m.now text le_rfl htext d hd hcovers fun hdropping => ?_
          rw [hemptied d hd hdropping] at hsome
          cases hsome
  | afterRead hphase =>
      rename_i c r raw
      rcases afterRead_cases s c r raw m with
        ⟨-, hget⟩ | ⟨text, -, -, hget⟩ | ⟨text, value, -, -, hget⟩ <;> rw [hget]
      · exact readSince_afterGet _ _ _ _
      · trivial
      · exact readSince_afterGet _ _ _ _
  | answerLock hphase => trivial
  | afterLock hphase =>
      rename_i c granted
      cases granted <;> trivial
  | afterCompute outcome hphase =>
      rename_i c locked
      cases outcome <;> cases locked <;> trivial
  | answerWrite hphase => trivial
  | afterWrite hphase =>
      rename_i c locked value
      cases locked <;> trivial
  | answerRelease hphase => trivial
  | afterRelease hphase => trivial

omit [PyFloat F] in
/-- An invalidation that moves does not come before a read that has been
made. -/
theorem ReadSince.drop {tick j : ℕ} {old : Option Drop} {next : Tiers F L × Drop}
    {drops' : List Drop} {c : Task F} (hc : ReadSince drops c) (h : DropTurn s tick j e old next)
    (hold : drops[j]? = old) (hdrops : Replaced drops drops' j next.2)
    (hread : c.readAt < tick) : ReadSince drops' c := by
  unfold ReadSince at hc ⊢
  split
  next r text hphase =>
      simp only [hphase] at hc
      rintro d hd hcovers ⟨emptied, hsome, hlt⟩
      rcases hdrops.mem hd with rfl | hd
      · cases h with
        | call d => cases hsome
        | answer hdropping =>
            obtain rfl := Option.some.inj hsome
            exact absurd hlt hread.not_gt
        | finish hdropped =>
            rename_i d' deleted
            exact hc d' (List.mem_of_getElem? hold) hcovers ⟨emptied, hsome, hlt⟩
      · exact hc d hd hcovers ⟨emptied, hsome, hlt⟩
  next => trivial

end Turns

namespace System

variable [PyFloat F] {s t : System F L} {e : Event F} {now : ℚ}

omit [PyFloat F] in
/-- What an invalidation has not emptied, it has not been answered for. -/
theorem emptied_drop {tick j : ℕ} {old : Option Drop} {next : Tiers F L × Drop}
    {drops : List Drop} (h : DropTurn s.tiers tick j e old next)
    (hs : ∀ d ∈ s.drops, d.phase = .dropping → d.emptiedAt = none)
    (hdrops : Replaced s.drops drops j next.2) :
    ∀ d ∈ drops, d.phase = .dropping → d.emptiedAt = none := by
  intro d hd hdropping
  rcases hdrops.mem hd with rfl | hd
  · cases h with
    | call d => rfl
    | answer hphase => cases hdropping
    | finish hphase => cases hdropping
  · exact hs d hd hdropping

/-- A caller that moves leaves L1 clean, if what it stores or promotes is new
enough. -/
theorem cleanL1_turn {m : Moment} {i : ℕ} {old : Option (Task F)}
    {next : Tiers F L × Task F} (h : Turn s.tiers m i e old next) (hold : s.tasks[i]? = old)
    (hl1 : CleanL1 s.drops s.tiers) (hread : ∀ c ∈ old, ReadSince s.drops c)
    (hstore : ∀ w ∈ s.storesL1 e, ∀ d ∈ s.drops, d.target.covers w.1 = true → d.calledAt ≤ w.2)
    (hpromote : ∀ c ∈ s.promotes e, ∀ d ∈ s.drops, d.target.covers c.key = true →
      ¬ d.EmptiedBefore c.readAt → d.calledAt ≤ c.source) : CleanL1 s.drops next.1 := by
  cases h with
  | call r => cases r <;> exact hl1.startGet _ _ _
  | wake hphase => exact hl1.startGet _ _ _
  | afterRead hphase =>
      rename_i c r raw
      rcases afterRead_cases s.tiers c r raw m with
        ⟨-, hget⟩ | ⟨text, -, -, hget⟩ | ⟨text, value, rfl, hloads, hget⟩ <;> rw [hget]
      · exact hl1
      · exact hl1
      · have hc : s.promotes (.act i .resumed) = some c := by
          simp [promotes, hold, hphase, hloads]
        have hsince := hread c rfl
        simp only [ReadSince, hphase] at hsince
        refine hl1.set rfl rfl fun d hd hcovers => ?_
        by_cases hemptied : d.EmptiedBefore c.readAt
        · exact hsince d hd hcovers hemptied
        · exact hpromote c hc d hd hcovers hemptied
  | afterCompute outcome hphase =>
      rename_i c locked
      cases outcome with
      | error exc => exact hl1
      | ok value =>
          have hw : s.storesL1 (.act i (.computed (.ok value))) =
              some (c.key, c.started.elim 0 Moment.tick) := by
            simp [storesL1, hold, hphase]
          exact hl1.set rfl rfl (hstore _ hw)
  | _ => exact hl1

/-- Likewise L2. -/
theorem cleanL2_turn {m : Moment} {i : ℕ} {old : Option (Task F)}
    {next : Tiers F L × Task F} (h : Turn s.tiers m i e old next) (hold : s.tasks[i]? = old)
    (hl2 : CleanL2 s.drops s.tiers m.now)
    (hwrite : ∀ w ∈ s.storesL2 e, ∀ d ∈ s.drops, d.target.covers w.1 = true →
      d.phase ≠ .dropping → d.calledAt ≤ w.2) : CleanL2 s.drops next.1 m.now := by
  intro key now text hnow htext
  rcases turn_cases h with hlocal | ⟨c, rfl, rfl, ⟨r, hphase, rfl⟩ |
    ⟨hphase, rfl⟩ | ⟨locked, value, hphase, rfl⟩ | ⟨result, hphase, rfl⟩⟩
  · rw [hlocal.l2] at htext
    rw [hlocal.l2Source]
    exact hl2 key now text hnow htext
  · exact hl2 key now text hnow ((L.text_get hnow).symm.trans htext)
  · exact hl2 key now text hnow (L.text_acquireLock.symm.trans htext)
  · by_cases hkey : key = c.key
    · subst hkey
      have hw : s.storesL2 (.act i .answered) = some (c.key, c.source) := by
        simp [storesL2, hold, hphase]
      simp only [answerWrite, Function.update_self]
      exact hwrite _ hw
    · simp only [answerWrite, Function.update_of_ne hkey]
      exact hl2 key now text hnow ((L.text_set_ne hkey).symm.trans htext)
  · exact hl2 key now text hnow (L.text_releaseLock.symm.trans htext)

omit [PyFloat F] in
/-- An invalidation leaves L1 clean. -/
theorem cleanL1_drop {tick j : ℕ} {old : Option Drop} {next : Tiers F L × Drop}
    {drops : List Drop} (h : DropTurn s.tiers tick j e old next) (hold : s.drops[j]? = old)
    (hl1 : CleanL1 s.drops s.tiers) (hdrops : Replaced s.drops drops j next.2) :
    CleanL1 drops next.1 := by
  intro key entry hlookup d hd hcovers
  cases h with
  | call d' =>
      obtain ⟨hnot, hbefore⟩ := lookup_dropL1 hlookup
      simp only [l1Source_dropL1]
      rcases hdrops.mem hd with rfl | hd
      · rw [hnot] at hcovers
        cases hcovers
      · exact hl1 key entry hbefore d hd hcovers
  | answer hphase =>
      rename_i d'
      simp only [l1_dropL2] at hlookup
      simp only [l1Source_dropL2]
      rcases hdrops.mem hd with rfl | hd
      · exact hl1 key entry hlookup d' (List.mem_of_getElem? hold) hcovers
      · exact hl1 key entry hlookup d hd hcovers
  | finish hphase =>
      rename_i d' deleted
      rcases hdrops.mem hd with rfl | hd
      · exact hl1 key entry hlookup d' (List.mem_of_getElem? hold) hcovers
      · exact hl1 key entry hlookup d hd hcovers

omit [PyFloat F] in
/-- Likewise L2: when the backend has answered, it has no key of the
invalidation. -/
theorem cleanL2_drop {tick j : ℕ} {old : Option Drop} {next : Tiers F L × Drop}
    {drops : List Drop} (h : DropTurn s.tiers tick j e old next) (hold : s.drops[j]? = old)
    (hl2 : CleanL2 s.drops s.tiers now) (hdrops : Replaced s.drops drops j next.2) :
    CleanL2 drops next.1 now := by
  intro key now' text hnow htext d hd hcovers hdone
  cases h with
  | call d' =>
      simp only [l2_dropL1] at htext
      simp only [l2Source_dropL1]
      rcases hdrops.mem hd with rfl | hd
      · exact absurd rfl hdone
      · exact hl2 key now' text hnow htext d hd hcovers hdone
  | answer hphase =>
      rename_i d'
      simp only [l2Source_dropL2]
      rw [text_dropL2] at htext
      split at htext
      next => cases htext
      next hnot =>
          rcases hdrops.mem hd with rfl | hd
          · exact absurd hcovers hnot
          · exact hl2 key now' text hnow htext d hd hcovers hdone
  | finish hphase =>
      rename_i d' deleted
      rcases hdrops.mem hd with rfl | hd
      · have hemptied : d'.phase ≠ .dropping := by
          rw [hphase]
          exact DropPhase.noConfusion
        exact hl2 key now' text hnow htext d' (List.mem_of_getElem? hold) hcovers hemptied
      · exact hl2 key now' text hnow htext d hd hcovers hdone

/-- Callers have called, and read, before. -/
theorem past_turn {s : Tiers F L} {m : Moment} {i : ℕ} {old : Option (Task F)}
    {next : Tiers F L × Task F} (h : Turn s m i e old next)
    (hold : ∀ c ∈ old, c.calledAt < m.tick ∧ c.readAt < m.tick) :
    next.2.calledAt < m.tick + 1 ∧ next.2.readAt < m.tick + 1 := by
  rw [calledAt_turn h]
  constructor
  · cases old with
    | none => exact Nat.lt_succ_self _
    | some c => exact (hold c rfl).1.trans (Nat.lt_succ_self _)
  · exact readAt_lt_turn h fun c hc => (hold c hc).2

/-- While nothing old is stored in a tier that has been emptied, or promoted
from before, the tiers are clean. -/
theorem clean_step (hs : s.Clean) (h : Step s (e, now) t) (hwrite : NoOldWrite s (e, now) t) :
    t.Clean := by
  obtain ⟨hclock, htclock, htick, hmoves⟩ := step_cases h
  cases hmoves with
  | task i old next hold hturn htiers htasks hdrops =>
      have hl2 : CleanL2 s.drops s.tiers now :=
        fun key now' text hnow => hs.l2 key now' text (hclock.trans hnow)
      obtain ⟨hstoreL1, hstoreL2, hpromote⟩ := hwrite
      refine ⟨?_, ?_, ?_, ?_, ?_, ?_, ?_⟩
      · rw [hdrops, htick]
        exact fun d hd => (hs.called d hd).trans (Nat.lt_succ_self _)
      · rw [hdrops]
        exact hs.emptied
      · rw [hdrops, htiers]
        exact cleanL1_turn hturn hold hs.l1 (fun c hc => hs.read i c (hold.trans hc)) hstoreL1
          hpromote
      · rw [hdrops, htiers, htclock]
        exact cleanL2_turn hturn hold hl2 hstoreL2
      · rw [htick]
        exact htasks.each hs.past (fun j b _ _ hb => ⟨hb.1.trans (Nat.lt_succ_self _),
          hb.2.trans (Nat.lt_succ_self _)⟩)
          (past_turn hturn fun c hc => hs.past i c (hold.trans hc))
      · rw [hdrops]
        exact htasks.each hs.read (fun j b _ _ hb => hb) (readSince_turn hturn hl2 hs.emptied)
      · rw [hdrops]
        refine htasks.each hs.tasks (fun j b _ _ hb => hb) ?_
        exact inHand_turn hturn hs.l1 hl2 hs.called fun c hc => hs.tasks i c (hold.trans hc)
  | drop j old next hold hturn htiers hdrops htasks =>
      refine ⟨?_, ?_, ?_, ?_, ?_, ?_, ?_⟩
      · rw [htick]
        intro d hd
        rcases hdrops.mem hd with rfl | hd
        · cases hturn with
          | call d => exact Nat.lt_succ_self _
          | answer hphase =>
              exact (hs.called _ (List.mem_of_getElem? hold)).trans (Nat.lt_succ_self _)
          | finish hphase =>
              exact (hs.called _ (List.mem_of_getElem? hold)).trans (Nat.lt_succ_self _)
        · exact (hs.called d hd).trans (Nat.lt_succ_self _)
      · exact emptied_drop hturn hs.emptied hdrops
      · rw [htiers]
        exact cleanL1_drop hturn hold hs.l1 hdrops
      · rw [htiers, htclock]
        exact cleanL2_drop hturn hold (fun key now' text hnow => hs.l2 key now' text
          (hclock.trans hnow)) hdrops
      · rw [htasks, htick]
        exact hs.past.imp fun c hc => ⟨hc.1.trans (Nat.lt_succ_self _),
          hc.2.trans (Nat.lt_succ_self _)⟩
      · rw [htasks]
        intro k c hc
        exact (hs.read k c hc).drop hturn hold hdrops (hs.past k c hc).2
      · rw [htasks]
        intro k c hc
        apply (hs.tasks k c hc).mono
        intro d hd hdone
        rcases hdrops.mem hd with rfl | hd
        · -- what is done with this event is not done before an earlier call
          have hpast := (hs.past k c hc).1
          obtain ⟨-, returned, hreturned, hlt⟩ := hdone
          cases hturn with
          | call d => simp [Drop.returnedAt] at hreturned
          | answer hphase => simp [Drop.returnedAt] at hreturned
          | finish hphase =>
              obtain rfl : s.tick = returned := by simpa [Drop.returnedAt] using hreturned
              omega
        · exact hd

omit [PyFloat F] in
/-- Then what calls return is fresh. -/
theorem freshReturns_of_clean (ht : t.Clean) : FreshReturns s (e, now) t := by
  intro c hc hreturns d hd hdone
  obtain ⟨j, hj⟩ := List.mem_iff_getElem?.mp hc
  have hin := ht.tasks j c hj
  unfold Task.returnsValue at hreturns
  split at hreturns
  next => cases hreturns
  next value hvalue hphase =>
      simp only [InHand, hphase] at hin
      exact hin hvalue d hd hdone
  next => cases hreturns

end System

/-- The key of a call, for the tests. -/
def readKey : String := "atlas:acme:s3.get_object:0"

/-- A caller that computes, and stores what it computed. -/
def computesAndStores (i : ℕ) (value : Value WholeFloat) (now : ℚ) :
    List (Event WholeFloat × ℚ) :=
  [(.act i (.computed (.ok value)), now), (.act i .answered, now), (.act i .resumed, now),
    (.act i .answered, now), (.act i .resumed, now)]

/-- An invalidation of all that the tenant has. -/
def tenantDropped (now : ℚ) : List (Event WholeFloat × ℚ) :=
  [(.invalidate (.invalidateTenant "acme"), now), (.dropAnswered 0, now),
    (.dropReturned 0, now)]

/-- The value is dropped before it is asked for again. -/
def droppedBetween : List (Event WholeFloat × ℚ) :=
  (.call (.getOrCompute readKey none), 0) :: asksForLock 0 0 ++
    computesAndStores 0 (.int 1) 1 ++ tenantDropped 2 ++
    (.call (.getOrCompute readKey none), 3) :: asksForLock 1 3 ++
    computesAndStores 1 (.int 2) 4 ++ [(.call (.get readKey), 5)]

/-- The tenant is dropped while a value of it is computed. -/
def droppedWhileComputing : List (Event WholeFloat × ℚ) :=
  (.call (.getOrCompute readKey none), 0) :: asksForLock 0 0 ++ tenantDropped 1 ++
    computesAndStores 0 (.int 1) 2

end SharedCache
