import AtlasMcp.CacheHistories
import AtlasMcp.ComponentRuns

/-!
# Replicas of a cache

Replicas of a server have each an L1 of its own, in front of the one L2 that they share.  A
write or an invalidation empties the L1 of the replica that makes it, and reaches the others
only as their entries expire.

The shared backend is the one in memory, which answers without waiting, so that a call of a
manager is one event; over a backend that takes its time, a promotion could follow the write of
another replica.  The values written are JSON values, which L2 gives back as they are.

So replicas may disagree, but not for long: what a read of any replica returns was current
under its key, as one cache would have it, at a time no longer ago than an entry of L1 lives
(`read_within_life`).  `Recent` is what every entry of every L1 keeps: it holds a value that
was current when the entry was made.
-/

namespace Cache

open PyJson PyText Errors StoreRecords GuardedRuns
open SharedCache (IsJson)

variable {F : Type}

/-- Cache managers over one backend, by the number of their replica. -/
structure Fleet (F : Type) where
  managers : ℕ → CacheManager F
  l2 : InMemoryL2

/-- A call of the manager of a replica. -/
structure FleetCall (F : Type) where
  replica : ℕ
  call : Call F
  now : ℚ

namespace Fleet

/-- New replicas, all with these settings. -/
def start (settings : ServerSettings) : Fleet F where
  managers _ := .start settings
  l2 := {}

/-- The manager of a replica, with the backend as it is. -/
def manager (s : Fleet F) (i : ℕ) : CacheManager F := { s.managers i with l2 := s.l2 }

/-- The calls that were made, without the replicas that made them. -/
def calls (history : List (FleetCall F)) : List (Call F × ℚ) :=
  history.map fun e => (e.call, e.now)

section Steps

variable [PyFloat F]

/-- A replica takes the next call, over the second tier that all of them
share. -/
def step (s : Fleet F) (e : FleetCall F) : Option (Fleet F) :=
  let m := (s.manager e.replica).after e.now e.call
  some { managers := Function.update s.managers e.replica m, l2 := m.l2 }

/-- One call on one of the replicas.  The others keep their first tiers, and
share the second one. -/
def Step (s : Fleet F) (e : FleetCall F) (t : Fleet F) : Prop := s.step e = some t

/-- Calls happen at times that do not decrease. -/
abbrev TimedStep : Fleet F × ℚ → FleetCall F → Fleet F × ℚ → Prop :=
  Clocked Step fun e => some e.now

end Steps

/-! ## What the tiers hold -/

/-- The value was current under the key after some of the calls, and all
others came after `since`. -/
def CurrentSince (since : ℚ) (history : List (Call F × ℚ)) (key : String) (v : Value F) : Prop :=
  ∃ before after, history = before ++ after ∧ latest before key = some v ∧
    ∀ e ∈ after, since ≤ e.2

/-- An L1 entry that may live so long holds a value that was current when it
was made. -/
def Recent (life : ℤ) (history : List (Call F × ℚ)) (clock : ℚ) (key : String)
    (entry : L1Entry F) : Prop :=
  entry.expiresAt ≤ clock + life ∧
    CurrentSince (entry.expiresAt - life) history key entry.value

/-- An L2 entry holds the text of the current value, which reads as that. -/
def CurrentText (history : List (Call F × ℚ)) [PyFloat F] (key : String)
    (entry : String × ℚ) : Prop :=
  ∃ v, latest history key = some v ∧ entry.1 = dumps v ∧ loads (dumps v) = some v

section Entries

variable {life : ℤ} {history : List (Call F × ℚ)} {clock now since : ℚ} {key : String}
  {v : Value F}

/-- The current value is. -/
theorem currentSince_latest (h : latest history key = some v) :
    CurrentSince since history key v :=
  ⟨history, [], by simp, h, by simp⟩

/-- What was current since a time was so since an earlier one. -/
theorem CurrentSince.mono {since' : ℚ} (h : CurrentSince since history key v)
    (hle : since' ≤ since) : CurrentSince since' history key v := by
  obtain ⟨before, after, rfl, hlatest, hafter⟩ := h
  exact ⟨before, after, rfl, hlatest, fun e he => hle.trans (hafter e he)⟩

/-- A later call leaves an entry recent. -/
theorem Recent.later {entry : L1Entry F} (h : Recent life history clock key entry)
    (hle : clock ≤ now) (call : Call F) :
    Recent life (history ++ [(call, now)]) now key entry := by
  obtain ⟨hexpires, before, after, rfl, hlatest, hafter⟩ := h
  refine ⟨by linarith, before, after ++ [(call, now)], by simp, hlatest, fun e he => ?_⟩
  rcases List.mem_append.mp he with he | he
  · exact hafter e he
  · obtain rfl := List.mem_singleton.mp he
    dsimp only
    linarith

/-- An entry that is made now with a value that is current now. -/
theorem recent_of_latest {entry : L1Entry F} (h : latest history key = some entry.value)
    (hexpires : entry.expiresAt ≤ clock + life) : Recent life history clock key entry :=
  ⟨hexpires, currentSince_latest h⟩

variable [PyFloat F]

/-- A call that neither writes nor removes the key leaves its text current. -/
theorem CurrentText.later {entry : String × ℚ} (h : CurrentText history key entry)
    {call : Call F} (hsame : call.latest (latest history) key = latest history key) :
    CurrentText (history ++ [(call, now)]) key entry := by
  obtain ⟨v, hlatest, hraw, hloads⟩ := h
  refine ⟨v, ?_, hraw, hloads⟩
  rw [latest_concat]
  exact hsame.trans hlatest

end Entries

/-- The entries of all replicas are recent, and those of the backend
current. -/
structure Bounded [PyFloat F] (settings : ServerSettings) (history : List (Call F × ℚ))
    (s : Fleet F × ℚ) : Prop where
  configured : ∀ i, (s.1.managers i).settings = settings
  l1 : ∀ i, Records (Recent settings.cacheL1TtlSeconds history s.2) (s.1.managers i).l1.store
  l2 : Records (CurrentText history) s.1.l2.store

section Runs

variable [PyFloat F] {settings : ServerSettings} {history : List (Call F × ℚ)}
  {m : CacheManager F} {clock now : ℚ}

/-- **A call of one manager.**  It keeps its own entries recent and those of
the backend current. -/
theorem holds_after
    (hm : m.Holds (Recent m.settings.cacheL1TtlSeconds history clock) (CurrentText history))
    {call : Call F} (hjson : call.SetsJson) (hle : clock ≤ now) :
    (m.after now call).Holds
      (Recent m.settings.cacheL1TtlSeconds (history ++ [(call, now)]) now)
      (CurrentText (history ++ [(call, now)])) := by
  -- what is left, if nothing of the key is written or removed
  have hlater : ∀ k entry, Recent m.settings.cacheL1TtlSeconds history clock k entry →
      Recent m.settings.cacheL1TtlSeconds (history ++ [(call, now)]) now k entry :=
    fun k entry h => h.later hle call
  cases call with
  | get key =>
      have hsame : ∀ k, latest (history ++ [(.get key, now)]) k = latest history k := by
        intro k
        rw [latest_concat]
        rfl
      have hcurrent : ∀ k entry, CurrentText history k entry →
          CurrentText (history ++ [(.get key, now)]) k entry :=
        fun k entry h => h.later (by simpa only [latest_concat] using hsame k)
      have hold := hm.imp hlater hcurrent
      apply CacheManager.Holds.get hold
      intro raw expiresAt v hlookup _ hloads _ _
      obtain ⟨w, hw, (hraw : raw = dumps w), hread⟩ := hold.inL2 _ _ hlookup
      rw [hraw, hread] at hloads
      obtain rfl := Option.some.inj hloads
      exact recent_of_latest hw (le_refl _)
  | set key value ttl =>
      have hset : latest (history ++ [(.set key value ttl, now)]) key = some value := by
        rw [latest_concat]
        exact if_pos rfl
      have hother : ∀ k ≠ key, Call.latest (latest history) (.set key value ttl) k =
          latest history k := fun k hk => if_neg (Ne.symm hk)
      refine CacheManager.Holds.set (hm.imp (fun k entry h _ => hlater k entry h)
        fun k entry h hk => h.later (hother k hk)) ?_ ⟨value, hset, rfl, IsJson.loads_dumps hjson⟩
      apply recent_of_latest hset
      dsimp only
      gcongr
      exact min_le_right _ _
  | delete key | invalidateKey key =>
      refine (CacheManager.Holds.delete_ne hm key).imp (fun k entry h => hlater k entry h.2)
        fun k entry h => h.2.later ?_
      exact if_neg (by simpa [Call.removes] using h.1)
  | invalidateTool tenant tool | invalidateTenant tenant =>
      refine (CacheManager.Holds.invalidatePrefix_ne hm _).imp
        (fun k entry h => hlater k entry h.2) fun k entry h => h.2.later ?_
      exact if_neg (by rw [Call.removes, h.1]; simp)

theorem settings_after (m : CacheManager F) (now : ℚ) (call : Call F) :
    (m.after now call).settings = m.settings := by
  cases call with
  | get key =>
      rcases m.get_cases key now with
        ⟨v, -, -, heq⟩ | ⟨raw, v, -, -, -, heq⟩ | ⟨r, misses, -, heq⟩ <;>
        simp only [CacheManager.after, heq]
  | _ => rfl

/-- **A call of a replica keeps all of them within bounds.** -/
theorem Bounded.step {s t : Fleet F × ℚ} {e : FleetCall F}
    (hs : Bounded settings history s) (hjson : e.call.SetsJson) (h : TimedStep s e t) :
    Bounded settings (history ++ [(e.call, e.now)]) t := by
  obtain ⟨s', now⟩ := t
  obtain ⟨hstep, hle, hclock⟩ := h
  obtain rfl : now = e.now := hclock
  obtain rfl := Option.some.inj hstep
  have hsettings : (s.1.manager e.replica).settings = settings := hs.configured e.replica
  have hm : (s.1.manager e.replica).Holds
      (Recent settings.cacheL1TtlSeconds history s.2) (CurrentText history) :=
    ⟨hs.l1 e.replica, hs.l2⟩
  rw [← hsettings] at hm
  have hafter := holds_after hm hjson hle
  rw [hsettings] at hafter
  refine ⟨fun i => ?_, fun i => ?_, hafter.inL2⟩
  · by_cases hi : i = e.replica
    · rw [hi]
      simp only [Function.update_self]
      exact (settings_after _ _ _).trans hsettings
    · simp only [Function.update_of_ne hi]
      exact hs.configured i
  · by_cases hi : i = e.replica
    · rw [hi]
      simp only [Function.update_self]
      exact hafter.inL1
    · -- another replica has only grown older
      simp only [Function.update_of_ne hi]
      exact (hs.l1 i).imp fun k entry h => h.later hle e.call

/-- In every run, what is in the tiers is no older than its life allows. -/
theorem bounded_of_run {settings : ServerSettings} {clock : ℚ} {events : List (FleetCall F)}
    {t : Fleet F × ℚ} (hrun : Run TimedStep (start settings, clock) events t)
    (hjson : ∀ e ∈ events, e.call.SetsJson) : Bounded settings (calls events) t := by
  induction hrun with
  | nil => exact ⟨fun _ => rfl, fun _ => records_empty, records_empty⟩
  | @snoc events e s t _ hlast ih =>
      have hbefore := ih fun e' he' => hjson e' (List.mem_append_left _ he')
      have hcalls : calls (events ++ [e]) = calls events ++ [(e.call, e.now)] := by
        simp [calls]
      rw [hcalls]
      exact hbefore.step (hjson e (List.mem_append_right _ (List.mem_singleton_self e))) hlast

/-- **Replicas disagree for no longer than an entry lives.**  After any calls
of any replicas, with any times to live and any room in their L1: a read of
any replica finds nothing, or a value that was current under its key after
some of the calls, and all calls since then were made within the life of an L1
entry. -/
theorem read_within_life (settings : ServerSettings) {clock : ℚ} {events : List (FleetCall F)}
    {t : Fleet F × ℚ} (hrun : Run TimedStep (start settings, clock) events t)
    (hjson : ∀ e ∈ events, e.call.SetsJson) (i : ℕ) (key : String) (now : ℚ) :
    ((t.1.manager i).get key now).1 = .ok .none ∨
      ∃ v, ((t.1.manager i).get key now).1 = .ok v ∧
        CurrentSince (now - settings.cacheL1TtlSeconds) (calls events) key v := by
  have hbounded := bounded_of_run hrun hjson
  have hm : (t.1.manager i).Holds
      (Recent settings.cacheL1TtlSeconds (calls events) t.2) (CurrentText (calls events)) :=
    ⟨hbounded.l1 i, hbounded.l2⟩
  obtain ⟨v, hv⟩ := CacheManager.Holds.get_ok (hm.imp (fun _ _ h => h)
    fun k entry ⟨w, _, hraw, hread⟩ => ⟨w, by rw [hraw, hread]⟩) key now
  by_cases hnone : v = .none
  · exact Or.inl (hnone ▸ hv)
  · refine Or.inr ⟨v, hv, ?_⟩
    rcases CacheManager.Holds.get_value hm hv hnone with
      ⟨entry, ⟨-, hcurrent⟩, hlive, rfl⟩ | ⟨raw, expiresAt, ⟨w, hw, hraw, hread⟩, -, hloads⟩
    · exact hcurrent.mono (by linarith)
    · apply currentSince_latest
      rw [hw, ← hread, ← hloads]
      exact congrArg loads hraw.symm

end Runs

end Fleet

/-- One replica reads a value, another overwrites it, and the first does not
notice. -/
def overwrittenElsewhere : List (FleetCall WholeFloat) :=
  [⟨0, .set "k" (.int 1) none, 0⟩, ⟨1, .get "k", 1⟩, ⟨0, .set "k" (.int 2) none, 2⟩]

/-- It reads the old value, which was current less than the life of an entry
ago. -/
theorem old_value_read_within_life : ∃ t,
    Run Fleet.TimedStep (Fleet.start ({} : ServerSettings), 0) overwrittenElsewhere t ∧
    (((t.1.manager 1).get "k" 3).1 = .ok .none ∨
      ∃ v, ((t.1.manager 1).get "k" 3).1 = .ok v ∧
        Fleet.CurrentSince (3 - ({} : ServerSettings).cacheL1TtlSeconds)
          (Fleet.calls overwrittenElsewhere) "k" v) ∧
    (match ((t.1.manager 1).get "k" 3).1 with | .ok (.int 1) => true | _ => false) = true := by
  obtain ⟨t, ht, hold⟩ : ∃ t ∈ exec (clockedStep Fleet.step fun e => some e.now)
      (Fleet.start ({} : ServerSettings), 0) overwrittenElsewhere,
      (match ((t.1.manager 1).get "k" 3).1 with | .ok (.int 1) => true | _ => false) = true := by
    decide +kernel
  have hint : ∀ n : ℤ, IsJson (.int n : Value WholeFloat) := fun n => ⟨trivial, trivial, by simp⟩
  have hjson : ∀ e ∈ overwrittenElsewhere, e.call.SetsJson := by
    intro e he
    simp only [overwrittenElsewhere, List.mem_cons, List.not_mem_nil, or_false] at he
    rcases he with rfl | rfl | rfl
    · exact hint 1
    · trivial
    · exact hint 2
  have hrun := Run.of_exec_clocked ht
  exact ⟨t, hrun, Fleet.read_within_life {} hrun hjson 1 "k" 3, hold⟩

end Cache
