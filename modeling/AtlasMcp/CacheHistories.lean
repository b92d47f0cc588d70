import AtlasMcp.CacheStaleness
import AtlasMcp.FlightTurns

/-!
# What a cache remembers

The two tiers of a cache manager expire, evict and are refilled independently.  Still a read
finds nothing, or the value that was set last under its key, and nothing if that was removed
since (`get_of_history`): every entry of either tier holds this value (`Coherent`).
-/

namespace Cache

open PyJson PyText Errors StoreRecords
open SharedCache (IsJson)

variable {F : Type}

/-- The call is a deletion of the key or an invalidation that covers it. -/
def Call.removes (key : String) : Call F → Bool
  | .delete k | .invalidateKey k => k = key
  | .invalidateTool tenant tool => startsWith key ("atlas:" ++ tenant ++ ":" ++ tool ++ ":")
  | .invalidateTenant tenant => startsWith key ("atlas:" ++ tenant ++ ":")
  | .get _ | .set _ _ _ => false

/-- The value set last under a key, unless it was removed, after one more
call. -/
def Call.latest (prior : String → Option (Value F)) (call : Call F) (key : String) :
    Option (Value F) :=
  match call with
  | .set k value _ => if k = key then some value else prior key
  | call => if call.removes key then none else prior key

/-- The value set last under a key, unless it was removed since. -/
def latest (calls : List (Call F × ℚ)) : String → Option (Value F) :=
  calls.foldl (fun prior e => e.1.latest prior) fun _ => none

/-- The call sets only a value other than `None` that JSON can express. -/
def Call.SetsJson : Call F → Prop
  | .set _ value _ => IsJson value
  | _ => True

/-- The latest value of a key depends on the last call, and on those before
it. -/
theorem latest_concat (calls : List (Call F × ℚ)) (e : Call F × ℚ) :
    latest (calls ++ [e]) = e.1.latest (latest calls) := by
  simp [latest]

namespace CacheManager

variable {P : String → L1Entry F → Prop} {Q : String → String × ℚ → Prop}
  {m : CacheManager F}

/-- No entry of the key is left. -/
theorem Holds.delete_ne (hm : m.Holds P Q) (key : String) :
    (m.delete key).Holds (fun k e => key ≠ k ∧ P k e) (fun k e => key ≠ k ∧ Q k e) := by
  have hgone : ∀ {β : Type} (s : AList fun _ : String => β) (k : String) (e : β),
      (s.erase key).lookup k = some e → key ≠ k := by
    rintro β s k e hlookup rfl
    simp at hlookup
  exact ⟨fun k e h => ⟨hgone _ k e h, (hm.delete key).inL1 k e h⟩,
    fun k e h => ⟨hgone _ k e h, (hm.delete key).inL2 k e h⟩⟩

/-- No entry of a key with the prefix is left. -/
theorem Holds.invalidatePrefix_ne (hm : m.Holds P Q) (pre : String) :
    (m.invalidatePrefix pre).2.Holds (fun k e => startsWith k pre = false ∧ P k e)
      (fun k e => startsWith k pre = false ∧ Q k e) := by
  have hgone : ∀ {β : Type} (s : AList fun _ : String => β) (k : String) (e : β),
      (eraseAll s (s.keys.filter fun k => startsWith k pre)).lookup k = some e →
        startsWith k pre = false := by
    intro β s k e hlookup
    rw [lookup_eraseAll_filter] at hlookup
    by_contra hpre
    simp [hpre] at hlookup
  exact ⟨fun k e h => ⟨hgone _ k e h, (hm.invalidatePrefix pre).inL1 k e h⟩,
    fun k e h => ⟨hgone _ k e h, (hm.invalidatePrefix pre).inL2 k e h⟩⟩

section History

variable [PyFloat F]

/-- If the texts of L2 can be read, a read does not fail. -/
theorem Holds.get_ok (hm : m.Holds P fun _ e => ∃ v : Value F, loads e.1 = some v)
    (key : String) (now : ℚ) : ∃ v, (m.get key now).1 = .ok v := by
  by_cases hhit : (m.l1.get key now).1 = .none
  · cases hraw : (m.l2.get key now).1 with
    | none => exact ⟨.none, by simp only [CacheManager.get, hhit, hraw]⟩
    | some raw =>
        obtain ⟨expiresAt, hlookup, -⟩ := InMemoryL2.get_hit hraw
        obtain ⟨v, hloads⟩ := hm.inL2 _ _ hlookup
        exact ⟨v, by simp only [CacheManager.get, hhit, hraw, hloads]⟩
  · refine ⟨(m.l1.get key now).1, ?_⟩
    simp only [CacheManager.get]

/-- The manager after the calls, each made at its time. -/
def history (settings : ServerSettings) (calls : List (Call F × ℚ)) : CacheManager F :=
  calls.foldl (fun m e => m.after e.2 e.1) (start settings)

/-- The cache after a history is the one before its last call, after that
call. -/
theorem history_concat (settings : ServerSettings) (calls : List (Call F × ℚ))
    (e : Call F × ℚ) :
    history settings (calls ++ [e]) = (history settings calls).after e.2 e.1 := by
  simp [history]

/-- Each entry of both tiers holds the value set last under its key.  An entry
may be missing, but none is left from before. -/
def Coherent (m : CacheManager F) (values : String → Option (Value F)) : Prop :=
  m.Holds (fun k e => values k = some e.value)
    (fun k e => ∃ v, values k = some v ∧ e.1 = dumps v ∧ loads (dumps v) = some v)

/-- Removing keeps this, if what is left is of other keys. -/
theorem Coherent.removed {values : String → Option (Value F)} {call : Call F} {kept : String → Prop}
    {m : CacheManager F}
    (hm : m.Holds (fun k e => kept k ∧ values k = some e.value)
      (fun k e => kept k ∧ ∃ v, values k = some v ∧ e.1 = dumps v ∧ loads (dumps v) = some v))
    (hkept : ∀ k, kept k → call.latest values k = values k) : m.Coherent (call.latest values) := by
  refine hm.imp ?_ ?_
  · rintro k e ⟨hk, he⟩
    rwa [hkept k hk]
  · rintro k e ⟨hk, he⟩
    rwa [hkept k hk]

/-- **Every call keeps the tiers coherent.** -/
theorem Coherent.after {values : String → Option (Value F)} (hm : m.Coherent values)
    {call : Call F} (hjson : call.SetsJson) (now : ℚ) :
    (m.after now call).Coherent (call.latest values) := by
  cases call with
  | get key =>
      apply CacheManager.Holds.get hm
      intro raw expiresAt v hlookup _ hloads _ _
      obtain ⟨w, hw, (hraw : raw = dumps w), hread⟩ := hm.inL2 _ _ hlookup
      rw [hraw, hread] at hloads
      obtain rfl := Option.some.inj hloads
      exact hw
  | set key value ttl =>
      have hset : Call.latest values (.set key value ttl) key = some value := if_pos rfl
      have hother : ∀ k ≠ key, Call.latest values (.set key value ttl) k = values k :=
        fun k hk => if_neg (Ne.symm hk)
      refine CacheManager.Holds.set (CacheManager.Holds.imp hm ?_ ?_) hset
        ⟨value, hset, rfl, IsJson.loads_dumps hjson⟩
      · intro k e he hk
        rwa [hother k hk]
      · intro k e he hk
        rwa [hother k hk]
  | delete key =>
      exact Coherent.removed (Holds.delete_ne hm key) fun k hk =>
        if_neg (by simpa [Call.removes] using hk)
  | invalidateKey key =>
      exact Coherent.removed (Holds.delete_ne hm key) fun k hk =>
        if_neg (by simpa [Call.removes] using hk)
  | invalidateTool tenant tool =>
      exact Coherent.removed (Holds.invalidatePrefix_ne hm _) fun k hk =>
        if_neg (Bool.not_eq_true _ ▸ hk)
  | invalidateTenant tenant =>
      exact Coherent.removed (Holds.invalidatePrefix_ne hm _) fun k hk =>
        if_neg (Bool.not_eq_true _ ▸ hk)

/-- The tiers cohere after every history in which only JSON is stored. -/
theorem coherent_history (settings : ServerSettings) {calls : List (Call F × ℚ)}
    (hjson : ∀ e ∈ calls, e.1.SetsJson) :
    (history settings calls).Coherent (latest calls) := by
  induction calls using List.reverseRecOn with
  | nil => exact holds_start settings
  | append_singleton calls e ih =>
      rw [history_concat, latest_concat]
      have hcalls := ih fun e' he' => hjson e' (List.mem_append_left _ he')
      exact hcalls.after (hjson e (List.mem_append_right _ (List.mem_singleton_self _))) e.2

/-- **A read finds what was set last, or nothing.**  After any calls of a
manager, with any times to live and any room in L1: a read finds nothing, or
the value set last under its key, if it was not removed since. -/
theorem get_of_history (settings : ServerSettings) (calls : List (Call F × ℚ))
    (hjson : ∀ e ∈ calls, e.1.SetsJson) (key : String) (now : ℚ) :
    ((history settings calls).get key now).1 = .ok .none ∨
      ∃ v, latest calls key = some v ∧ ((history settings calls).get key now).1 = .ok v := by
  have hcoherent := coherent_history settings hjson
  obtain ⟨v, hv⟩ := Holds.get_ok (hcoherent.imp (fun _ _ h => h)
    fun k e ⟨w, _, hraw, hread⟩ => ⟨w, by rw [hraw, hread]⟩) key now
  by_cases hnone : v = .none
  · exact Or.inl (hnone ▸ hv)
  · refine Or.inr ⟨v, ?_, hv⟩
    rcases CacheManager.Holds.get_value hcoherent hv hnone with
      ⟨entry, hentry, -, rfl⟩ | ⟨raw, expiresAt, ⟨w, hw, hraw, hread⟩, -, hloads⟩
    · exact hentry
    · rw [hw, ← hread, ← hloads]
      exact congrArg loads hraw.symm

end History

end CacheManager

/-- Set twice, and read. -/
def overwritten : List (Call WholeFloat × ℚ) :=
  [(.set "k" (.int 1) none, 0), (.set "k" (.int 2) (some 100), 1), (.get "k", 2)]

/-- A read after a write of another value: it misses, or returns the new
one. -/
theorem overwritten_read :
    ((CacheManager.history {} overwritten).get "k" 3).1 = .ok .none ∨
      ∃ v, latest overwritten "k" = some v ∧
        ((CacheManager.history {} overwritten).get "k" 3).1 = .ok v := by
  have hjson : ∀ n : ℤ, IsJson (.int n : Value WholeFloat) := fun n => ⟨trivial, trivial, by simp⟩
  refine CacheManager.get_of_history {} overwritten ?_ "k" 3
  intro e he
  simp only [overwritten, List.mem_cons, List.not_mem_nil, or_false] at he
  rcases he with rfl | rfl | rfl
  · exact hjson 1
  · exact hjson 2
  · trivial

end Cache
