import AtlasMcp.JsonRoundTrip
import AtlasMcp.ErrorFramework
import AtlasMcp.ServerSettings
import AtlasMcp.StoreRecords

/-!
# The two cache tiers and their manager

`L1Cache` is the in-process LRU, `InMemoryL2` the single-process backend of the
shared tier, and `CacheManager` puts one in front of the other: a read that L1
misses and L2 serves is promoted to L1, and a write goes to both.

None of their methods suspends: the lock of L1 is never held across an await, and
the backend awaits nothing.  Each is one state transformer here.  `None` is
`Value.none`, as in the code: a stored `None` reads like a missing entry.
-/

namespace Cache

open PyJson PyText Errors StoreRecords

variable {F : Type}

/-- An entry of the first tier: the value itself, not its text, and the time
at which it expires. -/
structure L1Entry (F : Type) where
  value : Value F
  expiresAt : ℚ

/-- The first tier, in the memory of the process.  The store keeps the entry
used last in front. -/
structure L1Cache (F : Type) where
  maxItems : ℕ
  store : AList (fun _ : String => L1Entry F) := ∅

namespace L1Cache

/-- `L1Cache.get`: an entry that has expired is removed, and one that is
served becomes the most recent one. -/
def get (c : L1Cache F) (key : String) (now : ℚ) : Value F × L1Cache F :=
  match c.store.lookup key with
  | none => (.none, c)
  | some entry =>
      if entry.expiresAt < now then (.none, { c with store := c.store.erase key })
      else (entry.value, { c with store := c.store.insert key entry })

/-- `popitem(last=False)` until at most `max_items` are left. -/
def trim (c : L1Cache F) : L1Cache F :=
  { c with
    store := pick c.store (c.store.entries.take c.maxItems) (List.take_sublist _ _) }

/-- `L1Cache.set`: the entry becomes the most recent one, and the oldest ones
go until there is room for it. -/
def set (c : L1Cache F) (key : String) (value : Value F) (ttlSeconds : ℤ) (now : ℚ) :
    L1Cache F :=
  { c with store := c.store.insert key ⟨value, now + ttlSeconds⟩ }.trim

/-- `L1Cache.delete`. -/
def delete (c : L1Cache F) (key : String) : L1Cache F :=
  { c with store := c.store.erase key }

/-- The keys that start with a prefix. -/
def matched (c : L1Cache F) (pre : String) : List String :=
  c.store.keys.filter fun k => startsWith k pre

/-- `L1Cache.delete_prefix`, with the number of the entries that it
removed. -/
def deletePrefix (c : L1Cache F) (pre : String) : ℕ × L1Cache F :=
  ((c.matched pre).length, { c with store := eraseAll c.store (c.matched pre) })

theorem sub_trim (c : L1Cache F) : Sub c.trim.store c.store :=
  sub_pick (List.take_sublist _ _)

/-- A hit is an entry that has not expired. -/
theorem get_hit {c : L1Cache F} {key : String} {now : ℚ} {v : Value F}
    (h : (c.get key now).1 = v) (hv : v ≠ .none) :
    ∃ entry, c.store.lookup key = some entry ∧ now ≤ entry.expiresAt ∧
      entry.value = v := by
  unfold get at h
  cases hlookup : c.store.lookup key with
  | none => simp [hlookup, hv.symm] at h
  | some entry =>
      simp only [hlookup] at h
      split at h
      next => exact absurd h hv.symm
      next hlive => exact ⟨entry, rfl, not_lt.mp hlive, h⟩

/-- An entry that has not expired is a hit. -/
theorem get_of_live {c : L1Cache F} {key : String} {now : ℚ} {entry : L1Entry F}
    (hlookup : c.store.lookup key = some entry) (hlive : now ≤ entry.expiresAt) :
    (c.get key now).1 = entry.value := by
  simp [get, hlookup, not_lt.mpr hlive]

/-- A read writes no new entry. -/
theorem sub_get (c : L1Cache F) (key : String) (now : ℚ) :
    Sub (c.get key now).2.store c.store := by
  unfold get
  cases hlookup : c.store.lookup key with
  | none => exact Sub.refl _
  | some entry =>
      by_cases hexpired : entry.expiresAt < now
      · simpa [hexpired] using sub_erase c.store key
      · simp only [hexpired, if_false]
        exact Records.insert (P := fun a b => c.store.lookup a = some b)
          (fun _ _ h _ => h) hlookup

/-- A look-up does not change how many entries there is room for. -/
theorem get_maxItems (c : L1Cache F) (key : String) (now : ℚ) :
    (c.get key now).2.maxItems = c.maxItems := by
  unfold get
  split
  · rfl
  · split <;> rfl

/-- What holds of the entries of all other keys holds of all entries after a
write, if it holds of the entry written, which only a cache with room
keeps. -/
theorem records_set {P : String → L1Entry F → Prop} {c : L1Cache F} {key : String}
    (hc : Records (fun k e => k ≠ key → P k e) c.store) {value : Value F}
    {ttlSeconds : ℤ} {now : ℚ}
    (h : 0 < c.maxItems → P key ⟨value, now + ttlSeconds⟩) :
    Records P (c.set key value ttlSeconds now).store := by
  rcases Nat.eq_zero_or_pos c.maxItems with hzero | hpos
  · have hempty : (c.set key value ttlSeconds now).store = ∅ :=
      AList.ext (by simp [set, trim, pick, hzero])
    exact hempty ▸ records_empty
  · exact (Records.insert hc (h hpos)).of_sub (sub_trim _)

end L1Cache

/-- The second tier, where it is in memory as well: `_store` and `_locks`; the
locks hold the time at which they lapse. -/
structure InMemoryL2 where
  store : AList (fun _ : String => String × ℚ) := ∅
  locks : AList (fun _ : String => ℚ) := ∅

namespace InMemoryL2

/-- `InMemoryL2.get`: an entry that has expired is removed. -/
def get (c : InMemoryL2) (key : String) (now : ℚ) : Option String × InMemoryL2 :=
  match c.store.lookup key with
  | none => (none, c)
  | some (value, expiresAt) =>
      if expiresAt < now then (none, { c with store := c.store.erase key })
      else (some value, c)

/-- `InMemoryL2.set`. -/
def set (c : InMemoryL2) (key value : String) (ttlSeconds : ℤ) (now : ℚ) : InMemoryL2 :=
  { c with store := c.store.insert key (value, now + ttlSeconds) }

/-- `InMemoryL2.delete`. -/
def delete (c : InMemoryL2) (key : String) : InMemoryL2 :=
  { c with store := c.store.erase key }

/-- The keys that start with a prefix. -/
def matched (c : InMemoryL2) (pre : String) : List String :=
  c.store.keys.filter fun k => startsWith k pre

/-- `InMemoryL2.delete_prefix`, with the number of the entries that it
removed. -/
def deletePrefix (c : InMemoryL2) (pre : String) : ℕ × InMemoryL2 :=
  ((c.matched pre).length, { c with store := eraseAll c.store (c.matched pre) })

/-- `InMemoryL2.acquire_lock`: the lock is granted unless another one is held
that has not expired. -/
def acquireLock (c : InMemoryL2) (lockKey : String) (ttlMs : ℤ) (now : ℚ) :
    Bool × InMemoryL2 :=
  let take : Bool × InMemoryL2 :=
    (true, { c with locks := c.locks.insert lockKey (now + ttlMs / 1000) })
  match c.locks.lookup lockKey with
  | none => take
  | some expires => if now < expires then (false, c) else take

/-- `InMemoryL2.release_lock`: the lock is removed, whoever holds it. -/
def releaseLock (c : InMemoryL2) (lockKey : String) : InMemoryL2 :=
  { c with locks := c.locks.erase lockKey }

/-- A text read is that of an entry that has not expired. -/
theorem get_hit {c : InMemoryL2} {key raw : String} {now : ℚ}
    (h : (c.get key now).1 = some raw) :
    ∃ expiresAt, c.store.lookup key = some (raw, expiresAt) ∧ now ≤ expiresAt := by
  unfold get at h
  cases hlookup : c.store.lookup key with
  | none => simp [hlookup] at h
  | some entry =>
      obtain ⟨value, expiresAt⟩ := entry
      simp only [hlookup] at h
      split at h
      next => simp at h
      next hlive =>
          obtain rfl : value = raw := by simpa using h
          exact ⟨expiresAt, rfl, not_lt.mp hlive⟩

/-- So is the text of an entry that has not. -/
theorem get_of_live {c : InMemoryL2} {key raw : String} {expiresAt now : ℚ}
    (hlookup : c.store.lookup key = some (raw, expiresAt)) (hlive : now ≤ expiresAt) :
    c.get key now = (some raw, c) := by
  simp [get, hlookup, not_lt.mpr hlive]

theorem store_acquireLock (c : InMemoryL2) (lockKey : String) (ttlMs : ℤ) (now : ℚ) :
    (c.acquireLock lockKey ttlMs now).2.store = c.store := by
  simp only [acquireLock]
  split
  · rfl
  · split <;> rfl

theorem sub_get (c : InMemoryL2) (key : String) (now : ℚ) :
    Sub (c.get key now).2.store c.store := by
  unfold get
  split
  · exact Sub.refl _
  · split
    · exact sub_erase _ _
    · exact Sub.refl _

end InMemoryL2

/-- The manager with its two tiers, and the settings that it takes the lives
of its entries from. -/
structure CacheManager (F : Type) where
  settings : ServerSettings
  l1 : L1Cache F
  l2 : InMemoryL2
  hits : ℕ
  misses : ℕ

namespace CacheManager

/-- For how long the lock of a computation is held at most, in
milliseconds. -/
def stampedeLockTtlMs : ℤ := 5000

/-- How long a waiter sleeps before it looks again, in milliseconds. -/
def stampedeWaitMs : ℤ := 25

/-- How often a waiter looks again before it computes by itself. -/
def stampedeMaxWaits : ℕ := 40

/-- `CacheManager(settings, l2=InMemoryL2())`. -/
def start (settings : ServerSettings) : CacheManager F where
  settings
  l1 := { maxItems := settings.cacheL1MaxItems }
  l2 := {}
  hits := 0
  misses := 0

/-- `ttl or self.settings.cache_l2_ttl_seconds`. -/
def ttlL2 (m : CacheManager F) : Option ℤ → ℤ
  | some ttl => if ttl ≠ 0 then ttl else m.settings.cacheL2TtlSeconds
  | none => m.settings.cacheL2TtlSeconds

/-- A time to live other than `0` is used as it is. -/
theorem ttlL2_le {m : CacheManager F} {ttl : Option ℤ}
    (h : ttl = some 0 → m.settings.cacheL2TtlSeconds ≤ 0) :
    m.ttlL2 ttl ≤ ttl.getD m.settings.cacheL2TtlSeconds := by
  rcases ttl with _ | ttl
  · exact le_refl _
  · by_cases hzero : ttl = 0
    · simpa [CacheManager.ttlL2, hzero] using h (congrArg some hzero)
    · simp [CacheManager.ttlL2, hzero]

section Read

variable [PyFloat F]

/-- A text in L2 that is not JSON makes `json.loads` raise. -/
def get (m : CacheManager F) (key : String) (now : ℚ) :
    Except (Exc F) (Value F) × CacheManager F :=
  let (hit, l1) := m.l1.get key now
  match hit with
  | .none =>
      let (raw, l2) := m.l2.get key now
      match raw with
      | none => (.ok .none, { m with l1, l2, misses := m.misses + 1 })
      | some raw =>
          match loads raw with
          | none => (.error (.other "JSONDecodeError"), { m with l1, l2 })
          | some value =>
              (.ok value,
                { m with
                  l1 := l1.set key value m.settings.cacheL1TtlSeconds now
                  l2
                  hits := m.hits + 1 })
  | hit => (.ok hit, { m with l1, hits := m.hits + 1 })

/-- `CacheManager.set`: the value in both tiers, in the first one for no
longer than its own setting allows. -/
def set (m : CacheManager F) (key : String) (value : Value F) (ttl : Option ℤ) (now : ℚ) :
    CacheManager F :=
  let ttlL1 := min (m.ttlL2 ttl) m.settings.cacheL1TtlSeconds
  { m with
    l1 := m.l1.set key value ttlL1 now
    l2 := m.l2.set key (dumps value) (m.ttlL2 ttl) now }

end Read

/-- `CacheManager.delete`: the entry goes from both tiers. -/
def delete (m : CacheManager F) (key : String) : CacheManager F :=
  { m with l1 := m.l1.delete key, l2 := m.l2.delete key }

/-- `CacheManager.invalidate_key`, which is `delete`. -/
def invalidateKey (m : CacheManager F) (key : String) : CacheManager F := m.delete key

/-- `CacheManager.invalidate_prefix`: the number is that of the second
tier. -/
def invalidatePrefix (m : CacheManager F) (pre : String) : ℕ × CacheManager F :=
  let (_, l1) := m.l1.deletePrefix pre
  let (deleted, l2) := m.l2.deletePrefix pre
  (deleted, { m with l1, l2 })

/-- `CacheManager.invalidate_tool`: all keys that begin with those of the tool
of the tenant. -/
def invalidateTool (m : CacheManager F) (tenant tool : String) : ℕ × CacheManager F :=
  m.invalidatePrefix ("atlas:" ++ tenant ++ ":" ++ tool ++ ":")

/-- `CacheManager.invalidate_tenant`: all keys that begin with the name of the
tenant and a colon. -/
def invalidateTenant (m : CacheManager F) (tenant : String) : ℕ × CacheManager F :=
  m.invalidatePrefix ("atlas:" ++ tenant ++ ":")

/-- `P` holds of every L1 entry and `Q` of every L2 entry.  What is known of a
cache is stated like that, and each call keeps it. -/
structure Holds (P : String → L1Entry F → Prop) (Q : String → String × ℚ → Prop)
    (m : CacheManager F) : Prop where
  inL1 : Records P m.l1.store
  inL2 : Records Q m.l2.store

section Spec

variable {P : String → L1Entry F → Prop} {Q : String → String × ℚ → Prop}
  {m : CacheManager F}

/-- Nothing is cached at the start, so whatever is asked of the entries
holds. -/
theorem holds_start (settings : ServerSettings) :
    Holds P Q (start settings : CacheManager F) :=
  ⟨records_empty, records_empty⟩

/-- Removing an entry keeps what holds of all entries. -/
theorem Holds.delete (hm : m.Holds P Q) (key : String) : (m.delete key).Holds P Q :=
  ⟨hm.inL1.of_sub (sub_erase _ _), hm.inL2.of_sub (sub_erase _ _)⟩

/-- Removing the entries under a prefix keeps what holds of all entries. -/
theorem Holds.invalidatePrefix (hm : m.Holds P Q) (pre : String) :
    (m.invalidatePrefix pre).2.Holds P Q :=
  ⟨hm.inL1.of_sub (sub_eraseAll _ _), hm.inL2.of_sub (sub_eraseAll _ _)⟩

/-- What holds of all entries may be weakened. -/
theorem Holds.imp {P' : String → L1Entry F → Prop} {Q' : String → String × ℚ → Prop}
    (hm : m.Holds P Q) (hP : ∀ k e, P k e → P' k e) (hQ : ∀ k e, Q k e → Q' k e) :
    m.Holds P' Q' :=
  ⟨hm.inL1.imp hP, hm.inL2.imp hQ⟩

variable [PyFloat F]

/-- A write puts one entry into each tier, in the place of the old ones. -/
theorem Holds.set {key : String} {value : Value F} {ttl : Option ℤ} {now : ℚ}
    (hm : m.Holds (fun k e => k ≠ key → P k e) (fun k e => k ≠ key → Q k e))
    (hP : P key ⟨value, now + (min (m.ttlL2 ttl) m.settings.cacheL1TtlSeconds : ℤ)⟩)
    (hQ : Q key (dumps value, now + m.ttlL2 ttl)) :
    (m.set key value ttl now).Holds P Q :=
  ⟨L1Cache.records_set hm.inL1 fun _ => hP, Records.insert hm.inL2 hQ⟩

/-- There is a value under the key: an entry of one of the tiers that has not
expired. -/
def Stored (m : CacheManager F) (key : String) (now : ℚ) : Prop :=
  (∃ entry, m.l1.store.lookup key = some entry ∧ now ≤ entry.expiresAt ∧
    entry.value ≠ .none) ∨
  ∃ raw expiresAt v, m.l2.store.lookup key = some (raw, expiresAt) ∧ now ≤ expiresAt ∧
    loads raw = some v ∧ v ≠ (Value.none : Value F)

/-- What a read can do: serve an entry of L1, serve and promote one of L2, or
find nothing it can read. -/
theorem get_cases (m : CacheManager F) (key : String) (now : ℚ) :
    (∃ v, v ≠ .none ∧ (m.l1.get key now).1 = v ∧
      m.get key now = (.ok v, { m with
        l1 := (m.l1.get key now).2, hits := m.hits + 1 })) ∨
    (∃ raw v, (m.l1.get key now).1 = .none ∧ (m.l2.get key now).1 = some raw ∧
      loads raw = some v ∧ m.get key now = (.ok v, { m with
        l1 := (m.l1.get key now).2.set key v m.settings.cacheL1TtlSeconds now
        l2 := (m.l2.get key now).2
        hits := m.hits + 1 })) ∨
    (∃ r misses, (∀ v, r = .ok v → v = .none) ∧
      m.get key now = (r, { m with
        l1 := (m.l1.get key now).2, l2 := (m.l2.get key now).2, misses })) := by
  by_cases hhit : (m.l1.get key now).1 = .none
  · right
    cases hraw : (m.l2.get key now).1 with
    | none =>
        refine Or.inr ⟨.ok .none, m.misses + 1, by simp, ?_⟩
        simp only [get, hhit, hraw]
    | some raw =>
        cases hloads : loads (F := F) raw with
        | none =>
            refine Or.inr ⟨.error (.other "JSONDecodeError"), m.misses, by simp, ?_⟩
            simp only [get, hhit, hraw, hloads]
        | some v =>
            refine Or.inl ⟨raw, v, hhit, rfl, hloads, ?_⟩
            simp only [get, hhit, hraw, hloads]
  · refine Or.inl ⟨_, hhit, rfl, ?_⟩
    simp only [get]

/-- A value read comes from an entry of one of the tiers that has not
expired. -/
theorem Holds.get_value (hm : m.Holds P Q) {key : String} {now : ℚ} {v : Value F}
    (h : (m.get key now).1 = .ok v) (hv : v ≠ .none) :
    (∃ entry, P key entry ∧ now ≤ entry.expiresAt ∧ entry.value = v) ∨
    (∃ raw expiresAt, Q key (raw, expiresAt) ∧ now ≤ expiresAt ∧ loads raw = some v) := by
  rcases m.get_cases key now with
    ⟨w, hw, hhit, heq⟩ | ⟨raw, w, hmiss, hraw, hloads, heq⟩ | ⟨r, misses, hnone, heq⟩
  · obtain rfl : w = v := by simpa [heq] using h
    obtain ⟨entry, hlookup, hlive, hvalue⟩ := L1Cache.get_hit hhit hw
    exact Or.inl ⟨entry, hm.inL1 _ _ hlookup, hlive, hvalue⟩
  · obtain rfl : w = v := by simpa [heq] using h
    obtain ⟨expiresAt, hlookup, hlive⟩ := InMemoryL2.get_hit hraw
    exact Or.inr ⟨raw, expiresAt, hm.inL2 _ _ hlookup, hlive, hloads⟩
  · rw [heq] at h
    exact absurd (hnone v h) hv

/-- A read finds a value if and only if there is one. -/
theorem stored_iff {key : String} {now : ℚ} :
    m.Stored key now ↔ ∃ v, v ≠ .none ∧ (m.get key now).1 = .ok v := by
  constructor
  · intro hstored
    by_cases hmiss : (m.l1.get key now).1 = .none
    · rcases hstored with
        ⟨entry, hlookup, hlive, hvalue⟩ | ⟨raw, expiresAt, v, hlookup, hlive, hloads, hv⟩
      · rw [L1Cache.get_of_live hlookup hlive] at hmiss
        exact absurd hmiss hvalue
      · have hraw := InMemoryL2.get_of_live hlookup hlive
        exact ⟨v, hv, by simp only [get, hmiss, hraw, hloads]⟩
    · exact ⟨_, hmiss, by simp only [get]⟩
  · intro h
    obtain ⟨v, hv, hget⟩ := h
    have hself : m.Holds (fun k e => m.l1.store.lookup k = some e)
        (fun k e => m.l2.store.lookup k = some e) := ⟨fun _ _ h => h, fun _ _ h => h⟩
    rcases hself.get_value hget hv with
      ⟨entry, hlookup, hlive, rfl⟩ | ⟨raw, expiresAt, hlookup, hlive, hloads⟩
    · exact Or.inl ⟨entry, hlookup, hlive, hv⟩
    · exact Or.inr ⟨raw, expiresAt, v, hlookup, hlive, hloads, hv⟩

/-- A read writes nothing but a promoted entry. -/
theorem Holds.get (hm : m.Holds P Q) {key : String} {now : ℚ}
    (hpromoted : ∀ raw expiresAt v, m.l2.store.lookup key = some (raw, expiresAt) →
      now ≤ expiresAt → loads raw = some v → (m.l1.get key now).1 = .none →
      0 < m.l1.maxItems → P key ⟨v, now + m.settings.cacheL1TtlSeconds⟩) :
    (m.get key now).2.Holds P Q := by
  have hl1 := hm.inL1.of_sub (m.l1.sub_get key now)
  have hl2 := hm.inL2.of_sub (m.l2.sub_get key now)
  rcases m.get_cases key now with
    ⟨w, hw, hhit, heq⟩ | ⟨raw, w, hmiss, hraw, hloads, heq⟩ | ⟨r, misses, hnone, heq⟩
  · exact heq ▸ ⟨hl1, hm.inL2⟩
  · obtain ⟨expiresAt, hlookup, hlive⟩ := InMemoryL2.get_hit hraw
    refine heq ▸ ⟨L1Cache.records_set (hl1.imp fun _ _ h _ => h) fun hpos => ?_, hl2⟩
    rw [L1Cache.get_maxItems] at hpos
    exact hpromoted raw expiresAt w hlookup hlive hloads hmiss hpos
  · exact heq ▸ ⟨hl1, hl2⟩

end Spec

end CacheManager

end Cache
