import AtlasMcp.CacheTiers

/-!
# Writes that fail

`CacheManager.set` writes L1 first; then the value may turn out not to be JSON, or the backend of
L2 may raise.  `trySet` is a write with what the encoder and the backend come to, either of which
may be a failure, and the backend may leave its store as it likes.

A write that fails has left its entry in L1.  So the content of the tiers is the same only if
the entry was there before, or L1 has no room for any (`kept_on_failure_iff`).
-/

namespace Cache

open PyJson PyText Errors StoreRecords

variable {F : Type}

namespace CacheManager

/-- What the backend does with a text and its time to live: it returns or
raises, and leaves its store in some state. -/
abbrev L2Write (F : Type) : Type := String → ℤ → Except (Exc F) Unit × InMemoryL2

/-- `set`, where `encoded` is what `json.dumps` gives for the value. -/
def trySet (m : CacheManager F) (key : String) (value : Value F) (ttl : Option ℤ) (now : ℚ)
    (encoded : Except (Exc F) String) (write : L2Write F) :
    Except (Exc F) Unit × CacheManager F :=
  let ttlL1 := min (m.ttlL2 ttl) m.settings.cacheL1TtlSeconds
  let written := { m with l1 := m.l1.set key value ttlL1 now }
  match encoded with
  | .error exc => (.error exc, written)
  | .ok raw =>
      let (result, l2) := write raw (m.ttlL2 ttl)
      (result, { written with l2 })

/-- When nothing fails, it is the write of the other modules. -/
example [PyFloat F] (m : CacheManager F) (key : String) (value : Value F) (ttl : Option ℤ)
    (now : ℚ) :
    m.trySet key value ttl now (.ok (dumps value))
        (fun raw ttlSeconds => (.ok (), m.l2.set key raw ttlSeconds now)) =
      (.ok (), m.set key value ttl now) := rfl

/-- The tiers hold the same entries.  In which order the first tier has them
does not count. -/
structure SameContent (m m' : CacheManager F) : Prop where
  inL1 : ∀ k, m'.l1.store.lookup k = m.l1.store.lookup k
  inL2 : ∀ k, m'.l2.store.lookup k = m.l2.store.lookup k

end CacheManager

namespace L1Cache

variable {c : L1Cache F} {key : String} {value : Value F} {ttlSeconds : ℤ} {now : ℚ}

/-- The write makes no difference to what the cache holds: the entry is there
already, or no entry ever is. -/
def Keeps (c : L1Cache F) (key : String) (entry : L1Entry F) : Prop :=
  (c.store.lookup key = some entry ∧ c.store.keys.length ≤ c.maxItems) ∨
    (c.maxItems = 0 ∧ c.store = ∅)

/-- The keys after a write: that of the entry is the first one, and those that
there is no room for are gone. -/
theorem keys_set (c : L1Cache F) (key : String) (value : Value F) (ttlSeconds : ℤ) (now : ℚ) :
    (c.set key value ttlSeconds now).store.keys =
      (key :: c.store.keys.erase key).take c.maxItems := by
  show ((c.store.insert key _).entries.take c.maxItems).keys = _
  rw [List.keys, List.map_take]
  exact congrArg (List.take c.maxItems) (AList.keys_insert c.store)

/-- The same keys in both stores are equally many. -/
theorem length_keys_eq {s t : AList fun _ : String => L1Entry F}
    (h : ∀ k, s.lookup k = t.lookup k) : s.keys.length = t.keys.length := by
  refine ((List.perm_ext_iff_of_nodup s.keys_nodup t.keys_nodup).mpr fun k => ?_).length_eq
  rw [← AList.mem_keys, ← AList.mem_keys, ← AList.lookup_isSome, ← AList.lookup_isSome, h]

/-- With room for one entry, the written one is kept. -/
theorem lookup_set_self (hpos : 0 < c.maxItems) :
    (c.set key value ttlSeconds now).store.lookup key = some ⟨value, now + ttlSeconds⟩ := by
  obtain ⟨n, hn⟩ : ∃ n, c.maxItems = n + 1 := ⟨c.maxItems - 1, by omega⟩
  rw [← Option.mem_def, AList.mem_lookup_iff]
  show _ ∈ ((c.store.insert key _).entries.take c.maxItems)
  rw [AList.entries_insert, hn, List.take_succ_cons]
  exact List.mem_cons_self

theorem set_of_no_room (hzero : c.maxItems = 0) :
    (c.set key value ttlSeconds now).store = ∅ :=
  AList.ext (by simp [set, trim, pick, hzero])

/-- A write over an entry of the same key drops nothing. -/
theorem lookup_set_of_present {entry : L1Entry F} (hentry : c.store.lookup key = some entry)
    (hroom : c.store.keys.length ≤ c.maxItems) (k : String) :
    (c.set key value ttlSeconds now).store.lookup k =
      if k = key then some ⟨value, now + ttlSeconds⟩ else c.store.lookup k := by
  have hmem : key ∈ c.store.keys := AList.lookup_isSome.mp (by rw [hentry]; rfl)
  have hlength : (c.store.insert key ⟨value, now + ttlSeconds⟩).entries.length ≤ c.maxItems := by
    have hkeys := congrArg List.length
      (AList.keys_insert (b := ⟨value, now + ttlSeconds⟩) (a := key) c.store)
    rw [List.length_cons, List.length_erase_of_mem hmem] at hkeys
    have hpos := List.length_pos_of_mem hmem
    rw [AList.keys, List.keys, List.length_map] at hkeys
    omega
  have hstore : (c.set key value ttlSeconds now).store =
      c.store.insert key ⟨value, now + ttlSeconds⟩ :=
    AList.ext (List.take_of_length_le hlength)
  rw [hstore]
  by_cases hk : k = key
  · rw [if_pos hk, hk, AList.lookup_insert]
  · rw [if_neg hk, AList.lookup_insert_ne hk]

/-- When a write leaves the content as it was. -/
theorem lookup_set_eq_iff :
    (∀ k, (c.set key value ttlSeconds now).store.lookup k = c.store.lookup k) ↔
      c.Keeps key ⟨value, now + ttlSeconds⟩ := by
  constructor
  · intro h
    rcases Nat.eq_zero_or_pos c.maxItems with hzero | hpos
    · refine Or.inr ⟨hzero, AList.ext ?_⟩
      have hlength := length_keys_eq h
      rw [set_of_no_room hzero, AList.keys_empty] at hlength
      rw [AList.keys, List.keys, List.length_map] at hlength
      exact List.eq_nil_of_length_eq_zero hlength.symm
    · refine Or.inl ⟨(h key).symm.trans (lookup_set_self hpos), ?_⟩
      have hlength := length_keys_eq h
      rw [keys_set] at hlength
      rw [← hlength]
      exact List.length_take_le _ _
  · rintro (⟨hentry, hroom⟩ | ⟨hzero, hempty⟩) k
    · rw [lookup_set_of_present hentry hroom]
      split
      next hk => rw [hk, hentry]
      next => rfl
    · rw [set_of_no_room hzero, hempty]

end L1Cache

namespace CacheManager

variable {m : CacheManager F} {key : String} {value : Value F} {ttl : Option ℤ} {now : ℚ}
  {encoded : Except (Exc F) String} {write : L2Write F}

/-- The encoder or the backend raises.  Either of them ends `set` with its
exception. -/
def Fails (m : CacheManager F) (ttl : Option ℤ) (encoded : Except (Exc F) String)
    (write : L2Write F) : Prop :=
  (∃ exc, encoded = .error exc) ∨
    ∃ raw exc, encoded = .ok raw ∧ (write raw (m.ttlL2 ttl)).1 = .error exc

/-- A backend that is given the text leaves the entries of L2 as they were,
whether it raises or not. -/
def LeavesL2 (m : CacheManager F) (ttl : Option ℤ) (encoded : Except (Exc F) String)
    (write : L2Write F) : Prop :=
  ∀ raw, encoded = .ok raw →
    ∀ k, (write raw (m.ttlL2 ttl)).2.store.lookup k = m.l2.store.lookup k

/-- A write raises just when one of its parts does. -/
theorem trySet_raises_iff :
    (∃ exc, (m.trySet key value ttl now encoded write).1 = .error exc) ↔
      m.Fails ttl encoded write := by
  cases encoded with
  | error exc => simp [trySet, Fails]
  | ok raw => simp [trySet, Fails]

/-- However it ends, L1 has been written. -/
theorem l1_trySet : (m.trySet key value ttl now encoded write).2.l1 =
    m.l1.set key value (min (m.ttlL2 ttl) m.settings.cacheL1TtlSeconds) now := by
  cases encoded <;> rfl

/-- A write leaves the texts in L2 as they are under the condition that it is
said to. -/
theorem l2_trySet_iff :
    (∀ k, (m.trySet key value ttl now encoded write).2.l2.store.lookup k =
      m.l2.store.lookup k) ↔ m.LeavesL2 ttl encoded write := by
  cases encoded with
  | error exc => simp [trySet, LeavesL2]
  | ok raw => simp [trySet, LeavesL2]

/-- **When a write that fails has changed nothing**: it does not fail, or L1
keeps the entries it had and a backend that has raised did too. -/
theorem kept_on_failure_iff (m : CacheManager F) (key : String) (value : Value F)
    (ttl : Option ℤ) (now : ℚ) (encoded : Except (Exc F) String) (write : L2Write F) :
    ((∃ exc, (m.trySet key value ttl now encoded write).1 = .error exc) →
      m.SameContent (m.trySet key value ttl now encoded write).2) ↔
    ¬ m.Fails ttl encoded write ∨
      m.l1.Keeps key
        ⟨value, now + (min (m.ttlL2 ttl) m.settings.cacheL1TtlSeconds : ℤ)⟩ ∧
      m.LeavesL2 ttl encoded write := by
  have hcontent : m.SameContent (m.trySet key value ttl now encoded write).2 ↔
      m.l1.Keeps key ⟨value, now + (min (m.ttlL2 ttl) m.settings.cacheL1TtlSeconds : ℤ)⟩ ∧
        m.LeavesL2 ttl encoded write := by
    rw [← L1Cache.lookup_set_eq_iff, ← l2_trySet_iff, ← l1_trySet]
    exact ⟨fun h => ⟨h.inL1, h.inL2⟩, fun h => ⟨h.1, h.2⟩⟩
  rw [trySet_raises_iff, hcontent]
  exact imp_iff_not_or

/-- What a write that failed has left in L1 is served. -/
theorem served_after_failure (hpos : 0 < m.l1.maxItems) {later : ℚ}
    (hlive : later ≤ now + (min (m.ttlL2 ttl) m.settings.cacheL1TtlSeconds : ℤ)) :
    ((m.trySet key value ttl now encoded write).2.l1.get key later).1 = value := by
  rw [l1_trySet]
  exact L1Cache.get_of_live (L1Cache.lookup_set_self hpos) hlive

/-- A backend that cannot be reached. -/
def unreachable : L2Write Unit := fun _ _ => (.error (.other "ConnectionError"), {})

/-- A new cache holds the value that it could not write, and serves it. -/
theorem unreachable_write_left_in_l1 :
    ((start {}).trySet "k" (.int 1) none 0 (.ok "1") unreachable).1 =
        .error (.other "ConnectionError") ∧
      (((start {}).trySet "k" (.int 1) none 0 (.ok "1") unreachable).2.l1.get "k" 5).1 = .int 1 ∧
      ¬ (start {}).SameContent
        ((start {}).trySet "k" (.int 1) none 0 (.ok "1") unreachable).2 := by
  refine ⟨rfl, served_after_failure (by decide) (by decide +kernel), fun h => ?_⟩
  have hsame := h.inL1 "k"
  rw [l1_trySet, L1Cache.lookup_set_self (by decide)] at hsame
  cases hsame

end CacheManager

end Cache
