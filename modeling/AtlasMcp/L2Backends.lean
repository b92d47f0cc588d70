import AtlasMcp.CacheTiers

/-!
# Backends of the shared tier

`CacheManager` works over any object with the methods of the protocol `L2Backend`.
Here a backend is a type of states and the methods as its steps, each of which is
atomic, together with what a manager relies on: a text written is read back until it
expires, unless it is overwritten or deleted, and a lock taken is refused to others
until it lapses or is released.  Values and locks are apart.

`InMemoryL2.backend` is the one backend of the code that runs in the process.  `RedisL2` does not
keep all of these laws: it has one keyspace for values and locks, so that a value could be written
over a lock whose key it has, an invalidation of a tool or a tenant drops the locks under its
prefix with the values, and the prefix is read as a glob.  While no call runs into one of these
differences it answers as `InMemoryL2` does, which is the subject of `AtlasMcp.RedisL2`; what is
shown here for every backend with the laws holds over Redis for such runs only.
-/

namespace Cache

open PyText StoreRecords

/-- The methods of a backend, and when a lock of it is held.  What they have to
do with each other is said by `L2Backend`. -/
structure L2Methods where
  State : Type
  get : State → String → ℚ → Option String × State
  set : State → String → String → ℤ → ℚ → State
  delete : State → String → State
  deletePrefix : State → String → ℕ × State
  acquireLock : State → String → ℤ → ℚ → Bool × State
  releaseLock : State → String → State
  Locked : State → String → ℚ → Prop

/-- The text a read would return. -/
def L2Methods.text (L : L2Methods) (s : L.State) (key : String) (now : ℚ) : Option String :=
  (L.get s key now).1

/-- A backend with what is relied on, at any time `now` from that of the call
on. -/
structure L2Backend extends L2Methods where
  text_get : ∀ {s key key'} {t now : ℚ}, t ≤ now →
    toL2Methods.text (get s key t).2 key' now = toL2Methods.text s key' now
  text_set : ∀ {s key value} {ttl : ℤ} {t now : ℚ}, t ≤ now → now < t + ttl →
    toL2Methods.text (set s key value ttl t) key now = some value
  text_set_ne : ∀ {s key key' value ttl t now}, key' ≠ key →
    toL2Methods.text (set s key value ttl t) key' now = toL2Methods.text s key' now
  text_delete : ∀ {s key now}, toL2Methods.text (delete s key) key now = none
  text_delete_ne : ∀ {s key key' now}, key' ≠ key →
    toL2Methods.text (delete s key) key' now = toL2Methods.text s key' now
  text_deletePrefix : ∀ {s pre key now}, startsWith key pre = true →
    toL2Methods.text (deletePrefix s pre).2 key now = none
  text_deletePrefix_ne : ∀ {s pre key now}, startsWith key pre = false →
    toL2Methods.text (deletePrefix s pre).2 key now = toL2Methods.text s key now
  text_acquireLock : ∀ {s lockKey ttl t key now},
    toL2Methods.text (acquireLock s lockKey ttl t).2 key now = toL2Methods.text s key now
  text_releaseLock : ∀ {s lockKey key now},
    toL2Methods.text (releaseLock s lockKey) key now = toL2Methods.text s key now
  acquireLock_iff : ∀ {s lockKey ttl now},
    (acquireLock s lockKey ttl now).1 = true ↔ ¬ Locked s lockKey now
  locked_acquireLock : ∀ {s lockKey} {ttl : ℤ} {t now : ℚ}, (acquireLock s lockKey ttl t).1 = true →
    t ≤ now → now < t + ttl / 1000 → Locked (acquireLock s lockKey ttl t).2 lockKey now
  locked_acquireLock_ne : ∀ {s lockKey lockKey' ttl t now}, lockKey' ≠ lockKey →
    (Locked (acquireLock s lockKey ttl t).2 lockKey' now ↔ Locked s lockKey' now)
  locked_acquireLock_refused : ∀ {s lockKey lockKey' ttl t now},
    (acquireLock s lockKey ttl t).1 = false →
    (Locked (acquireLock s lockKey ttl t).2 lockKey' now ↔ Locked s lockKey' now)
  locked_releaseLock : ∀ {s lockKey now}, ¬ Locked (releaseLock s lockKey) lockKey now
  locked_releaseLock_ne : ∀ {s lockKey lockKey' now}, lockKey' ≠ lockKey →
    (Locked (releaseLock s lockKey) lockKey' now ↔ Locked s lockKey' now)
  locked_get : ∀ {s key t lockKey now},
    Locked (get s key t).2 lockKey now ↔ Locked s lockKey now
  locked_set : ∀ {s key value ttl t lockKey now},
    Locked (set s key value ttl t) lockKey now ↔ Locked s lockKey now
  locked_delete : ∀ {s key lockKey now},
    Locked (delete s key) lockKey now ↔ Locked s lockKey now
  locked_deletePrefix : ∀ {s pre lockKey now},
    Locked (deletePrefix s pre).2 lockKey now ↔ Locked s lockKey now

namespace InMemoryL2

/-- What a look-up returns is the text of an entry that has not expired. -/
theorem get_fst (c : InMemoryL2) (key : String) (now : ℚ) :
    (c.get key now).1 = (c.store.lookup key).bind fun entry =>
      if entry.2 < now then none else some entry.1 := by
  unfold get
  cases hlookup : c.store.lookup key with
  | none => rfl
  | some entry =>
      obtain ⟨value, expiresAt⟩ := entry
      by_cases hexpired : expiresAt < now <;> simp [hexpired]

theorem locks_get (c : InMemoryL2) (key : String) (now : ℚ) :
    (c.get key now).2.locks = c.locks := by
  unfold get
  split
  · rfl
  · split <;> rfl

/-- What a read drops had expired. -/
theorem get_get {c : InMemoryL2} {key key' : String} {t now : ℚ} (h : t ≤ now) :
    ((c.get key t).2.get key' now).1 = (c.get key' now).1 := by
  simp only [get_fst]
  unfold get
  cases hlookup : c.store.lookup key with
  | none => rfl
  | some entry =>
      obtain ⟨value, expiresAt⟩ := entry
      by_cases hexpired : expiresAt < t
      · by_cases hkey : key' = key
        · subst hkey
          have hlate : expiresAt < now := lt_of_lt_of_le hexpired h
          simp [hexpired, hlookup, hlate]
        · simp [hexpired, AList.lookup_erase_ne hkey]
      · simp [hexpired]

/-- What is left are the entries whose keys do not start with the prefix. -/
theorem lookup_deletePrefix (c : InMemoryL2) (pre key : String) :
    (c.deletePrefix pre).2.store.lookup key =
      if startsWith key pre then none else c.store.lookup key :=
  lookup_eraseAll_filter c.store (fun k => startsWith k pre) key

/-- A lock is held until it lapses, whether its holder still works or not. -/
def Locked (c : InMemoryL2) (lockKey : String) (now : ℚ) : Prop :=
  ∃ expires, c.locks.lookup lockKey = some expires ∧ now < expires

/-- A lock that somebody has is not granted, and nothing changes. -/
theorem acquireLock_of_locked {c : InMemoryL2} {lockKey : String} {now : ℚ}
    (h : c.Locked lockKey now) (ttlMs : ℤ) : c.acquireLock lockKey ttlMs now = (false, c) := by
  obtain ⟨expires, hlookup, hlive⟩ := h
  simp [acquireLock, hlookup, hlive]

/-- A lock that nobody has is granted, for the life that was asked for. -/
theorem acquireLock_of_not_locked {c : InMemoryL2} {lockKey : String} {now : ℚ}
    (h : ¬ c.Locked lockKey now) (ttlMs : ℤ) : c.acquireLock lockKey ttlMs now =
      (true, { c with locks := c.locks.insert lockKey (now + ttlMs / 1000) }) := by
  unfold acquireLock
  cases hlookup : c.locks.lookup lockKey with
  | none => rfl
  | some expires =>
      have hlapsed : ¬ now < expires := fun hlive => h ⟨expires, hlookup, hlive⟩
      simp [hlapsed]

theorem acquireLock_fst {c : InMemoryL2} {lockKey : String} {ttlMs : ℤ} {now : ℚ} :
    (c.acquireLock lockKey ttlMs now).1 = true ↔ ¬ c.Locked lockKey now := by
  by_cases h : c.Locked lockKey now
  · simp [acquireLock_of_locked h, h]
  · simp [acquireLock_of_not_locked h, h]

/-- The in-process backend. -/
def backend : L2Backend where
  State := InMemoryL2
  get := get
  set := set
  delete := delete
  deletePrefix := deletePrefix
  acquireLock := acquireLock
  releaseLock := releaseLock
  Locked := Locked
  text_get h := get_get h
  text_set {s key value ttl t now} _ hlive := by
    have hle : ¬ t + ttl < now := not_lt.mpr hlive.le
    simp [L2Methods.text, get_fst, set, hle]
  text_set_ne hne := by simp [L2Methods.text, get_fst, set, AList.lookup_insert_ne hne]
  text_delete := by simp [L2Methods.text, get_fst, delete]
  text_delete_ne hne := by simp [L2Methods.text, get_fst, delete, AList.lookup_erase_ne hne]
  text_deletePrefix h := by simp [L2Methods.text, get_fst, lookup_deletePrefix, h]
  text_deletePrefix_ne h := by simp [L2Methods.text, get_fst, lookup_deletePrefix, h]
  text_acquireLock := by simp [L2Methods.text, get_fst, store_acquireLock]
  text_releaseLock := by simp [L2Methods.text, get_fst, releaseLock]
  acquireLock_iff := acquireLock_fst
  locked_acquireLock {s lockKey ttl t now} h hle hlt := by
    rw [acquireLock_of_not_locked (acquireLock_fst.mp h)]
    exact ⟨_, AList.lookup_insert _, hlt⟩
  locked_acquireLock_ne {s lockKey lockKey' ttl t now} hne := by
    by_cases h : s.Locked lockKey t
    · rw [acquireLock_of_locked h]
    · rw [acquireLock_of_not_locked h]
      simp [Locked, AList.lookup_insert_ne hne]
  locked_acquireLock_refused {s lockKey lockKey' ttl t now} h := by
    have hlocked : s.Locked lockKey t := by
      by_contra hfree
      rw [acquireLock_fst.mpr hfree] at h
      cases h
    rw [acquireLock_of_locked hlocked]
  locked_releaseLock := by simp [Locked, releaseLock]
  locked_releaseLock_ne hne := by simp [Locked, releaseLock, AList.lookup_erase_ne hne]
  locked_get := by simp [Locked, locks_get]
  locked_set := Iff.rfl
  locked_delete := Iff.rfl
  locked_deletePrefix := Iff.rfl

end InMemoryL2

end Cache
