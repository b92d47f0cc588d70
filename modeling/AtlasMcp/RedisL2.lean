import AtlasMcp.Redis
import AtlasMcp.L2Backends
import AtlasMcp.GuardedRuns

/-!
# The shared tier on Redis

`RedisL2` keeps values and locks in one keyspace, finds the keys of a prefix with a glob
pattern, and leaves expiry to the server; `InMemoryL2` keeps values and locks apart, compares
prefixes, and drops an expired value when it is read.  The two answer alike as long as no
call runs into one of these differences (`same_replies_of_kept`).
-/

namespace Cache

open PyText StoreRecords GuardedRuns Redis

variable {gone : Bool}

/-- The calls of a backend. -/
inductive L2Call
  | get (key : String)
  | set (key value : String) (ttlSeconds : ℤ)
  | delete (key : String)
  | deletePrefix (pre : String)
  | acquireLock (lockKey : String) (ttlMs : ℤ)
  | releaseLock (lockKey : String)

/-- What they return. -/
inductive L2Reply
  | none
  | text (value : Option String)
  | deleted (count : ℕ)
  | acquired (taken : Bool)
  deriving DecidableEq

/-- What the in-memory tier answers to a call, and what is left of it
afterwards. -/
def InMemoryL2.reply (c : InMemoryL2) (now : ℚ) : L2Call → L2Reply × InMemoryL2
  | .get key =>
      let (value, c) := c.get key now
      (.text value, c)
  | .set key value ttlSeconds => (.none, c.set key value ttlSeconds now)
  | .delete key => (.none, c.delete key)
  | .deletePrefix pre =>
      let (count, c) := c.deletePrefix pre
      (.deleted count, c)
  | .acquireLock lockKey ttlMs =>
      let (taken, c) := c.acquireLock lockKey ttlMs now
      (.acquired taken, c)
  | .releaseLock lockKey => (.none, c.releaseLock lockKey)

namespace RedisL2

/-- `RedisL2.get`: `GET key`. -/
def get (r : Keyspace gone) (key : String) (now : ℚ) : Except Redis.Error (Option String) :=
  r.get key now

/-- `RedisL2.set`: `SET key value EX ttl`, which Redis refuses for a life that
is not positive. -/
def set (r : Keyspace gone) (key value : String) (ttlSeconds : ℤ) (now : ℚ) :
    Except Redis.Error Unit × Keyspace gone :=
  r.setEx key value ttlSeconds now

/-- `RedisL2.delete`: `DEL key`. -/
def delete (r : Keyspace gone) (key : String) : Keyspace gone := r.del key

/-- One `DEL` for each key that the scan finds. -/
def deletePrefix (r : Keyspace gone) (pre : String) (now : ℚ) : ℕ × Keyspace gone :=
  ((r.scan (pre ++ "*") now).length, ⟨eraseAll r.entries (r.scan (pre ++ "*") now)⟩)

/-- `RedisL2.acquire_lock`: `SET key 1 NX PX ttl`, in the one keyspace of
locks and entries. -/
def acquireLock (r : Keyspace gone) (lockKey : String) (ttlMs : ℤ) (now : ℚ) :
    Except Redis.Error Bool × Keyspace gone :=
  r.setNxPx lockKey "1" ttlMs now

/-- `RedisL2.release_lock`: `DEL key`. -/
def releaseLock (r : Keyspace gone) (lockKey : String) : Keyspace gone := r.del lockKey

/-- What the tier over Redis answers to a call, or the error of the command,
and the keyspace afterwards. -/
def reply (r : Keyspace gone) (now : ℚ) : L2Call → Except Redis.Error L2Reply × Keyspace gone
  | .get key => ((get r key now).map .text, r)
  | .set key value ttlSeconds =>
      let (done, r) := set r key value ttlSeconds now
      (done.map fun _ => .none, r)
  | .delete key => (.ok .none, delete r key)
  | .deletePrefix pre =>
      let (count, r) := deletePrefix r pre now
      (.ok (.deleted count), r)
  | .acquireLock lockKey ttlMs =>
      let (taken, r) := acquireLock r lockKey ttlMs now
      (taken.map .acquired, r)
  | .releaseLock lockKey => (.ok .none, releaseLock r lockKey)

end RedisL2

namespace InMemoryL2

/-- The value of a key, as long as Redis would keep it. -/
def valueAt (gone : Bool) (c : InMemoryL2) (key : String) (now : ℚ) : Option (String × ℚ) :=
  (c.store.lookup key).filter fun entry => Alive gone (some entry.2) now

/-- Its lock, as long as Redis would keep it. -/
def lockAt (gone : Bool) (c : InMemoryL2) (key : String) (now : ℚ) : Option ℚ :=
  (c.locks.lookup key).filter fun expires => Alive gone (some expires) now

/-- The entry that stands for both in one keyspace. -/
def entryAt (gone : Bool) (c : InMemoryL2) (key : String) (now : ℚ) : Option Entry :=
  match c.valueAt gone key now with
  | some (value, expiresAt) => some ⟨.text value, some expiresAt⟩
  | none => (c.lockAt gone key now).map fun expires => ⟨.text "1", some expires⟩

variable {c : InMemoryL2} {key : String} {t now : ℚ}

/-- There is a value under a key as long as its entry has not expired. -/
theorem valueAt_eq_some {entry : String × ℚ} : c.valueAt gone key now = some entry ↔
    c.store.lookup key = some entry ∧ Alive gone (some entry.2) now := by
  simp [valueAt, Option.filter_eq_some_iff]

/-- There is a lock under a key as long as it has not expired. -/
theorem lockAt_eq_some {expires : ℚ} : c.lockAt gone key now = some expires ↔
    c.locks.lookup key = some expires ∧ Alive gone (some expires) now := by
  simp [lockAt, Option.filter_eq_some_iff]

/-- A value that is gone stays so. -/
theorem valueAt_none (hle : t ≤ now) (h : c.valueAt gone key t = none) :
    c.valueAt gone key now = none := by
  cases hnow : c.valueAt gone key now with
  | none => rfl
  | some entry =>
      obtain ⟨hlookup, halive⟩ := valueAt_eq_some.mp hnow
      rw [valueAt_eq_some.mpr ⟨hlookup, halive.of_le hle⟩] at h
      cases h

theorem lockAt_none (hle : t ≤ now) (h : c.lockAt gone key t = none) :
    c.lockAt gone key now = none := by
  cases hnow : c.lockAt gone key now with
  | none => rfl
  | some expires =>
      obtain ⟨hlookup, halive⟩ := lockAt_eq_some.mp hnow
      rw [lockAt_eq_some.mpr ⟨hlookup, halive.of_le hle⟩] at h
      cases h

/-- Where there is a value, Redis has its text, with the same life. -/
theorem entryAt_of_valueAt {entry : String × ℚ} (h : c.valueAt gone key now = some entry) :
    c.entryAt gone key now = some ⟨.text entry.1, some entry.2⟩ := by
  simp only [entryAt, h]

/-- Where there is no value, Redis has the text of the lock, if there is
one. -/
theorem entryAt_of_none (h : c.valueAt gone key now = none) :
    c.entryAt gone key now =
      (c.lockAt gone key now).map fun expires => ⟨.text "1", some expires⟩ := by
  simp only [entryAt, h]

/-- Redis has nothing under a key if and only if there is neither a value nor
a lock. -/
theorem entryAt_eq_none : c.entryAt gone key now = none ↔
    c.valueAt gone key now = none ∧ c.lockAt gone key now = none := by
  cases hvalue : c.valueAt gone key now with
  | none => simp [entryAt_of_none hvalue]
  | some entry => simp [entryAt_of_valueAt hvalue]

/-- The entries of a key do not change where its records do not. -/
theorem entryAt_congr {d : InMemoryL2} (hstore : d.store.lookup key = c.store.lookup key)
    (hlocks : d.locks.lookup key = c.locks.lookup key) :
    d.entryAt gone key now = c.entryAt gone key now := by
  simp only [entryAt, valueAt, lockAt, hstore, hlocks]

/-- What a read drops had expired. -/
theorem valueAt_get {key' : String} (hle : t ≤ now) :
    (c.get key t).2.valueAt gone key' now = c.valueAt gone key' now := by
  unfold get
  cases hlookup : c.store.lookup key with
  | none => rfl
  | some entry =>
      obtain ⟨value, expiresAt⟩ := entry
      by_cases hexpired : expiresAt < t
      · by_cases hkey : key' = key
        · subst hkey
          have hdead : ¬ Alive gone (some expiresAt) now := by
            intro halive
            have hlive := halive.le
            linarith
          simp [valueAt, hexpired, hlookup, hdead, Option.filter]
        · simp [valueAt, hexpired, AList.lookup_erase_ne hkey]
      · simp [hexpired]

end InMemoryL2

/-- For a plain prefix the pattern finds what `startswith` finds. -/
theorem matches_iff_startsWith {pre : String} (h : ∀ c ∈ pre.toList, IsPlain c) (key : String) :
    Matches (pre ++ "*") key ↔ startsWith key pre = true := by
  rw [matches_star_iff h, startsWith, List.isPrefixOf_iff_prefix]

open InMemoryL2

/-- Redis has, from now on, the values and the locks that are in memory, of
which no key has both. -/
structure Agree (c : InMemoryL2) (r : Keyspace gone) (now : ℚ) : Prop where
  same : ∀ key t, now ≤ t → r.find key t = c.entryAt gone key t
  apart : ∀ key, c.valueAt gone key now = none ∨ c.lockAt gone key now = none

namespace Agree

variable {c d : InMemoryL2} {r q : Keyspace gone} {t now : ℚ} {key : String}

/-- Two tiers that agree still do later, when entries of both have expired. -/
theorem later (h : Agree c r t) (hle : t ≤ now) : Agree c r now := by
  refine ⟨fun key x hx => h.same key x (le_trans hle hx), fun key => ?_⟩
  rcases h.apart key with hvalue | hlock
  · exact Or.inl (valueAt_none hle hvalue)
  · exact Or.inr (lockAt_none hle hlock)

/-- A call that changes the entries of one key alone, on both sides in the
same way. -/
theorem write (h : Agree c r now) (hstore : ∀ k ≠ key, d.store.lookup k = c.store.lookup k)
    (hlocks : ∀ k ≠ key, d.locks.lookup k = c.locks.lookup k)
    (hredis : ∀ k ≠ key, q.entries.lookup k = r.entries.lookup k)
    (hsame : ∀ x, now ≤ x → q.find key x = d.entryAt gone key x)
    (hapart : d.valueAt gone key now = none ∨ d.lockAt gone key now = none) :
    Agree d q now := by
  constructor
  · intro k x hx
    by_cases hk : k = key
    · exact hk ▸ hsame x hx
    · rw [entryAt_congr (hstore k hk) (hlocks k hk), ← h.same k x hx]
      simp only [Keyspace.find, hredis k hk]
  · intro k
    by_cases hk : k = key
    · exact hk ▸ hapart
    · simp only [valueAt, lockAt, hstore k hk, hlocks k hk]
      exact h.apart k

/-- A read of a key that is no lock, not at the instant its value expires. -/
theorem get (h : Agree c r now) (hlock : c.lockAt gone key now = none)
    (hsharp : ∀ entry ∈ c.store.lookup key, now ≤ entry.2 → Alive gone (some entry.2) now) :
    RedisL2.get r key now = .ok (c.get key now).1 ∧ Agree (c.get key now).2 r now := by
  constructor
  · have hfind := h.same key now le_rfl
    rw [get_fst]
    cases hvalue : c.valueAt gone key now with
    | some entry =>
        obtain ⟨hlookup, halive⟩ := valueAt_eq_some.mp hvalue
        rw [entryAt_of_valueAt hvalue] at hfind
        have hlive : ¬ entry.2 < now := not_lt.mpr halive.le
        simp [RedisL2.get, Keyspace.get, hfind, hlookup, hlive]
    | none =>
        rw [entryAt_of_none hvalue, hlock] at hfind
        have hmiss : ((c.store.lookup key).bind fun entry =>
            if entry.2 < now then none else some entry.1) = none := by
          cases hlookup : c.store.lookup key with
          | none => rfl
          | some entry =>
              by_cases hlive : entry.2 < now
              · simp [hlive]
              · have halive := hsharp entry hlookup (not_lt.mp hlive)
                rw [valueAt_eq_some.mpr ⟨hlookup, halive⟩] at hvalue
                cases hvalue
        simp [RedisL2.get, Keyspace.get, hfind, hmiss]
  · have hvalues : ∀ k x, now ≤ x →
        (c.get key now).2.entryAt gone k x = c.entryAt gone k x := by
      intro k x hx
      simp only [entryAt, valueAt_get hx, lockAt, locks_get]
    refine ⟨fun k x hx => (h.same k x hx).trans (hvalues k x hx).symm, fun k => ?_⟩
    simp only [valueAt_get le_rfl, lockAt, locks_get]
    exact h.apart k

/-- A write under a key that is no lock. -/
theorem set (h : Agree c r now) {value : String} {ttlSeconds : ℤ} (hpos : 0 < ttlSeconds)
    (hlock : c.lockAt gone key now = none) :
    (RedisL2.set r key value ttlSeconds now).1 = .ok () ∧
      Agree (c.set key value ttlSeconds now) (RedisL2.set r key value ttlSeconds now).2 now := by
  have hput : RedisL2.set r key value ttlSeconds now =
      (.ok (), r.put key ⟨.text value, some (now + ttlSeconds)⟩) := by
    simp [RedisL2.set, Keyspace.setEx, not_le.mpr hpos]
  rw [hput]
  refine ⟨rfl, h.write (fun k hk => AList.lookup_insert_ne hk) (fun _ _ => rfl)
    (fun k hk => Keyspace.lookup_put_ne hk) (fun x hx => ?_) (Or.inr hlock)⟩
  have hlater : (c.set key value ttlSeconds now).lockAt gone key x = none :=
    lockAt_none hx hlock
  rw [Keyspace.find_put]
  by_cases halive : Alive gone (some (now + ttlSeconds)) x
  · have hvalue : (c.set key value ttlSeconds now).valueAt gone key x =
        some (value, now + ttlSeconds) :=
      valueAt_eq_some.mpr ⟨AList.lookup_insert _, halive⟩
    rw [if_pos halive, entryAt_of_valueAt hvalue]
  · rw [if_neg halive, eq_comm, entryAt_eq_none]
    refine ⟨?_, hlater⟩
    simp [valueAt, InMemoryL2.set, Option.filter, halive]

/-- What is deleted on Redis and in memory, where it is not of the other
kind. -/
theorem del (h : Agree c r now) (hstore : ∀ k ≠ key, d.store.lookup k = c.store.lookup k)
    (hlocks : ∀ k ≠ key, d.locks.lookup k = c.locks.lookup k)
    (hvalue : d.valueAt gone key now = none) (hlock : d.lockAt gone key now = none) :
    Agree d (r.del key) now := by
  refine h.write hstore hlocks (fun k hk => AList.lookup_erase_ne hk) (fun x hx => ?_)
    (Or.inl hvalue)
  rw [entryAt_eq_none.mpr ⟨valueAt_none hx hvalue, lockAt_none hx hlock⟩]
  simp [Keyspace.find, Keyspace.del]

/-- They agree after a key was deleted under which there is no lock.  In Redis
the lock would go as well. -/
theorem delete (h : Agree c r now) (hlock : c.lockAt gone key now = none) :
    Agree (c.delete key) (RedisL2.delete r key) now := by
  have hvalue : (c.delete key).valueAt gone key now = none := by
    simp [valueAt, InMemoryL2.delete]
  exact h.del (fun k hk => AList.lookup_erase_ne hk) (fun _ _ => rfl) hvalue hlock

/-- They agree after a lock was released under whose key there is no value.
In Redis the value would go as well. -/
theorem releaseLock (h : Agree c r now) (hvalue : c.valueAt gone key now = none) :
    Agree (c.releaseLock key) (RedisL2.releaseLock r key) now := by
  have hlock : (c.releaseLock key).lockAt gone key now = none := by
    simp [lockAt, InMemoryL2.releaseLock]
  exact h.del (fun _ _ => rfl) (fun k hk => AList.lookup_erase_ne hk) hvalue hlock

/-- A lock under a key without a value, not asked for at the instant it
lapses. -/
theorem acquireLock (h : Agree c r now) {ttlMs : ℤ} (hpos : 0 < ttlMs)
    (hvalue : c.valueAt gone key now = none)
    (hsharp : ∀ expires ∈ c.locks.lookup key, Alive gone (some expires) now → now < expires) :
    (RedisL2.acquireLock r key ttlMs now).1 = .ok (c.acquireLock key ttlMs now).1 ∧
      Agree (c.acquireLock key ttlMs now).2 (RedisL2.acquireLock r key ttlMs now).2 now := by
  have hfind := h.same key now le_rfl
  rw [entryAt_of_none hvalue] at hfind
  by_cases hlocked : c.Locked key now
  · obtain ⟨expires, hlookup, hlive⟩ := hlocked
    have hlock : c.lockAt gone key now = some expires :=
      lockAt_eq_some.mpr ⟨hlookup, alive_of_lt hlive⟩
    rw [hlock] at hfind
    rw [acquireLock_of_locked ⟨expires, hlookup, hlive⟩]
    have hrefused : RedisL2.acquireLock r key ttlMs now = (.ok false, r) := by
      simp [RedisL2.acquireLock, Keyspace.setNxPx, not_le.mpr hpos, hfind]
    rw [hrefused]
    exact ⟨rfl, h⟩
  · have hlock : c.lockAt gone key now = none := by
      cases hlock : c.lockAt gone key now with
      | none => rfl
      | some expires =>
          obtain ⟨hlookup, halive⟩ := lockAt_eq_some.mp hlock
          exact absurd ⟨expires, hlookup, hsharp expires hlookup halive⟩ hlocked
    rw [hlock] at hfind
    rw [acquireLock_of_not_locked hlocked]
    have hgranted : RedisL2.acquireLock r key ttlMs now =
        (.ok true, r.put key ⟨.text "1", some (now + ttlMs / 1000)⟩) := by
      simp [RedisL2.acquireLock, Keyspace.setNxPx, not_le.mpr hpos, hfind]
    rw [hgranted]
    refine ⟨rfl, h.write (fun _ _ => rfl) (fun k hk => AList.lookup_insert_ne hk)
      (fun k hk => Keyspace.lookup_put_ne hk) (fun x hx => ?_) (Or.inl hvalue)⟩
    have hlater : InMemoryL2.valueAt gone
        { c with locks := c.locks.insert key (now + ttlMs / 1000) } key x = none :=
      valueAt_none hx hvalue
    change _ = InMemoryL2.entryAt gone _ key x
    rw [Keyspace.find_put, entryAt_of_none hlater]
    by_cases halive : Alive gone (some (now + (ttlMs : ℚ) / 1000)) x <;>
      simp [lockAt, Option.filter, halive]

/-- The pattern finds the values whose keys start with the prefix and no
locks, and none of those has expired in memory. -/
def Clear (gone : Bool) (c : InMemoryL2) (pre : String) (now : ℚ) : Prop :=
  (∀ key ∈ c.store.keys, if c.valueAt gone key now = none then startsWith key pre = false
    else Matches (pre ++ "*") key ↔ startsWith key pre = true) ∧
  ∀ key ∈ c.locks.keys, c.lockAt gone key now ≠ none → ¬ Matches (pre ++ "*") key

instance (c : InMemoryL2) (pre : String) : Decidable (Clear gone c pre now) :=
  inferInstanceAs (Decidable ((∀ key ∈ c.store.keys, _) ∧ ∀ key ∈ c.locks.keys, (_ ≠ none → _)))

/-- For a prefix without special characters: no value under it has expired in
memory, and no lock is under it. -/
theorem clear_of_plain {pre : String} (hplain : ∀ x ∈ pre.toList, IsPlain x)
    (hvalues : ∀ key ∈ c.store.keys, startsWith key pre = true →
      c.valueAt gone key now ≠ none)
    (hlocks : ∀ key ∈ c.locks.keys, startsWith key pre = true → c.lockAt gone key now = none) :
    Clear gone c pre now := by
  have hfound := matches_iff_startsWith hplain
  constructor
  · intro key hkey
    split
    next hnone =>
        rw [← Bool.not_eq_true]
        exact fun hstarts => hvalues key hkey hstarts hnone
    next => exact hfound key
  · intro key hkey hlock hmatches
    exact hlock (hlocks key hkey ((hfound key).mp hmatches))

/-- Then both delete the same keys. -/
theorem mem_scan_iff (h : Agree c r now) {pre : String} (hclear : Clear gone c pre now) :
    key ∈ r.scan (pre ++ "*") now ↔ key ∈ c.matched pre := by
  rw [Keyspace.mem_scan, h.same key now le_rfl, matched, List.mem_filter]
  constructor
  · intro hscan
    obtain ⟨⟨entry, hentry⟩, hmatches⟩ := hscan
    cases hvalue : c.valueAt gone key now with
    | some value =>
        have hkey := AList.lookup_isSome.mp
          (Option.isSome_iff_exists.mpr ⟨_, (valueAt_eq_some.mp hvalue).1⟩)
        have hpattern := hclear.1 key hkey
        rw [if_neg (by simp [hvalue])] at hpattern
        exact ⟨hkey, hpattern.mp hmatches⟩
    | none =>
        rw [entryAt_of_none hvalue] at hentry
        obtain ⟨expires, hlock, -⟩ := Option.map_eq_some_iff.mp hentry
        have hkey := AList.lookup_isSome.mp
          (Option.isSome_iff_exists.mpr ⟨_, (lockAt_eq_some.mp hlock).1⟩)
        exact absurd hmatches (hclear.2 key hkey (by simp [hlock]))
  · intro hmatched
    obtain ⟨hkey, hstarts⟩ := hmatched
    have hpattern := hclear.1 key hkey
    cases hvalue : c.valueAt gone key now with
    | none =>
        rw [if_pos hvalue, hstarts] at hpattern
        cases hpattern
    | some value =>
        rw [if_neg (by simp [hvalue])] at hpattern
        exact ⟨⟨_, entryAt_of_valueAt hvalue⟩, hpattern.mpr hstarts⟩

/-- They agree after the entries under a prefix were deleted, and on how many
there were, if nothing but entries begins with it. -/
theorem deletePrefix (h : Agree c r now) {pre : String} (hclear : Clear gone c pre now) :
    (RedisL2.deletePrefix r pre now).1 = (c.deletePrefix pre).1 ∧
      Agree (c.deletePrefix pre).2 (RedisL2.deletePrefix r pre now).2 now := by
  have hsame : ∀ k, k ∈ r.scan (pre ++ "*") now ↔ k ∈ c.matched pre := fun k =>
    h.mem_scan_iff hclear
  constructor
  · have hnodup : (c.matched pre).Nodup := (AList.keys_nodup c.store).filter _
    have hperm := (List.perm_ext_iff_of_nodup (r.nodup_scan _) hnodup).mpr hsame
    exact hperm.length_eq
  · have hvalueAt : ∀ k x, (c.deletePrefix pre).2.valueAt gone k x =
        if k ∈ c.matched pre then none else c.valueAt gone k x := by
      intro k x
      simp only [valueAt, InMemoryL2.deletePrefix, lookup_eraseAll]
      split <;> simp
    have hfind : ∀ k x, (RedisL2.deletePrefix r pre now).2.find k x =
        if k ∈ c.matched pre then none else r.find k x := by
      intro k x
      simp only [Keyspace.find, RedisL2.deletePrefix, lookup_eraseAll, hsame]
      split <;> simp
    constructor
    · intro k x hx
      rw [hfind]
      by_cases hk : k ∈ c.matched pre
      · -- a key with a value has no lock
        obtain ⟨hkey, hstarts⟩ := List.mem_filter.mp hk
        have halive : c.valueAt gone k now ≠ none := by
          intro hnone
          have hpattern := hclear.1 k hkey
          rw [if_pos hnone, hstarts] at hpattern
          cases hpattern
        have hlock := (h.apart k).resolve_left halive
        rw [if_pos hk, eq_comm, entryAt_eq_none, hvalueAt, if_pos hk]
        exact ⟨rfl, lockAt_none hx hlock⟩
      · have hentry : (c.deletePrefix pre).2.entryAt gone k x = c.entryAt gone k x := by
          simp only [entryAt, hvalueAt, if_neg hk]
          rfl
        rw [if_neg hk, hentry]
        exact h.same k x hx
    · intro k
      rcases h.apart k with hvalue | hlock
      · left
        rw [hvalueAt, hvalue]
        split <;> rfl
      · exact Or.inr hlock

end Agree

/-- The same calls on both backends, and the time of the last one. -/
structure Twins (gone : Bool) where
  memory : InMemoryL2 := {}
  redis : Keyspace gone := {}
  clock : ℚ

namespace Twins

/-- The same call, to both of the tiers. -/
def step (s : Twins gone) (e : L2Call × ℚ) : Option (Twins gone) :=
  if s.clock ≤ e.2 then
    some ⟨(s.memory.reply e.2 e.1).2, (RedisL2.reply s.redis e.2 e.1).2, e.2⟩
  else none

/-- One call, not before the last one. -/
def Step (s : Twins gone) (e : L2Call × ℚ) (t : Twins gone) : Prop := s.step e = some t

/-- The backends return the same, and Redis does not raise. -/
def SameReply (s : Twins gone) (e : L2Call × ℚ) (_ : Twins gone) : Prop :=
  (RedisL2.reply s.redis e.2 e.1).1 = .ok (s.memory.reply e.2 e.1).1

/-- The call runs into no difference: times to live are positive; a key is
that of a value or of a lock; a prefix is found by its pattern; and neither a
value is read nor a lock asked for at the very instant it expires, if Redis
treats that otherwise. -/
def Kept (s : Twins gone) (e : L2Call × ℚ) (_ : Twins gone) : Prop :=
  match e.1 with
  | .get key => s.memory.lockAt gone key e.2 = none ∧
      ∀ entry ∈ s.memory.store.lookup key, e.2 ≤ entry.2 → Alive gone (some entry.2) e.2
  | .set key _ ttlSeconds => 0 < ttlSeconds ∧ s.memory.lockAt gone key e.2 = none
  | .delete key => s.memory.lockAt gone key e.2 = none
  | .deletePrefix pre => Agree.Clear gone s.memory pre e.2
  | .acquireLock lockKey ttlMs => 0 < ttlMs ∧ s.memory.valueAt gone lockKey e.2 = none ∧
      ∀ expires ∈ s.memory.locks.lookup lockKey,
        Alive gone (some expires) e.2 → e.2 < expires
  | .releaseLock lockKey => s.memory.valueAt gone lockKey e.2 = none

instance (s : Twins gone) (e : L2Call × ℚ) (t : Twins gone) : Decidable (s.Kept e t) :=
  match e with
  | (.get _, _) => inferInstanceAs (Decidable (_ = none ∧ _))
  | (.set _ _ _, _) => inferInstanceAs (Decidable (_ < _ ∧ _ = none))
  | (.delete _, _) => inferInstanceAs (Decidable (_ = none))
  | (.deletePrefix _, _) => inferInstanceAs (Decidable (Agree.Clear _ _ _ _))
  | (.acquireLock _ _, _) => inferInstanceAs (Decidable (_ < _ ∧ _ = none ∧ _))
  | (.releaseLock _, _) => inferInstanceAs (Decidable (_ = none))

variable {s t : Twins gone}

/-- **The same call on both** returns the same, and leaves them with the same
values and locks. -/
theorem same_call {e : L2Call × ℚ} (hs : Agree s.memory s.redis s.clock) (h : s.Step e t)
    (hkept : s.Kept e t) : Agree t.memory t.redis t.clock ∧ s.SameReply e t := by
  obtain ⟨call, now⟩ := e
  obtain ⟨hclock, rfl⟩ : s.clock ≤ now ∧ _ = t := by simpa [Step, step] using h
  have hnow := hs.later hclock
  cases call with
  | get key =>
      obtain ⟨hreply, hagree⟩ := hnow.get hkept.1 hkept.2
      exact ⟨hagree, by simp only [SameReply, RedisL2.reply, hreply]; rfl⟩
  | set key value ttlSeconds =>
      obtain ⟨hreply, hagree⟩ := hnow.set hkept.1 hkept.2
      exact ⟨hagree, by simp only [SameReply, RedisL2.reply, hreply]; rfl⟩
  | delete key => exact ⟨hnow.delete hkept, rfl⟩
  | deletePrefix pre =>
      obtain ⟨hreply, hagree⟩ := hnow.deletePrefix hkept
      exact ⟨hagree, by simp only [SameReply, RedisL2.reply, hreply]; rfl⟩
  | acquireLock lockKey ttlMs =>
      obtain ⟨hreply, hagree⟩ := hnow.acquireLock hkept.1 hkept.2.1 hkept.2.2
      exact ⟨hagree, by simp only [SameReply, RedisL2.reply, hreply]; rfl⟩
  | releaseLock lockKey => exact ⟨hnow.releaseLock hkept, rfl⟩

theorem agree_start (clock : ℚ) : Agree ({} : InMemoryL2) ({} : Keyspace gone) clock :=
  ⟨fun _ _ _ => rfl, fun _ => Or.inl rfl⟩

/-- **Where the backends agree.**  In a run of calls on new backends none of
which runs into a difference, all calls return the same on both. -/
theorem same_replies_of_kept {clock : ℚ} {calls : List (L2Call × ℚ)}
    (hrun : Run (Guarded Step Kept) { clock := clock } calls t) :
    Run (Guarded Step SameReply) { clock := clock } calls t := by
  apply hrun.transfer (I := fun s => Agree s.memory s.redis s.clock) (agree_start clock)
  intro s e t hs hstep
  obtain ⟨hagree, hsame⟩ := same_call hs hstep.1 hstep.2
  exact ⟨hagree, hstep.1, hsame⟩

end Twins

/-- A value that is computed under a lock, read and dropped by its prefix. -/
def cachedForAcme : List (L2Call × ℚ) :=
  [(.acquireLock "atlas:acme:k:lock" 5000, 0), (.set "atlas:acme:k" "1" 60, 1),
    (.releaseLock "atlas:acme:k:lock", 1), (.get "atlas:acme:k", 2),
    (.deletePrefix "atlas:acme:", 3), (.get "atlas:acme:k", 4)]

/-- A run for one tenant in which both tiers have answered alike all the
time. -/
theorem acme_cached_alike : ∃ s t : Twins false,
    Run (Guarded Twins.Step Twins.SameReply) { clock := 0 } cachedForAcme t ∧
      Run Twins.Step { clock := 0 } (cachedForAcme.take 4) s ∧
      (s.memory.reply 3 (.deletePrefix "atlas:acme:")).1 = .deleted 1 := by
  obtain ⟨t, ht⟩ : ∃ t, execGuarded Twins.step Twins.Kept ({ clock := 0 } : Twins false)
      cachedForAcme = some t := by
    apply Option.isSome_iff_exists.mp
    decide +kernel
  obtain ⟨s, hs, hdeleted⟩ : ∃ s ∈ exec Twins.step ({ clock := 0 } : Twins false)
      (cachedForAcme.take 4),
      (s.memory.reply 3 (.deletePrefix "atlas:acme:")).1 = .deleted 1 := by decide +kernel
  exact ⟨s, t, Twins.same_replies_of_kept (Run.of_execGuarded ht), Run.of_exec hs, hdeleted⟩

/-- A prefix with a question mark is one of no key in memory, and a pattern
for the value on Redis. -/
theorem question_mark_deletes_on_redis : ∃ s t : Twins false,
    Run Twins.Step { clock := 0 } [(.set "atlas:acme:k" "1" 60, 0)] s ∧
      s.Step (.deletePrefix "atlas:acm?:", 1) t ∧
      (s.memory.reply 1 (.deletePrefix "atlas:acm?:")).1 = .deleted 0 ∧
      (RedisL2.reply s.redis 1 (.deletePrefix "atlas:acm?:")).1.toOption = some (.deleted 1) ∧
      ¬ s.SameReply (.deletePrefix "atlas:acm?:", 1) t := by
  obtain ⟨s, hs, t, ht, hmemory, hredis⟩ :
      ∃ s ∈ exec Twins.step ({ clock := 0 } : Twins false) [(.set "atlas:acme:k" "1" 60, 0)],
        ∃ t ∈ s.step (.deletePrefix "atlas:acm?:", 1),
          (s.memory.reply 1 (.deletePrefix "atlas:acm?:")).1 = .deleted 0 ∧
          (RedisL2.reply s.redis 1 (.deletePrefix "atlas:acm?:")).1.toOption =
            some (.deleted 1) := by decide +kernel
  refine ⟨s, t, Run.of_exec hs, ht, hmemory, hredis, fun hsame => ?_⟩
  rw [hsame, hmemory] at hredis
  cases hredis

end Cache
