import AtlasMcp.CacheTiers
import AtlasMcp.OrderedDicts

/-!
# The in-process cache is a list in order of last use

`OrderedL1Cache` is `L1Cache` as the code has it, over an ordered dictionary: a write assigns to
the key and moves it to the end, then pops the first items while there are too many.  Each
operation does to the items what it does to the reference list (`items_call`), so the cache
behaves as a store in order of last use (`l1Cache_behavesAsLru`).

The caches of the other modules keep the same items, the one used last in front
(`mirror_call`).
-/

namespace Cache

open PyJson PyText StoreRecords LruLists

variable {F : Type}

/-- `L1Cache`, with its `OrderedDict`. -/
structure OrderedL1Cache (F : Type) where
  maxItems : ℕ
  store : OrderedDict String (L1Entry F) := .empty

/-- A call of a method of the cache. -/
inductive L1Call (F : Type)
  | get (key : String)
  | set (key : String) (value : Value F) (ttlSeconds : ℤ)
  | delete (key : String)
  | deletePrefix (pre : String)

namespace OrderedL1Cache

/-- `L1Cache.get`, over the ordered dictionary: a hit moves its entry to the
end. -/
def get (c : OrderedL1Cache F) (key : String) (now : ℚ) : Value F × OrderedL1Cache F :=
  match c.store.get? key with
  | none => (.none, c)
  | some entry =>
      if entry.expiresAt < now then (.none, { c with store := c.store.pop key })
      else (entry.value, { c with store := c.store.moveToEnd key })

/-- `L1Cache.set`, over the ordered dictionary: the entry goes to the end, and
those at the front go until there is room for it. -/
def set (c : OrderedL1Cache F) (key : String) (value : Value F) (ttlSeconds : ℤ) (now : ℚ) :
    OrderedL1Cache F :=
  { c with
    store := ((c.store.setItem key ⟨value, now + ttlSeconds⟩).moveToEnd key).popFirstDownTo
      c.maxItems }

/-- `L1Cache.delete`, over the ordered dictionary. -/
def delete (c : OrderedL1Cache F) (key : String) : OrderedL1Cache F :=
  { c with store := c.store.pop key }

/-- `L1Cache.delete_prefix`, over the ordered dictionary. -/
def deletePrefix (c : OrderedL1Cache F) (pre : String) : ℕ × OrderedL1Cache F :=
  let matched := (keys c.store.items).filter fun k => startsWith k pre
  (matched.length, { c with store := matched.foldl .pop c.store })

/-- What a call returns, and the cache after it. -/
def call (c : OrderedL1Cache F) (now : ℚ) : L1Call F → Value F × OrderedL1Cache F
  | .get key => c.get key now
  | .set key value ttlSeconds => (.none, c.set key value ttlSeconds now)
  | .delete key => (.none, c.delete key)
  | .deletePrefix pre =>
      let (count, c) := c.deletePrefix pre
      (.int count, c)

/-- The cache after the first calls, each made at its time. -/
def afterCalls (maxItems : ℕ) (calls : ℕ → L1Call F) (clock : ℕ → ℚ) : ℕ → OrderedL1Cache F
  | 0 => { maxItems }
  | n + 1 => ((afterCalls maxItems calls clock n).call (clock n) (calls n)).2

/-- What a call of the run returns. -/
def returned (maxItems : ℕ) (calls : ℕ → L1Call F) (clock : ℕ → ℚ) (n : ℕ) : Value F :=
  ((afterCalls maxItems calls clock n).call (clock n) (calls n)).1

end OrderedL1Cache

/-- What a call is to a list in order of last use. -/
def L1Call.toOp (now : ℚ) : L1Call F → Op String (L1Entry F)
  | .get key => .get key
  | .set key value ttlSeconds => .set key ⟨value, now + ttlSeconds⟩
  | .delete key => .remove fun k => k = key
  | .deletePrefix pre => .remove fun k => startsWith k pre

namespace OrderedL1Cache

variable {c : OrderedL1Cache F} {now : ℚ}

/-- No call changes how many entries there is room for. -/
theorem call_maxItems (c : OrderedL1Cache F) (now : ℚ) (x : L1Call F) :
    (c.call now x).2.maxItems = c.maxItems := by
  cases x with
  | get key =>
      simp only [call, get]
      split
      · rfl
      · split <;> rfl
  | _ => rfl

/-- A call does to the items what its operation does to the reference list. -/
theorem items_call (c : OrderedL1Cache F) (now : ℚ) (x : L1Call F) :
    (c.call now x).2.store.items =
      step L1Entry.expiresAt c.maxItems c.store.items now (x.toOp now) := by
  cases x with
  | get key =>
      cases hget : c.store.get? key with
      | none =>
          have hlookup : c.store.items.lookup key = none := hget
          simp only [call, get, hget, L1Call.toOp, step, hlookup]
      | some entry =>
          have hlookup : c.store.items.lookup key = some entry := hget
          by_cases hexpired : entry.expiresAt < now
          · simp only [call, get, hget, L1Call.toOp, step, hlookup, if_pos hexpired]
            rfl
          · simp only [call, get, hget, L1Call.toOp, step, hlookup, if_neg hexpired]
            exact OrderedDict.items_moveToEnd hget
  | set key value ttlSeconds =>
      show (OrderedDict.popFirstDownTo _ _).items = newest _ _
      rw [OrderedDict.items_popFirstDownTo, OrderedDict.items_setItem_moveToEnd]
  | delete key =>
      show without _ _ = List.filter _ _
      exact List.filter_congr fun r _ => by simp
  | deletePrefix pre =>
      refine (OrderedDict.items_foldl_pop _ _).trans ?_
      refine List.filter_congr fun r hr => ?_
      have hmem : r.1 ∈ keys c.store.items := List.mem_map_of_mem hr
      simp [hmem]

/-- A read answers what it does of the reference list. -/
theorem call_get (c : OrderedL1Cache F) (now : ℚ) (key : String) :
    (c.call now (.get key)).1 =
      answer L1Entry.expiresAt L1Entry.value .none c.store.items now key := by
  cases hget : c.store.get? key with
  | none =>
      have hlookup : c.store.items.lookup key = none := hget
      simp only [call, get, hget, answer, hlookup]
  | some entry =>
      have hlookup : c.store.items.lookup key = some entry := hget
      by_cases hexpired : entry.expiresAt < now <;>
        simp only [call, get, hget, answer, hlookup, hexpired, if_true, if_false]

/-- The number a bulk deletion returns is that of the items it drops. -/
theorem call_deletePrefix (c : OrderedL1Cache F) (now : ℚ) (pre : String) :
    (c.call now (.deletePrefix pre)).1 =
      .int (c.store.items.countP fun r => startsWith r.1 pre) := by
  simp [call, deletePrefix, keys, List.filter_map, List.countP_eq_length_filter,
    Function.comp_def]

theorem afterCalls_maxItems (maxItems : ℕ) (calls : ℕ → L1Call F) (clock : ℕ → ℚ) (n : ℕ) :
    (afterCalls maxItems calls clock n).maxItems = maxItems := by
  induction n with
  | zero => rfl
  | succ n ih => exact (call_maxItems ..).trans ih

/-- Along a run the items are the reference list. -/
theorem items_afterCalls (maxItems : ℕ) (calls : ℕ → L1Call F) (clock : ℕ → ℚ) (n : ℕ) :
    (afterCalls maxItems calls clock n).store.items =
      after (fun n => (calls n).toOp (clock n)) L1Entry.expiresAt clock maxItems n := by
  induction n with
  | zero => rfl
  | succ n ih => rw [afterCalls, items_call, ih, afterCalls_maxItems, after]

/-- **The cache drops what was not used for longest.**  Along every run of
calls on a clock that does not run backwards. -/
theorem l1Cache_behavesAsLru (maxItems : ℕ) (calls : ℕ → L1Call F) (clock : ℕ → ℚ)
    (hclock : Monotone clock) :
    BehavesAsLru (fun n => (calls n).toOp (clock n))
      (fun n => (afterCalls maxItems calls clock n).store.items) L1Entry.expiresAt clock maxItems
      L1Entry.value .none (returned maxItems calls clock) := by
  have hsame : (fun n => (afterCalls maxItems calls clock n).store.items) =
      after (fun n => (calls n).toOp (clock n)) L1Entry.expiresAt clock maxItems :=
    funext (items_afterCalls maxItems calls clock)
  rw [hsame]
  refine behavesAsLru_after maxItems hclock _ _ fun n k hget => ?_
  obtain ⟨key, hcall⟩ : ∃ key, calls n = .get key := by
    cases hcall : calls n with
    | get key => exact ⟨key, rfl⟩
    | _ =>
        rw [hcall] at hget
        cases hget
  obtain rfl : key = k := by
    rw [hcall] at hget
    exact Op.get.inj hget
  rw [returned, hcall, call_get, items_afterCalls]

/-- Two writes, and reads of the first key. -/
def twoWrites : ℕ → L1Call Unit
  | 0 => .set "a" (.int 1) 60
  | 1 => .set "b" (.int 2) 60
  | _ => .get "a"

/-- With room for one entry, only one of them is left. -/
theorem twoWrites_bounded : (afterCalls 1 twoWrites (fun _ => 0) 2).store.items.length ≤ 1 :=
  (l1Cache_behavesAsLru 1 twoWrites (fun _ => 0) monotone_const).bounded 2

example : LruLists.keys (afterCalls 1 twoWrites (fun _ => 0) 2).store.items = ["b"] := by
  rw [items_afterCalls]
  rfl

/-! ## The cache of the other modules -/

/-- The items of an ordered dictionary as the entries of an association list,
the last one in front. -/
def toEntries (items : List (String × L1Entry F)) : List (Sigma fun _ : String => L1Entry F) :=
  (items.map fun r => ⟨r.1, r.2⟩).reverse

/-- Records under different keys are entries under different keys. -/
theorem nodupKeys_toEntries {items : List (String × L1Entry F)} (h : (LruLists.keys items).Nodup) :
    (toEntries items).NodupKeys := by
  have hkeys : (toEntries items).keys = (LruLists.keys items).reverse := by
    simp [toEntries, List.keys, LruLists.keys, List.map_reverse, Function.comp_def]
  rw [List.NodupKeys, hkeys]
  exact List.nodup_reverse.mpr h

/-- The same cache as an `L1Cache`. -/
def mirror (c : OrderedL1Cache F) : L1Cache F where
  maxItems := c.maxItems
  store := ⟨toEntries c.store.items, nodupKeys_toEntries c.store.nodup⟩

/-- Where no key occurs twice, to erase a key is to leave out what is under
it. -/
theorem kerase_eq_filter {l : List (Sigma fun _ : String => L1Entry F)} (h : l.NodupKeys)
    (key : String) : l.kerase key = l.filter fun s => s.1 ≠ key := by
  induction l with
  | nil => rfl
  | cons s l ih =>
      obtain ⟨hfresh, hrest⟩ := List.nodupKeys_cons.mp h
      by_cases hkey : key = s.1
      · subst hkey
        rw [List.kerase_cons_eq rfl, List.filter_cons_of_neg (by simp)]
        refine (List.filter_eq_self.mpr fun t ht => ?_).symm
        have hne : t.1 ≠ s.1 := fun heq => hfresh (heq ▸ List.mem_keys_of_mem ht)
        simpa using hne
      · rw [List.kerase_cons_ne hkey, List.filter_cons_of_pos (by simpa using Ne.symm hkey),
          ih hrest]

/-- To leave out records is to leave out their entries. -/
theorem toEntries_filter (items : List (String × L1Entry F)) (p : String → Bool) :
    (toEntries items).filter (fun s => p s.1) = toEntries (items.filter fun r => p r.1) := by
  simp [toEntries, List.filter_reverse, List.filter_map, Function.comp_def]

/-- The two forms of the cache have the same entry under a key. -/
theorem mirror_lookup (c : OrderedL1Cache F) (key : String) :
    c.mirror.store.lookup key = c.store.get? key := by
  refine Option.ext fun entry => ?_
  rw [← Option.mem_def, AList.mem_lookup_iff, OrderedDict.get?,
    lookup_eq_some_iff_mem c.store.nodup]
  simp [mirror, toEntries]

theorem mirror_erase (c : OrderedL1Cache F) (key : String) :
    c.mirror.store.erase key =
      ({ c with store := c.store.pop key } : OrderedL1Cache F).mirror.store :=
  AList.ext ((kerase_eq_filter (nodupKeys_toEntries c.store.nodup) key).trans
    (toEntries_filter c.store.items fun k => k ≠ key))

/-- A record that is touched is an entry that is written again. -/
theorem entries_insert (c : OrderedL1Cache F) (key : String) (entry : L1Entry F) :
    (c.mirror.store.insert key entry).entries = toEntries (touch c.store.items key entry) := by
  have herase := congrArg AList.entries (mirror_erase c key)
  refine (congrArg (List.cons ⟨key, entry⟩) herase).trans ?_
  simp [mirror, toEntries, touch, OrderedDict.pop]

/-- A look-up does the same to both of them, and answers the same. -/
theorem mirror_get (c : OrderedL1Cache F) (key : String) (now : ℚ) :
    c.mirror.get key now = ((c.get key now).1, (c.get key now).2.mirror) := by
  cases hget : c.store.get? key with
  | none => simp only [L1Cache.get, mirror_lookup, hget, get]
  | some entry =>
      by_cases hexpired : entry.expiresAt < now
      · simp only [L1Cache.get, mirror_lookup, hget, get, if_pos hexpired, mirror_erase]
        rfl
      · have hinsert : c.mirror.store.insert key entry =
            ({ c with store := c.store.moveToEnd key } : OrderedL1Cache F).mirror.store :=
          AList.ext ((entries_insert c key entry).trans
            (congrArg toEntries (OrderedDict.items_moveToEnd hget).symm))
        simp only [L1Cache.get, mirror_lookup, hget, get, if_neg hexpired, hinsert]
        rfl

theorem mirror_set (c : OrderedL1Cache F) (key : String) (value : Value F) (ttlSeconds : ℤ)
    (now : ℚ) :
    c.mirror.set key value ttlSeconds now = (c.set key value ttlSeconds now).mirror := by
  have hstore : (c.mirror.set key value ttlSeconds now).store =
      (c.set key value ttlSeconds now).mirror.store := by
    apply AList.ext
    show (AList.entries (c.mirror.store.insert key _)).take c.maxItems =
      toEntries (OrderedDict.items (OrderedDict.popFirstDownTo _ _))
    rw [entries_insert, OrderedDict.items_popFirstDownTo, OrderedDict.items_setItem_moveToEnd,
      toEntries, List.take_reverse, ← List.map_drop, List.length_map]
    rfl
  exact congrArg (fun store => ({ maxItems := c.maxItems, store } : L1Cache F)) hstore

theorem mirror_delete (c : OrderedL1Cache F) (key : String) :
    c.mirror.delete key = (c.delete key).mirror := by
  rw [L1Cache.delete, mirror_erase]
  rfl

theorem mirror_eraseAll (c : OrderedL1Cache F) (ks : List String) :
    eraseAll c.mirror.store ks =
      ({ c with store := ks.foldl .pop c.store } : OrderedL1Cache F).mirror.store := by
  induction ks generalizing c with
  | nil => rfl
  | cons k ks ih =>
      rw [eraseAll, List.foldl_cons, mirror_erase]
      exact ih { c with store := c.store.pop k }

/-- The keys of a prefix are found in the other order, and popped all the
same. -/
theorem mirror_deletePrefix (c : OrderedL1Cache F) (pre : String) :
    c.mirror.deletePrefix pre = ((c.deletePrefix pre).1, (c.deletePrefix pre).2.mirror) := by
  have hmatched : c.mirror.matched pre =
      ((LruLists.keys c.store.items).filter fun k => startsWith k pre).reverse := by
    simp [L1Cache.matched, mirror, toEntries, AList.keys, List.keys, LruLists.keys,
      List.map_reverse, List.filter_reverse, Function.comp_def]
  have hitems : OrderedDict.items ((c.mirror.matched pre).foldl .pop c.store) =
      (c.deletePrefix pre).2.store.items := by
    refine (OrderedDict.items_foldl_pop _ _).trans ((OrderedDict.items_foldl_pop _ _).trans ?_).symm
    exact List.filter_congr fun r _ => by simp only [hmatched, List.mem_reverse]
  refine Prod.ext ?_ (congrArg (fun store => ({ maxItems := c.maxItems, store } : L1Cache F)) ?_)
  · show (c.mirror.matched pre).length = _
    rw [hmatched, List.length_reverse]
    rfl
  · exact (mirror_eraseAll c _).trans (AList.ext (congrArg toEntries hitems))

end OrderedL1Cache

/-- A call of a method of an `L1Cache`. -/
def L1Cache.call (c : L1Cache F) (now : ℚ) : L1Call F → Value F × L1Cache F
  | .get key => c.get key now
  | .set key value ttlSeconds => (.none, c.set key value ttlSeconds now)
  | .delete key => (.none, c.delete key)
  | .deletePrefix pre =>
      let (count, c) := c.deletePrefix pre
      (.int count, c)

/-- **The two models of the cache agree** on every call. -/
theorem OrderedL1Cache.mirror_call (c : OrderedL1Cache F) (now : ℚ) (x : L1Call F) :
    c.mirror.call now x = ((c.call now x).1, (c.call now x).2.mirror) := by
  cases x with
  | get key => exact c.mirror_get key now
  | set key value ttlSeconds =>
      exact congrArg (Prod.mk _) (c.mirror_set key value ttlSeconds now)
  | delete key => exact congrArg (Prod.mk _) (c.mirror_delete key)
  | deletePrefix pre =>
      simp only [L1Cache.call, mirror_deletePrefix]
      rfl

end Cache
