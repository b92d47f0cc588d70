import AtlasMcp.LruLists

/-!
# Ordered dictionaries

`OrderedDict` is Python's: items in an order of their own, one for each key.  Assigning to a key
that is there leaves it in its place; `moveToEnd` and `popFirst` are what makes such a
dictionary a store in order of last use.
-/

namespace LruLists

/-- Python's `OrderedDict`. -/
structure OrderedDict (κ β : Type*) where
  items : List (κ × β)
  nodup : (keys items).Nodup

namespace OrderedDict

variable {κ β : Type*}

/-- A dictionary without items. -/
def empty : OrderedDict κ β := ⟨[], List.nodup_nil⟩

/-- `popitem(last=False)`. -/
def popFirst (d : OrderedDict κ β) : OrderedDict κ β where
  items := d.items.tail
  nodup := d.nodup.sublist (d.items.tail_sublist.map _)

/-- `while len(d) > n: d.popitem(last=False)`. -/
def popFirstDownTo (n : ℕ) (d : OrderedDict κ β) : OrderedDict κ β :=
  if n < d.items.length then d.popFirst.popFirstDownTo n else d
termination_by d.items.length
decreasing_by
  simp only [popFirst, List.length_tail]
  omega

theorem items_popFirst (d : OrderedDict κ β) : d.popFirst.items = d.items.drop 1 :=
  List.drop_one.symm

/-- Popping down to a number leaves that many of the last items. -/
theorem items_popFirstDownTo (n : ℕ) (d : OrderedDict κ β) :
    (d.popFirstDownTo n).items = newest n d.items := by
  induction d using popFirstDownTo.induct (n := n) with
  | case1 d hlt ih =>
      have hlength : 1 + (d.popFirst.items.length - n) = d.items.length - n := by
        rw [items_popFirst, List.length_drop]
        omega
      rw [popFirstDownTo, if_pos hlt, ih, newest, newest, ← hlength]
      simp only [items_popFirst, List.drop_drop]
  | case2 d hle =>
      rw [popFirstDownTo, if_neg hle, newest, Nat.sub_eq_zero_of_le (not_lt.mp hle),
        List.drop_zero]

variable [DecidableEq κ]

/-- `d.get(k)`. -/
def get? (d : OrderedDict κ β) (k : κ) : Option β := d.items.lookup k

/-- The items of `d[k] = b`: in place, if the key is there. -/
def assigned (l : List (κ × β)) (k : κ) (b : β) : List (κ × β) :=
  if k ∈ keys l then l.map fun r => if r.1 = k then (k, b) else r else l ++ [(k, b)]

/-- The items of `d.move_to_end(k)`. -/
def movedToEnd (l : List (κ × β)) (k : κ) : List (κ × β) :=
  l.filter (fun r => r.1 ≠ k) ++ l.filter fun r => r.1 = k

/-- To assign a key adds it if it is new, so that no key occurs twice. -/
theorem nodup_keys_assigned {l : List (κ × β)} (h : (keys l).Nodup) (k : κ) (b : β) :
    (keys (assigned l k b)).Nodup := by
  unfold assigned
  split
  next hmem =>
    have hkeys : keys (l.map fun r => if r.1 = k then (k, b) else r) = keys l := by
      rw [keys, List.map_map]
      refine List.map_congr_left fun r _ => ?_
      by_cases hr : r.1 = k <;> simp [hr]
    exact hkeys ▸ h
  next hmem =>
    rw [keys, List.map_append, List.nodup_append]
    refine ⟨h, List.nodup_singleton _, fun a ha c hc heq => ?_⟩
    obtain rfl : c = k := List.mem_singleton.mp hc
    exact hmem (heq ▸ ha)

theorem nodup_keys_movedToEnd {l : List (κ × β)} (h : (keys l).Nodup) (k : κ) :
    (keys (movedToEnd l k)).Nodup := by
  have hperm : (movedToEnd l k).Perm l := by
    refine List.perm_append_comm.trans ?_
    simpa using List.filter_append_perm (fun r : κ × β => decide (r.1 = k)) l
  exact (hperm.map _).nodup_iff.mpr h

/-- `d[k] = b`. -/
def setItem (d : OrderedDict κ β) (k : κ) (b : β) : OrderedDict κ β where
  items := assigned d.items k b
  nodup := nodup_keys_assigned d.nodup k b

/-- `d.move_to_end(k)` of a key that is there. -/
def moveToEnd (d : OrderedDict κ β) (k : κ) : OrderedDict κ β where
  items := movedToEnd d.items k
  nodup := nodup_keys_movedToEnd d.nodup k

/-- `d.pop(k, None)`. -/
def pop (d : OrderedDict κ β) (k : κ) : OrderedDict κ β where
  items := without d.items k
  nodup := d.nodup.sublist (List.filter_sublist.map _)

variable {d : OrderedDict κ β} {k : κ} {b : β}

/-- The record of a key, by itself. -/
theorem filter_key_eq (hlookup : d.get? k = some b) :
    (d.items.filter fun r => r.1 = k) = [(k, b)] := by
  have hmem := (lookup_eq_some_iff_mem d.nodup).mp hlookup
  have hperm : (d.items.filter fun r => r.1 = k).Perm [(k, b)] := by
    rw [List.perm_ext_iff_of_nodup (d.nodup.of_map _ |>.filter _) (List.nodup_singleton _)]
    intro r
    rw [List.mem_filter, List.mem_singleton, decide_eq_true_eq]
    constructor
    · exact fun hr => eq_of_key_eq d.nodup hr.1 hmem hr.2
    · rintro rfl
      exact ⟨hmem, rfl⟩
  exact List.perm_singleton.mp hperm

/-- A key that is moved is touched. -/
theorem items_moveToEnd (hlookup : d.get? k = some b) :
    (d.moveToEnd k).items = touch d.items k b :=
  congrArg (without d.items k ++ ·) (filter_key_eq hlookup)

theorem get?_setItem (d : OrderedDict κ β) (k : κ) (b : β) : (d.setItem k b).get? k = some b := by
  refine (lookup_eq_some_iff_mem (d.setItem k b).nodup).mpr ?_
  show (k, b) ∈ assigned d.items k b
  unfold assigned
  split
  next h =>
    obtain ⟨r, hr, hkey⟩ := List.mem_map.mp h
    exact List.mem_map.mpr ⟨r, hr, if_pos hkey⟩
  next => exact List.mem_append_right _ (List.mem_singleton_self _)

/-- The other keys are where they were. -/
theorem without_assigned (l : List (κ × β)) (k : κ) (b : β) :
    without (assigned l k b) k = without l k := by
  unfold assigned
  split
  next =>
    have hkept : ((fun r : κ × β => decide (r.1 ≠ k)) ∘
        fun r : κ × β => if r.1 = k then (k, b) else r) = fun r => decide (r.1 ≠ k) := by
      funext r
      by_cases hr : r.1 = k <;> simp [hr]
    rw [without, List.filter_map, hkept]
    refine (List.map_congr_left fun r hr => ?_).trans (List.map_id _)
    exact if_neg (by simpa using (List.mem_filter.mp hr).2)
  next => simp [without]

/-- A key that is written and moved is touched. -/
theorem items_setItem_moveToEnd (d : OrderedDict κ β) (k : κ) (b : β) :
    ((d.setItem k b).moveToEnd k).items = touch d.items k b := by
  rw [items_moveToEnd (get?_setItem d k b)]
  exact congrArg (· ++ [(k, b)]) (without_assigned d.items k b)

/-- Some keys, popped one by one. -/
theorem items_foldl_pop (ks : List κ) (d : OrderedDict κ β) :
    (ks.foldl pop d).items = d.items.filter fun r => r.1 ∉ ks := by
  induction ks generalizing d with
  | nil => simp
  | cons k ks ih =>
      rw [List.foldl_cons, ih]
      show (d.items.filter _).filter _ = _
      rw [List.filter_filter]
      refine List.filter_congr fun r _ => ?_
      simp [Bool.and_comm]

end OrderedDict

end LruLists
