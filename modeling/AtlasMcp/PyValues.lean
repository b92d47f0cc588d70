import AtlasMcp.ErrorFramework
import AtlasMcp.JsonSorted

/-!
# Values as Python code handles them

`Value` may hold a dictionary with a key twice; a `PyValue` is one that does not, anywhere.
The operations on these keep that by their type, and raise what Python raises on a value of
another shape.
-/

namespace PyJson

open Errors

/-- A value in which no dictionary holds a key twice. -/
abbrev PyValue (F : Type) : Type := { v : Value F // v.Wf }

/-- A dictionary of such values. -/
abbrev PyDict (F : Type) : Type := { kvs : List (String × Value F) // (Value.dict kvs).Wf }

variable {F : Type}

/-- The items of a list are well formed if and only if all of them are. -/
theorem Value.wfItems_iff {xs : List (Value F)} : Value.WfItems xs ↔ ∀ v ∈ xs, v.Wf := by
  induction xs with
  | nil => simp [Value.WfItems]
  | cons v xs ih => simp [Value.WfItems, ih]

/-- Setting a key is read back under it. -/
theorem dictGet_dictSet_self {α : Type} (kvs : List (String × α)) (key : String) (v : α) :
    dictGet (dictSet kvs key v) key = some v := by
  by_cases hany : kvs.any (·.1 = key) = true
  · rw [dictSet, if_pos hany, dictGet]
    induction kvs with
    | nil => simp at hany
    | cons kv kvs ih =>
        obtain ⟨first, x⟩ := kv
        by_cases hfirst : first = key
        · simp [hfirst]
        · have hrest : kvs.any (·.1 = key) = true := by simpa [hfirst] using hany
          have hne : (key == first) = false := by simpa using Ne.symm hfirst
          simpa [hfirst, List.lookup_cons, hne] using ih hrest
  · have hfresh : kvs.lookup key = none := by
      rw [List.lookup_eq_none_iff]
      intro kv hkv
      have hne : ¬ kv.1 = key := fun heq => hany (List.any_eq_true.mpr ⟨kv, hkv, by simpa⟩)
      simpa using Ne.symm hne
    rw [dictSet, if_neg hany, dictGet, List.lookup_append, hfresh]
    simp

/-- What is there under the other keys stays. -/
theorem dictGet_dictSet_of_ne {α : Type} (kvs : List (String × α)) {key name : String}
    (h : name ≠ key) (v : α) : dictGet (dictSet kvs key v) name = dictGet kvs name := by
  have hne : (name == key) = false := by simpa using h
  have hmap : (kvs.map fun kv => if kv.1 = key then (key, v) else kv).lookup name =
      kvs.lookup name := by
    induction kvs with
    | nil => rfl
    | cons kv kvs ih =>
        obtain ⟨first, x⟩ := kv
        by_cases hfirst : first = key
        · simpa [hfirst, List.lookup_cons, hne] using ih
        · cases hname : name == first with
          | true => simp [hfirst, List.lookup_cons, hname]
          | false => simpa [hfirst, List.lookup_cons, hname] using ih
  unfold dictSet dictGet
  split
  · exact hmap
  · rw [List.lookup_append]
    simp [List.lookup_cons, hne]

/-- No other member comes in. -/
theorem mem_dictSet {α : Type} {kvs : List (String × α)} {key : String} {v : α}
    {kv : String × α} (h : kv ∈ dictSet kvs key v) : kv ∈ kvs ∨ kv = (key, v) := by
  unfold dictSet at h
  split at h
  · obtain ⟨old, hold, rfl⟩ := List.mem_map.mp h
    by_cases hkey : old.1 = key
    · exact Or.inr (if_pos hkey)
    · rw [if_neg hkey]
      exact Or.inl hold
  · simpa using h

/-- Setting a key keeps the keys apart. -/
theorem nodup_dictSet {α : Type} {kvs : List (String × α)} (h : (kvs.map Prod.fst).Nodup)
    (key : String) (v : α) : ((dictSet kvs key v).map Prod.fst).Nodup := by
  unfold dictSet
  split
  · -- the key keeps its place
    have hkeys : (kvs.map fun kv => if kv.1 = key then (key, v) else kv).map Prod.fst =
        kvs.map Prod.fst := by
      rw [List.map_map]
      refine List.map_congr_left fun kv _ => ?_
      by_cases hkv : kv.1 = key <;> simp [hkv]
    rwa [hkeys]
  next hfresh =>
    have hnot : key ∉ kvs.map Prod.fst := by
      intro hmem
      obtain ⟨kv, hkv, hkey⟩ := List.mem_map.mp hmem
      exact hfresh (List.any_eq_true.mpr ⟨kv, hkv, by simpa using hkey⟩)
    rw [List.map_append, List.map_singleton, List.nodup_append]
    refine ⟨h, by simp, fun a ha b hb heq => ?_⟩
    obtain rfl : b = key := by simpa using hb
    exact hnot (heq ▸ ha)

/-- The values of a dictionary are well formed. -/
theorem PyDict.wf_of_mem (d : PyDict F) {kv : String × Value F} (h : kv ∈ d.val) : kv.2.Wf :=
  Value.wfMembers_iff.mp d.property.2 kv h

namespace PyValue

/-- `None`. -/
def none : PyValue F := ⟨.none, trivial⟩

/-- A text. -/
def str (s : String) : PyValue F := ⟨.str s, trivial⟩

/-- An integer. -/
def int (n : ℤ) : PyValue F := ⟨.int n, trivial⟩

/-- A boolean. -/
def bool (b : Bool) : PyValue F := ⟨.bool b, trivial⟩

/-- A list, whose items are well formed already. -/
def list (xs : List (PyValue F)) : PyValue F :=
  ⟨.list (xs.map Subtype.val), by
    refine Value.wfItems_iff.mpr fun v hv => ?_
    obtain ⟨x, -, rfl⟩ := List.mem_map.mp hv
    exact x.property⟩

/-- A dictionary, whose values are well formed already. -/
def dict (d : PyDict F) : PyValue F := ⟨.dict d.val, d.property⟩

end PyValue

namespace PyDict

/-- The dictionary of these pairs, whose keys differ. -/
def ofPairs (pairs : List (String × PyValue F)) (h : (pairs.map Prod.fst).Nodup) : PyDict F :=
  ⟨pairs.map fun kv => (kv.1, kv.2.val), by
    refine ⟨by simpa [List.map_map, Function.comp_def] using h, ?_⟩
    refine Value.wfMembers_iff.mpr fun kv hkv => ?_
    obtain ⟨pair, -, rfl⟩ := List.mem_map.mp hkv
    exact pair.2.property⟩

/-- `d.get(key)`. -/
def get? (d : PyDict F) (key : String) : Option (PyValue F) :=
  match h : dictGet d.val key with
  | some v => some ⟨v, by
      obtain ⟨before, after, hd, -⟩ := List.lookup_eq_some_iff.mp h
      have hmem : (key, v) ∈ d.val := by simp [hd]
      exact d.wf_of_mem hmem⟩
  | Option.none => Option.none

/-- What is found under a key is what the dictionary has there. -/
theorem map_get? (d : PyDict F) (key : String) :
    (d.get? key).map Subtype.val = dictGet d.val key := by
  unfold get?
  split
  next v h => simp [h]
  next h => simp [h]

/-- The value of the first pair. -/
theorem get?_ofPairs_cons (name : String) (v : PyValue F) (rest : List (String × PyValue F))
    (h : (((name, v) :: rest).map Prod.fst).Nodup) :
    (ofPairs ((name, v) :: rest) h).get? name = some v := by
  have hget : dictGet (ofPairs ((name, v) :: rest) h).val name = some v.val := by
    simp [ofPairs, dictGet]
  obtain ⟨w, hw, hval⟩ := Option.map_eq_some_iff.mp
    ((map_get? (ofPairs ((name, v) :: rest) h) name).trans hget)
  rw [hw, Subtype.ext hval]

/-- The members whose key is not `key`. -/
def without (d : PyDict F) (key : String) : PyDict F :=
  ⟨d.val.filter (·.1 ≠ key), by
    refine ⟨d.property.1.sublist (List.filter_sublist.map _), ?_⟩
    exact Value.wfMembers_iff.mpr fun kv hkv => d.wf_of_mem (List.mem_filter.mp hkv).1⟩

/-- `d[key] = v`, which is also `d | {key: v}`. -/
def set (d : PyDict F) (key : String) (v : PyValue F) : PyDict F :=
  ⟨dictSet d.val key v.val, nodup_dictSet d.property.1 key v.val, by
    refine Value.wfMembers_iff.mpr fun kv hkv => ?_
    rcases mem_dictSet hkv with hold | rfl
    · exact d.wf_of_mem hold
    · exact v.property⟩

end PyDict

namespace PyValue

/-- The value is a dictionary. -/
def asDict? : PyValue F → Option (PyDict F)
  | ⟨.dict kvs, h⟩ => some ⟨kvs, h⟩
  | _ => Option.none

/-- A dictionary is taken for the dictionary that it is. -/
@[simp]
theorem asDict?_dict (d : PyDict F) : (dict d).asDict? = some d := rfl

/-- `v.get(key, default)`. -/
def get (v : PyValue F) (key : String) (default : PyValue F) : Except (Exc F) (PyValue F) :=
  match v.asDict? with
  | some d => .ok ((d.get? key).getD default)
  | Option.none => .error (.other "AttributeError")

/-- `v[key]`. -/
def item (v : PyValue F) (key : String) : Except (Exc F) (PyValue F) :=
  match v.asDict? with
  | some d =>
      match d.get? key with
      | some x => .ok x
      | Option.none => .error (.other "KeyError")
  | Option.none => .error (.other "TypeError")

/-- The values that `for x in v` goes through. -/
def iter : PyValue F → Except (Exc F) (List (PyValue F))
  | ⟨.list xs, h⟩ => .ok (xs.attach.map fun x => ⟨x.val, Value.wfItems_iff.mp h x.val x.property⟩)
  | ⟨.str s, _⟩ => .ok (s.toList.map fun c => str (String.singleton c))
  | ⟨.dict kvs, _⟩ => .ok (kvs.map fun kv => str kv.1)
  | _ => .error (.other "TypeError")

/-- A list is gone through in its order. -/
theorem iter_of_list {v : PyValue F} {vs : List (Value F)} (h : v.val = .list vs) :
    ∃ xs, v.iter = .ok xs ∧ xs.map Subtype.val = vs := by
  obtain ⟨w, hw⟩ := v
  subst h
  exact ⟨_, rfl, by simp [List.map_map, Function.comp_def]⟩

/-- `v or w`. -/
def orElse [PyFloat F] (v w : PyValue F) : PyValue F := if v.val.truthy then v else w

end PyValue

end PyJson
