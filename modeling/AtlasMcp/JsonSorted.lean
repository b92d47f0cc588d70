import AtlasMcp.JsonRoundTrip

/-!
# JSON text with sorted keys

`json.dumps(v, sort_keys=True)` writes the members of every dictionary in the order
of their keys, so that equal dictionaries have one text whatever the order of their
insertion.  `sortKeys` sorts the members; two values are equal in Python's sense,
which ignores that order, if they have one sorted form.

`sortKeys_eq_of_dumpsSorted_eq` is the converse: one text, one value, up to the
order of members.  It is about values that JSON can express (`Native`); others lose
their type in the text.
-/

namespace PyJson

variable {F : Type}

/-- The order of keys: by code point. -/
def keyLe (a b : String × Value F) : Prop := a.1.toList ≤ b.1.toList

instance (a b : String × Value F) : Decidable (keyLe a b) :=
  inferInstanceAs (Decidable (a.1.toList ≤ b.1.toList))

namespace Value

mutual

/-- The members of every dictionary in the order of their keys. -/
def sortKeys : Value F → Value F
  | list xs => list (sortKeysItems xs)
  | dict kvs => dict ((sortKeysMembers kvs).insertionSort keyLe)
  | v => v

/-- The items of a list, with the keys sorted in each of them. -/
def sortKeysItems : List (Value F) → List (Value F)
  | [] => []
  | v :: xs => v.sortKeys :: sortKeysItems xs

/-- The members of a dictionary, with the keys sorted in each of their
values. -/
def sortKeysMembers : List (String × Value F) → List (String × Value F)
  | [] => []
  | (k, v) :: kvs => (k, v.sortKeys) :: sortKeysMembers kvs

end

mutual

/-- The value is made of the types JSON has. -/
def Native : Value F → Prop
  | list xs => NativeItems xs
  | dict kvs => NativeMembers kvs
  | other _ _ => False
  | _ => True

/-- The items of a list are JSON. -/
def NativeItems : List (Value F) → Prop
  | [] => True
  | v :: xs => v.Native ∧ NativeItems xs

/-- The values of a dictionary are JSON. -/
def NativeMembers : List (String × Value F) → Prop
  | [] => True
  | (_, v) :: kvs => v.Native ∧ NativeMembers kvs

end

/-- The members are well formed if and only if the values of all of them
are. -/
theorem wfMembers_iff {kvs : List (String × Value F)} :
    WfMembers kvs ↔ ∀ kv ∈ kvs, kv.2.Wf := by
  induction kvs with
  | nil => simp [WfMembers]
  | cons kv kvs ih => simp [WfMembers, ih]

/-- The members are JSON if and only if the values of all of them are. -/
theorem nativeMembers_iff {kvs : List (String × Value F)} :
    NativeMembers kvs ↔ ∀ kv ∈ kvs, kv.2.Native := by
  induction kvs with
  | nil => simp [NativeMembers]
  | cons kv kvs ih => simp [NativeMembers, ih]

/-- Sorting within the values leaves the keys as they are. -/
theorem keys_sortKeysMembers (kvs : List (String × Value F)) :
    (sortKeysMembers kvs).map Prod.fst = kvs.map Prod.fst := by
  induction kvs with
  | nil => rfl
  | cons kv kvs ih => simp [sortKeysMembers, ih]

mutual

/-- What was sorted is well formed: no key was added and none was lost. -/
theorem wf_sortKeys : ∀ v : Value F, v.Wf → v.sortKeys.Wf
  | none, _ | bool _, _ | int _, _ | float _, _ | str _, _ | other _ _, _ => trivial
  | list xs, h => wf_sortKeysItems xs h
  | dict kvs, h => by
      have hperm := List.perm_insertionSort keyLe (sortKeysMembers kvs)
      refine ⟨?_, wfMembers_iff.mpr fun kv hkv => ?_⟩
      · rw [(hperm.map Prod.fst).nodup_iff, keys_sortKeysMembers]
        exact h.1
      · exact wfMembers_iff.mp (wf_sortKeysMembers kvs h.2) kv (hperm.mem_iff.mp hkv)

theorem wf_sortKeysItems : ∀ xs : List (Value F), WfItems xs → WfItems (sortKeysItems xs)
  | [], _ => trivial
  | v :: xs, h => ⟨wf_sortKeys v h.1, wf_sortKeysItems xs h.2⟩

theorem wf_sortKeysMembers : ∀ kvs : List (String × Value F), WfMembers kvs →
    WfMembers (sortKeysMembers kvs)
  | [], _ => trivial
  | (_, v) :: kvs, h => ⟨wf_sortKeys v h.1, wf_sortKeysMembers kvs h.2⟩

end

mutual

theorem native_sortKeys : ∀ v : Value F, v.Native → v.sortKeys.Native
  | none, _ | bool _, _ | int _, _ | float _, _ | str _, _ => trivial
  | list xs, h => native_sortKeysItems xs h
  | dict kvs, h => nativeMembers_iff.mpr fun kv hkv =>
      nativeMembers_iff.mp (native_sortKeysMembers kvs h) kv
        ((List.perm_insertionSort keyLe (sortKeysMembers kvs)).mem_iff.mp hkv)

theorem native_sortKeysItems : ∀ xs : List (Value F), NativeItems xs →
    NativeItems (sortKeysItems xs)
  | [], _ => trivial
  | v :: xs, h => ⟨native_sortKeys v h.1, native_sortKeysItems xs h.2⟩

theorem native_sortKeysMembers : ∀ kvs : List (String × Value F), NativeMembers kvs →
    NativeMembers (sortKeysMembers kvs)
  | [], _ => trivial
  | (_, v) :: kvs, h => ⟨native_sortKeys v h.1, native_sortKeysMembers kvs h.2⟩

end

mutual

/-- A JSON value is read back as it is. -/
theorem jsonify_of_native : ∀ v : Value F, v.Native → v.jsonify = v
  | none, _ | bool _, _ | int _, _ | float _, _ | str _, _ => rfl
  | list xs, h => congrArg list (jsonifyItems_of_native xs h)
  | dict kvs, h => congrArg dict (jsonifyMembers_of_native kvs h)

/-- The items of a list that are JSON stay as they are. -/
theorem jsonifyItems_of_native : ∀ xs : List (Value F), NativeItems xs →
    jsonifyItems xs = xs
  | [], _ => rfl
  | v :: xs, h =>
      congrArg₂ List.cons (jsonify_of_native v h.1) (jsonifyItems_of_native xs h.2)

/-- The members of a dictionary that are JSON stay as they are. -/
theorem jsonifyMembers_of_native : ∀ kvs : List (String × Value F), NativeMembers kvs →
    jsonifyMembers kvs = kvs
  | [], _ => rfl
  | (k, v) :: kvs, h =>
      congrArg₂ List.cons (congrArg (Prod.mk k) (jsonify_of_native v h.1))
        (jsonifyMembers_of_native kvs h.2)

end

mutual

/-- What is read back is made of JSON's own types. -/
theorem native_jsonify : ∀ v : Value F, v.jsonify.Native
  | list xs => nativeItems_jsonify xs
  | dict kvs => nativeMembers_jsonify kvs
  | none | bool _ | int _ | float _ | str _ | other _ _ => trivial

theorem nativeItems_jsonify : ∀ xs : List (Value F), NativeItems (jsonifyItems xs)
  | [] => trivial
  | v :: xs => ⟨native_jsonify v, nativeItems_jsonify xs⟩

theorem nativeMembers_jsonify : ∀ kvs : List (String × Value F),
    NativeMembers (jsonifyMembers kvs)
  | [] => trivial
  | (_, v) :: kvs => ⟨native_jsonify v, nativeMembers_jsonify kvs⟩

end

/-- A value is what is read back of it if it is made of JSON's own types, and
only then. -/
theorem jsonify_eq_self_iff (v : Value F) : v.jsonify = v ↔ v.Native :=
  ⟨fun h => h ▸ native_jsonify v, jsonify_of_native v⟩

end Value

section Text

variable [PyFloat F]

/-- `json.dumps(v, sort_keys=True, default=str)`. -/
def dumpsSorted (v : Value F) : String := dumps v.sortKeys

/-- **One text, one value.**  JSON values with one sorted text are equal up to
the order of their members. -/
theorem sortKeys_eq_of_dumpsSorted_eq {v w : Value F} (hv : v.Wf) (hw : w.Wf)
    (hvn : v.Native) (hwn : w.Native) (h : dumpsSorted v = dumpsSorted w) :
    v.sortKeys = w.sortKeys := by
  have hjson := jsonify_eq_of_dumps_eq (v.wf_sortKeys hv) (w.wf_sortKeys hw) h
  rwa [Value.jsonify_of_native _ (v.native_sortKeys hvn),
    Value.jsonify_of_native _ (w.native_sortKeys hwn)] at hjson

end Text

end PyJson
