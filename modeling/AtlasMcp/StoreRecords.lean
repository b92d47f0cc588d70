import Mathlib.Data.List.AList

/-!
# What holds of every record of a store

A store is an association list with one record for each key.  `Records P s` says
that `P` holds of every record of `s`.  Every operation of a store either writes
one record or drops some, so such a property is kept by showing it of the record
written (`Records.insert`) and for free by everything that only drops
(`Records.of_sub`).
-/

namespace StoreRecords

variable {α : Type*} {β : α → Type*} [DecidableEq α]

/-- Every record of `s` is one of `t`. -/
def Sub (s t : AList β) : Prop := ∀ a b, s.lookup a = some b → t.lookup a = some b

/-- `P` holds of every record. -/
def Records (P : ∀ a, β a → Prop) (s : AList β) : Prop :=
  ∀ a b, s.lookup a = some b → P a b

/-- Some of the records of a store, in their order. -/
def pick (s : AList β) (l : List (Sigma β)) (h : l.Sublist s.entries) : AList β :=
  ⟨l, s.nodupKeys.sublist h⟩

/-- Drop the records of some keys, one by one. -/
def eraseAll (s : AList β) (keys : List α) : AList β :=
  keys.foldl (fun s a => s.erase a) s

@[refl]
theorem Sub.refl (s : AList β) : Sub s s := fun _ _ h => h

theorem Sub.trans {s t u : AList β} (hst : Sub s t) (htu : Sub t u) : Sub s u :=
  fun a b h => htu a b (hst a b h)

theorem sub_pick {s : AList β} {l : List (Sigma β)} (h : l.Sublist s.entries) :
    Sub (pick s l h) s := by
  intro a b hlookup
  rw [← Option.mem_def, AList.mem_lookup_iff] at hlookup ⊢
  exact h.subset hlookup

theorem sub_erase (s : AList β) (a : α) : Sub (s.erase a) s := by
  intro x b h
  by_cases hx : x = a
  · subst hx
    rw [AList.lookup_erase] at h
    exact absurd h (by simp)
  · rwa [AList.lookup_erase_ne hx] at h

/-- What is left after erasing several keys is a part. -/
theorem sub_eraseAll (s : AList β) (keys : List α) : Sub (eraseAll s keys) s := by
  induction keys generalizing s with
  | nil => exact Sub.refl s
  | cons a rest ih => exact (ih (s.erase a)).trans (sub_erase s a)

/-- What is left after erasing are the entries of the other keys. -/
theorem lookup_eraseAll (s : AList β) (keys : List α) (a : α) :
    (eraseAll s keys).lookup a = if a ∈ keys then none else s.lookup a := by
  induction keys generalizing s with
  | nil => simp [eraseAll]
  | cons x rest ih =>
      have hrest := ih (s.erase x)
      simp only [eraseAll, List.foldl_cons] at hrest ⊢
      rw [hrest]
      by_cases ha : a = x
      · subst ha
        simp
      · simp [ha, AList.lookup_erase_ne ha]

/-- Dropping the keys with a property leaves those without it. -/
theorem lookup_eraseAll_filter (s : AList β) (p : α → Bool) (a : α) :
    (eraseAll s (s.keys.filter p)).lookup a = if p a then none else s.lookup a := by
  rw [lookup_eraseAll]
  by_cases hp : p a = true
  · by_cases hmem : a ∈ s.keys
    · simp [hp, hmem]
    · simp [hp, hmem, AList.lookup_eq_none.mpr hmem]
  · simp [hp]

variable {P : ∀ a, β a → Prop}

/-- An empty store has no record that anything could be wrong with. -/
theorem records_empty : Records P (∅ : AList β) := by
  intro a b h
  simp at h

/-- Dropping records keeps what holds of all. -/
theorem Records.of_sub {s t : AList β} (ht : Records P t) (h : Sub s t) : Records P s :=
  fun a b hlookup => ht a b (h a b hlookup)

/-- A property of all records may be weakened. -/
theorem Records.imp {Q : ∀ a, β a → Prop} {s : AList β} (hs : Records P s)
    (h : ∀ a b, P a b → Q a b) : Records Q s :=
  fun a b hlookup => h a b (hs a b hlookup)

/-- Writing a record with the property gives it to all, if those of the other
keys have it. -/
theorem Records.insert {s : AList β} {a : α} {b : β a}
    (hs : Records (fun x c => x ≠ a → P x c) s) (h : P a b) :
    Records P (s.insert a b) := by
  intro x c hlookup
  by_cases hx : x = a
  · subst hx
    rw [AList.lookup_insert] at hlookup
    exact Option.some.inj hlookup ▸ h
  · rw [AList.lookup_insert_ne hx] at hlookup
    exact hs x c hlookup hx

end StoreRecords
