import Mathlib

/-!
# Lists in order of last use

A store that drops what was not used for longest is a list of records, one for each key, with
the one used last at its end.  Writing a key, or reading it before it expires, moves its record
to the end; a write then drops records from the front until no more are left than there is
room for.

`BehavesAsLru` says what that means for a run, in terms of the operations that came before: of
each key, when it was touched last, and whether it was written, removed or evicted since.
`behavesAsLru_after` proves it of the list, by what one operation does to one record
(`mem_step_iff`) and to the order (`ordered_step`).
-/

namespace LruLists

variable {κ β τ ν : Type*}

/-- The keys of a list of records, in their order. -/
def keys (l : List (κ × β)) : List κ := l.map Prod.fst

/-- The records at the end, as many as there is room for. -/
def newest (cap : ℕ) (l : List (κ × β)) : List (κ × β) := l.drop (l.length - cap)

/-- The newest records are no more than there is room for, and no more than
there are. -/
theorem length_newest (cap : ℕ) (l : List (κ × β)) :
    (newest cap l).length = min cap l.length := by
  rw [newest, List.length_drop]
  omega

/-- The key of a record tells the record. -/
theorem eq_of_key_eq {l : List (κ × β)} (h : (keys l).Nodup) {r s : κ × β} (hr : r ∈ l)
    (hs : s ∈ l) (hkey : r.1 = s.1) : r = s :=
  List.inj_on_of_nodup_map h hr hs hkey

/-- What remains of a list has no key that was dropped from it. -/
theorem mem_newest_iff {l : List (κ × β)} (h : (keys l).Nodup) (cap : ℕ) {r : κ × β} :
    r ∈ newest cap l ↔ r ∈ l ∧ r.1 ∈ keys (newest cap l) := by
  have hsub : (newest cap l).Sublist l := List.drop_sublist _ _
  constructor
  · exact fun hr => ⟨hsub.subset hr, List.mem_map_of_mem hr⟩
  · rintro ⟨hr, hkey⟩
    obtain ⟨s, hs, hsr⟩ := List.mem_map.mp hkey
    exact eq_of_key_eq h (hsub.subset hs) hr hsr ▸ hs

variable [DecidableEq κ]

/-- The records of the other keys. -/
def without (l : List (κ × β)) (k : κ) : List (κ × β) := l.filter fun r => r.1 ≠ k

/-- The record of the key is new, or used again. -/
def touch (l : List (κ × β)) (k : κ) (b : β) : List (κ × β) := without l k ++ [(k, b)]

/-- What can be done: to look a key up, to write a record, and to remove the
records of some keys. -/
inductive Op (κ β : Type*)
  | get (key : κ)
  | set (key : κ) (record : β)
  | remove (p : κ → Bool)

/-! ## Records and keys -/

variable {l : List (κ × β)} {k : κ} {b : β}

/-- The keys that are left without the records of one of them. -/
theorem keys_without (l : List (κ × β)) (k : κ) :
    keys (without l k) = (keys l).filter (· ≠ k) := by
  simp [keys, without, List.filter_map, Function.comp_def]

/-- The key that was touched is the last one, and the others keep their
order. -/
theorem keys_touch (l : List (κ × β)) (k : κ) (b : β) :
    keys (touch l k b) = (keys l).filter (· ≠ k) ++ [k] := by
  rw [← keys_without]
  simp [keys, touch]

/-- No key occurs twice after a touch, if none did before. -/
theorem nodup_keys_touch (h : (keys l).Nodup) (k : κ) (b : β) : (keys (touch l k b)).Nodup := by
  rw [keys_touch, List.nodup_append]
  refine ⟨h.filter _, List.nodup_singleton _, fun a ha c hc => ?_⟩
  rw [List.mem_singleton.mp hc]
  simpa using (List.mem_filter.mp ha).2

/-- A touch adds a key, unless it is there. -/
theorem length_touch (h : (keys l).Nodup) (k : κ) (b : β) :
    (touch l k b).length = ((keys l).insert k).length := by
  have hkeys : (keys (touch l k b)).Perm ((keys l).insert k) := by
    rw [List.perm_ext_iff_of_nodup (nodup_keys_touch h k b) h.insert]
    intro a
    rw [keys_touch, List.mem_append, List.mem_filter, List.mem_singleton, List.mem_insert_iff,
      decide_eq_true_eq]
    tauto
  rw [← hkeys.length_eq, keys, List.length_map]

/-- Where no key occurs twice, what is found under a key is the record of the
list. -/
theorem lookup_eq_some_iff_mem (h : (keys l).Nodup) : l.lookup k = some b ↔ (k, b) ∈ l := by
  constructor
  · intro hlookup
    obtain ⟨before, rest, rfl, -⟩ := List.lookup_eq_some_iff.mp hlookup
    simp
  · intro hmem
    cases hlookup : l.lookup k with
    | none =>
        have habsent := List.lookup_eq_none_iff.mp hlookup _ hmem
        simp at habsent
    | some b' =>
        obtain ⟨before, rest, hl, -⟩ := List.lookup_eq_some_iff.mp hlookup
        have hmem' : (k, b') ∈ l := by simp [hl]
        rw [(Prod.mk.inj (eq_of_key_eq h hmem' hmem rfl)).2]

/-! ## One operation -/

section Step

variable [LinearOrder τ] (expiresAt : β → τ)

/-- The list after an operation. -/
def step (cap : ℕ) (l : List (κ × β)) (now : τ) : Op κ β → List (κ × β)
  | .get k => match l.lookup k with
      | none => l
      | some b => if expiresAt b < now then without l k else touch l k b
  | .set k b => newest cap (touch l k b)
  | .remove p => l.filter fun r => !p r.1

/-- The key that an operation touches: a write, or a read that finds a record
in time. -/
def touches (l : List (κ × β)) (now : τ) : Op κ β → Option κ
  | .get k => match l.lookup k with
      | none => none
      | some b => if expiresAt b < now then none else some k
  | .set k _ => some k
  | .remove _ => none

/-- What a read answers. -/
def answer (value : β → ν) (missing : ν) (l : List (κ × β)) (now : τ) (k : κ) : ν :=
  match l.lookup k with
  | none => missing
  | some b => if expiresAt b < now then missing else value b

/-- The operation writes or removes the key. -/
def Op.Rewrites (k : κ) : Op κ β → Prop
  | .get _ => False
  | .set k' _ => k' = k
  | .remove p => p k

/-- An operation on a list drops the records of a sublist, or puts one record
at the end of one. -/
theorem step_cases (cap : ℕ) (l : List (κ × β)) (now : τ) (op : Op κ β) :
    (touches expiresAt l now op = none ∧ (step expiresAt cap l now op).Sublist l) ∨
    (∃ k b, op = .get k ∧ l.lookup k = some b ∧ ¬ expiresAt b < now ∧
      touches expiresAt l now op = some k ∧ step expiresAt cap l now op = touch l k b) ∨
    ∃ k b, op = .set k b ∧ touches expiresAt l now op = some k ∧
      step expiresAt cap l now op = newest cap (touch l k b) := by
  cases op with
  | set k b => exact Or.inr (Or.inr ⟨k, b, rfl, rfl, rfl⟩)
  | remove p => exact Or.inl ⟨rfl, List.filter_sublist⟩
  | get k =>
      cases hlookup : l.lookup k with
      | none => exact Or.inl ⟨by simp [touches, hlookup], by simp [step, hlookup]⟩
      | some b =>
          by_cases hexpired : expiresAt b < now
          · refine Or.inl ⟨by simp [touches, hlookup, hexpired], ?_⟩
            have hsub : (without l k).Sublist l := List.filter_sublist
            simpa [step, hlookup, hexpired] using hsub
          · exact Or.inr (Or.inl ⟨k, b, rfl, hlookup, hexpired,
              by simp [touches, hlookup, hexpired], by simp [step, hlookup, hexpired]⟩)

theorem nodup_keys_step {cap : ℕ} (h : (keys l).Nodup) (now : τ) (op : Op κ β) :
    (keys (step expiresAt cap l now op)).Nodup := by
  rcases step_cases expiresAt cap l now op with
    ⟨-, hsub⟩ | ⟨k, b, -, -, -, -, heq⟩ | ⟨k, b, -, -, heq⟩
  · exact h.sublist (hsub.map _)
  · exact heq ▸ nodup_keys_touch h k b
  · exact heq ▸ (nodup_keys_touch h k b).sublist ((List.drop_sublist _ _).map _)

theorem length_step_le {cap : ℕ} (h : (keys l).Nodup) (hle : l.length ≤ cap) (now : τ)
    (op : Op κ β) : (step expiresAt cap l now op).length ≤ cap := by
  rcases step_cases expiresAt cap l now op with
    ⟨-, hsub⟩ | ⟨k, b, -, hlookup, -, -, heq⟩ | ⟨k, b, -, -, heq⟩
  · exact hsub.length_le.trans hle
  · have hmem : k ∈ keys l :=
      List.mem_map_of_mem ((lookup_eq_some_iff_mem h).mp hlookup)
    rw [heq, length_touch h, List.insert_of_mem hmem, keys, List.length_map]
    exact hle
  · rw [heq, length_newest]
    exact min_le_left _ _

/-- A read keeps what it does not find expired. -/
theorem mem_step_get {cap : ℕ} (h : (keys l).Nodup) {now : τ} {k' : κ} :
    (k, b) ∈ step expiresAt cap l now (.get k') ↔
      (k, b) ∈ l ∧ ¬ (k' = k ∧ expiresAt b < now) := by
  have hsame (hmem : (k', b) ∈ l) : l.lookup k' = some b := (lookup_eq_some_iff_mem h).mpr hmem
  cases hlookup : l.lookup k' with
  | none =>
      simp only [step, hlookup]
      refine ⟨fun hmem => ⟨hmem, ?_⟩, And.left⟩
      rintro ⟨rfl, -⟩
      cases (hsame hmem).symm.trans hlookup
  | some b' =>
      have hmem' : (k', b') ∈ l := (lookup_eq_some_iff_mem h).mp hlookup
      have hrecord (hmem : (k', b) ∈ l) : b = b' :=
        Option.some.inj ((hsame hmem).symm.trans hlookup)
      by_cases hexpired : expiresAt b' < now
      · simp only [step, hlookup, if_pos hexpired, without, List.mem_filter, decide_eq_true_eq]
        refine and_congr_right fun hmem => ⟨fun hne hgone => hne hgone.1.symm, ?_⟩
        rintro hkept rfl
        exact hkept ⟨rfl, hrecord hmem ▸ hexpired⟩
      · simp only [step, hlookup, if_neg hexpired, touch, without, List.mem_append,
          List.mem_filter, decide_eq_true_eq, List.mem_singleton, Prod.mk.injEq]
        constructor
        · rintro (⟨hmem, hne⟩ | ⟨rfl, rfl⟩)
          · exact ⟨hmem, fun hgone => hne hgone.1.symm⟩
          · exact ⟨hmem', fun hgone => hexpired hgone.2⟩
        · rintro ⟨hmem, -⟩
          by_cases hkey : k = k'
          · subst hkey
            exact Or.inr ⟨rfl, hrecord hmem⟩
          · exact Or.inl ⟨hmem, hkey⟩

/-- A write keeps what there is room for of its record and of those of the
other keys. -/
theorem mem_step_set {cap : ℕ} (h : (keys l).Nodup) {now : τ} {k' : κ} {b' : β} :
    (k, b) ∈ step expiresAt cap l now (.set k' b') ↔
      ((k' = k ∧ b' = b) ∨ (k, b) ∈ l ∧ k' ≠ k) ∧
        k ∈ keys (step expiresAt cap l now (.set k' b')) := by
  have hmem : (k, b) ∈ touch l k' b' ↔ (k' = k ∧ b' = b) ∨ (k, b) ∈ l ∧ k' ≠ k := by
    simp only [touch, without, List.mem_append, List.mem_filter, decide_eq_true_eq,
      List.mem_singleton, Prod.mk.injEq]
    rw [or_comm, eq_comm (a := k), eq_comm (a := b), ne_comm]
  rw [← hmem]
  exact mem_newest_iff (nodup_keys_touch h k' b') cap

theorem mem_step_remove {cap : ℕ} {now : τ} {p : κ → Bool} :
    (k, b) ∈ step expiresAt cap l now (.remove p) ↔ (k, b) ∈ l ∧ ¬ p k = true := by
  simp [step]

/-- What one operation does to one record. -/
theorem mem_step_iff {cap : ℕ} (h : (keys l).Nodup) {now : τ} {op : Op κ β} :
    (k, b) ∈ step expiresAt cap l now op ↔
      (op = .set k b ∨
        (k, b) ∈ l ∧ ¬ op.Rewrites k ∧ ¬ (op = .get k ∧ expiresAt b < now)) ∧
      ∀ k' b', op = .set k' b' → k ∈ keys (step expiresAt cap l now op) := by
  cases op with
  | get k' => simp [mem_step_get expiresAt h, Op.Rewrites]
  | set k' b' =>
      rw [mem_step_set expiresAt h]
      simp [Op.Rewrites]
  | remove p => simp [mem_step_remove, Op.Rewrites]

end Step

/-! ## The history of a run -/

section History

variable (ops : ℕ → Op κ β) (run : ℕ → List (κ × β))

/-- A write drops a key that is there, or its own, as there is no room for
it. -/
def Evicts (n : ℕ) (k : κ) : Prop :=
  ∃ k' b, ops n = .set k' b ∧ (k = k' ∨ k ∈ keys (run n)) ∧ k ∉ keys (run (n + 1))

/-- What was written at a step is the latest write of its key, and was neither
removed nor evicted since. -/
structure Kept (i n : ℕ) (k : κ) (b : β) : Prop where
  earlier : i < n
  written : ops i = .set k b
  latest : ∀ j, i < j → j < n → ¬ (ops j).Rewrites k
  notEvicted : ∀ j, i ≤ j → j < n → ¬ Evicts ops run j k

variable [LinearOrder τ] (expiresAt : β → τ) (clock : ℕ → τ)

/-- The number of operations up to the last one that touched the key, `0` if
none has. -/
def lastTouch : ℕ → κ → ℕ
  | 0, _ => 0
  | n + 1, k =>
      if touches expiresAt (run n) (clock n) (ops n) = some k then n + 1 else lastTouch n k

/-- The reference list: the operations, from an empty list. -/
def after (cap : ℕ) : ℕ → List (κ × β)
  | 0 => []
  | n + 1 => step expiresAt cap (after cap n) (clock n) (ops n)

/-- A store that drops what was not used for longest, and only for want of
room. -/
structure BehavesAsLru (cap : ℕ) (value : β → ν) (missing : ν) (answers : ℕ → ν) : Prop where
  reference : ∀ n, run n = after ops expiresAt clock cap n
  bounded : ∀ n, (run n).length ≤ cap
  distinct : ∀ n, (keys (run n)).Nodup
  ordered : ∀ n, (keys (run n)).Pairwise fun a b =>
    lastTouch ops run expiresAt clock n a < lastTouch ops run expiresAt clock n b
  room : ∀ n k b, ops n = .set k b →
    (run (n + 1)).length = min cap ((keys (run n)).insert k).length
  oldest : ∀ n a b, Evicts ops run n a → b ∈ keys (run (n + 1)) →
    lastTouch ops run expiresAt clock (n + 1) a < lastTouch ops run expiresAt clock (n + 1) b
  hit : ∀ n i k b, ops n = .get k → Kept ops run i n k b → clock n ≤ expiresAt b →
    answers n = value b
  miss : ∀ n k, ops n = .get k → (∀ i b, Kept ops run i n k b → expiresAt b < clock n) →
    answers n = missing

/-! ## The reference list -/

variable {ops run expiresAt clock} {cap n i : ℕ}

omit [DecidableEq κ] in
/-- A record is kept after one more operation if this one writes it, or if it
was kept before and is not written anew, and in either case is not put out. -/
theorem kept_succ_iff : Kept ops run i (n + 1) k b ↔
    (i = n ∧ ops n = .set k b ∧ ¬ Evicts ops run n k) ∨
      Kept ops run i n k b ∧ ¬ (ops n).Rewrites k ∧ ¬ Evicts ops run n k := by
  constructor
  · intro h
    rcases Nat.lt_succ_iff_lt_or_eq.mp h.earlier with hlt | rfl
    · exact Or.inr ⟨⟨hlt, h.written, fun j hj hn => h.latest j hj (Nat.lt_succ_of_lt hn),
        fun j hj hn => h.notEvicted j hj (Nat.lt_succ_of_lt hn)⟩,
        h.latest n hlt n.lt_succ_self, h.notEvicted n hlt.le n.lt_succ_self⟩
    · exact Or.inl ⟨rfl, h.written, h.notEvicted i le_rfl i.lt_succ_self⟩
  · rintro (⟨rfl, hwritten, hevicts⟩ | ⟨h, hrewrites, hevicts⟩)
    · refine ⟨i.lt_succ_self, hwritten, fun j hj hn => by omega, fun j hj hn => ?_⟩
      obtain rfl : j = i := by omega
      exact hevicts
    · refine ⟨h.earlier.trans n.lt_succ_self, h.written, fun j hj hn => ?_, fun j hj hn => ?_⟩
      · rcases Nat.lt_succ_iff_lt_or_eq.mp hn with hlt | rfl
        · exact h.latest j hj hlt
        · exact hrewrites
      · rcases Nat.lt_succ_iff_lt_or_eq.mp hn with hlt | rfl
        · exact h.notEvicted j hj hlt
        · exact hevicts

theorem nodup_keys_after (n : ℕ) : (keys (after ops expiresAt clock cap n)).Nodup := by
  induction n with
  | zero => exact List.nodup_nil
  | succ n ih => exact nodup_keys_step expiresAt ih _ _

theorem length_after_le (n : ℕ) : (after ops expiresAt clock cap n).length ≤ cap := by
  induction n with
  | zero => exact Nat.zero_le cap
  | succ n ih => exact length_step_le expiresAt (nodup_keys_after n) ih _ _

/-- A record is in the list after one more operation if this one writes it, or
if it was there before and was neither written anew nor found to be expired,
and in either case is not put out. -/
theorem mem_after_succ :
    (k, b) ∈ after ops expiresAt clock cap (n + 1) ↔
      (ops n = .set k b ∨ (k, b) ∈ after ops expiresAt clock cap n ∧ ¬ (ops n).Rewrites k ∧
        ¬ (ops n = .get k ∧ expiresAt b < clock n)) ∧
      ¬ Evicts ops (after ops expiresAt clock cap) n k := by
  rw [after, mem_step_iff expiresAt (nodup_keys_after n)]
  refine and_congr_right fun hthere => ⟨?_, fun hstays k' b' hset => ?_⟩
  · rintro hstays ⟨k', b', hset, -, hgone⟩
    exact hgone (hstays k' b' hset)
  · by_contra hgone
    refine hstays ⟨k', b', hset, ?_, hgone⟩
    rcases hthere with hwritten | ⟨hmem, -⟩
    · exact Or.inl (Op.set.inj (hwritten.symm.trans hset)).1
    · exact Or.inr (List.mem_map_of_mem hmem)

/-- The records of the list are those that were kept and not found expired.
The induction follows the operations. -/
theorem mem_after_iff :
    (k, b) ∈ after ops expiresAt clock cap n ↔
      ∃ i, Kept ops (after ops expiresAt clock cap) i n k b ∧
        ∀ j, i < j → j < n → ¬ (ops j = .get k ∧ expiresAt b < clock j) := by
  induction n with
  | zero => exact ⟨nofun, fun ⟨_, h, _⟩ => absurd h.earlier (Nat.not_lt_zero _)⟩
  | succ n ih =>
      rw [mem_after_succ, ih]
      constructor
      · rintro ⟨hwritten | ⟨⟨i, hkept, hlive⟩, hrewrites, hnow⟩, hevicts⟩
        · exact ⟨n, kept_succ_iff.mpr (Or.inl ⟨rfl, hwritten, hevicts⟩), fun j _ _ => by omega⟩
        · refine ⟨i, kept_succ_iff.mpr (Or.inr ⟨hkept, hrewrites, hevicts⟩), fun j hj hn => ?_⟩
          rcases Nat.lt_succ_iff_lt_or_eq.mp hn with hlt | rfl
          · exact hlive j hj hlt
          · exact hnow
      · rintro ⟨i, hkept, hlive⟩
        rcases kept_succ_iff.mp hkept with
          ⟨rfl, hwritten, hevicts⟩ | ⟨hkept', hrewrites, hevicts⟩
        · exact ⟨Or.inl hwritten, hevicts⟩
        · exact ⟨Or.inr ⟨⟨i, hkept', fun j hj hn => hlive j hj (Nat.lt_succ_of_lt hn)⟩, hrewrites,
            hlive n hkept'.earlier n.lt_succ_self⟩, hevicts⟩

/-- A record that has not expired by now was not found expired before. -/
theorem mem_after_of_kept (hclock : Monotone clock)
    (h : Kept ops (after ops expiresAt clock cap) i n k b) (hlive : clock n ≤ expiresAt b) :
    (k, b) ∈ after ops expiresAt clock cap n :=
  mem_after_iff.mpr ⟨i, h, fun _ _ hj hgone =>
    absurd (hclock hj.le) (not_le.mpr (hlive.trans_lt hgone.2))⟩

/-! ## The order -/

/-- The last touch of a key is one of the operations that there were. -/
theorem lastTouch_le (n : ℕ) (k : κ) : lastTouch ops run expiresAt clock n k ≤ n := by
  induction n with
  | zero => exact le_rfl
  | succ n ih =>
      rw [lastTouch]
      split
      · exact le_rfl
      · exact ih.trans n.le_succ

/-- A touch orders the touched key behind all others. -/
theorem ordered_touch {l : List (κ × β)}
    (htouched : touches expiresAt (run n) (clock n) (ops n) = some k)
    (h : (keys l).Pairwise fun a b => lastTouch ops run expiresAt clock n a <
      lastTouch ops run expiresAt clock n b) (b : β) :
    (keys (touch l k b)).Pairwise fun a b => lastTouch ops run expiresAt clock (n + 1) a <
      lastTouch ops run expiresAt clock (n + 1) b := by
  have hother {a : κ} (ha : a ≠ k) : lastTouch ops run expiresAt clock (n + 1) a =
      lastTouch ops run expiresAt clock n a :=
    if_neg fun heq => ha (Option.some.inj (heq.symm.trans htouched))
  have hself : lastTouch ops run expiresAt clock (n + 1) k = n + 1 := if_pos htouched
  rw [keys_touch, List.pairwise_append]
  refine ⟨?_, List.pairwise_singleton _ _, fun a ha c hc => ?_⟩
  · refine (h.filter _).imp_of_mem fun {a c} ha hc hlt => ?_
    rwa [hother (by simpa using (List.mem_filter.mp ha).2),
      hother (by simpa using (List.mem_filter.mp hc).2)]
  · rw [List.mem_singleton.mp hc, hself, hother (by simpa using (List.mem_filter.mp ha).2)]
    exact Nat.lt_succ_of_le (lastTouch_le n a)

/-- Each operation keeps the order. -/
theorem ordered_after (n : ℕ) :
    (keys (after ops expiresAt clock cap n)).Pairwise fun a b =>
      lastTouch ops (after ops expiresAt clock cap) expiresAt clock n a <
        lastTouch ops (after ops expiresAt clock cap) expiresAt clock n b := by
  induction n with
  | zero => exact List.Pairwise.nil
  | succ n ih =>
      rw [after]
      rcases step_cases expiresAt cap (after ops expiresAt clock cap n) (clock n) (ops n) with
        ⟨hnone, hsub⟩ | ⟨k, b, -, -, -, htouched, heq⟩ | ⟨k, b, -, htouched, heq⟩
      · have hsame (a : κ) : lastTouch ops (after ops expiresAt clock cap) expiresAt clock (n + 1) a
            = lastTouch ops (after ops expiresAt clock cap) expiresAt clock n a :=
          if_neg (by simp [hnone])
        simp only [hsame]
        exact ih.sublist (hsub.map _)
      · rw [heq]
        exact ordered_touch htouched ih b
      · rw [heq]
        exact (ordered_touch htouched ih b).sublist ((List.drop_sublist _ _).map _)

/-- What a write drops was touched before everything it keeps. -/
theorem lastTouch_lt_of_evicts {a c : κ} (ha : Evicts ops (after ops expiresAt clock cap) n a)
    (hc : c ∈ keys (after ops expiresAt clock cap (n + 1))) :
    lastTouch ops (after ops expiresAt clock cap) expiresAt clock (n + 1) a <
      lastTouch ops (after ops expiresAt clock cap) expiresAt clock (n + 1) c := by
  obtain ⟨k, b, hset, hthere, hgone⟩ := ha
  have hstep : after ops expiresAt clock cap (n + 1) =
      newest cap (touch (after ops expiresAt clock cap n) k b) := by rw [after, hset]; rfl
  have hordered := ordered_touch (l := after ops expiresAt clock cap n) (b := b)
    (show touches expiresAt (after ops expiresAt clock cap n) (clock n) (ops n) = some k by
      rw [hset]; rfl) (ordered_after n)
  have hmem : a ∈ keys (touch (after ops expiresAt clock cap n) k b) := by
    rw [keys_touch, List.mem_append, List.mem_filter, List.mem_singleton, decide_eq_true_eq]
    tauto
  rw [hstep] at hgone hc
  -- the keys of the list are the dropped ones, then the kept ones
  have hsplit := List.take_append_drop
    ((touch (after ops expiresAt clock cap n) k b).length - cap)
    (keys (touch (after ops expiresAt clock cap n) k b))
  rw [newest, keys, List.map_drop, ← keys] at hgone hc
  rw [← hsplit] at hordered hmem
  exact (List.pairwise_append.mp hordered).2.2 a
    ((List.mem_append.mp hmem).resolve_right hgone) c hc

/-- **The list behaves as it should**, when the clock does not run
backwards. -/
theorem behavesAsLru_after (cap : ℕ) (hclock : Monotone clock) (value : β → ν) (missing : ν)
    {answers : ℕ → ν}
    (hanswers : ∀ n k, ops n = .get k → answers n =
      answer expiresAt value missing (after ops expiresAt clock cap n) (clock n) k) :
    BehavesAsLru ops (after ops expiresAt clock cap) expiresAt clock cap value missing
      answers where
  reference _ := rfl
  bounded := length_after_le
  distinct := nodup_keys_after
  ordered := ordered_after
  room n k b hset := by
    rw [after, hset, step, length_newest, length_touch (nodup_keys_after n)]
  oldest _ _ _ := lastTouch_lt_of_evicts
  hit n i k b hget hkept hlive := by
    have hlookup := (lookup_eq_some_iff_mem (nodup_keys_after n)).mpr
      (mem_after_of_kept hclock hkept hlive)
    simp [hanswers n k hget, answer, hlookup, not_lt.mpr hlive]
  miss n k hget hgone := by
    rw [hanswers n k hget, answer]
    cases hlookup : (after ops expiresAt clock cap n).lookup k with
    | none => rfl
    | some b =>
        obtain ⟨i, hkept, -⟩ :=
          mem_after_iff.mp ((lookup_eq_some_iff_mem (nodup_keys_after n)).mp hlookup)
        simp [hgone i b hkept]

end History

end LruLists
