import AtlasMcp.CacheHistories
import AtlasMcp.PyValues

/-!
# When the two tiers answer alike

L1 keeps the value that was set, L2 its JSON text, in which a date or a decimal is written as a
string.  As long as the key is not written again or removed, L1 holds the value or, after a read
that L2 has served, what its text reads back as, and L2 holds the text (`Copies`).  So the tiers
give back the value that was set exactly if it is made of JSON's own types
(`tiers_agree_iff`).
-/

namespace Cache

open PyJson Errors StoreRecords

variable {F : Type}

/-- The call neither writes the key nor removes it.  It may read it, or do
anything with other keys. -/
def Call.Spares (key : String) (call : Call F) : Prop :=
  call.removes key = false ∧ ∀ value ttl, call ≠ .set key value ttl

namespace CacheManager

/-- What the tiers hold under the key comes from the value: L1 has it, or its
round trip through JSON, and L2 has its text. -/
def Copies (m : CacheManager F) [PyFloat F] (key : String) (v : Value F) : Prop :=
  m.Holds (fun k e => k = key → e.value = v ∨ e.value = v.jsonify)
    (fun k e => k = key → e.1 = dumps v)

section

variable [PyFloat F]

/-- The manager after some calls, each made at its time. -/
def afterCalls (m : CacheManager F) (calls : List (Call F × ℚ)) : CacheManager F :=
  calls.foldl (fun m e => m.after e.2 e.1) m

variable {m : CacheManager F} {key : String} {v : Value F}

theorem copies_set (m : CacheManager F) (key : String) (v : Value F) (ttl : Option ℤ) (now : ℚ) :
    (m.set key v ttl now).Copies key v := by
  have hother : m.Holds (fun k e => k ≠ key → k = key → e.value = v ∨ e.value = v.jsonify)
      (fun k e => k ≠ key → k = key → e.1 = dumps v) :=
    ⟨fun _ _ _ hne heq => absurd heq hne, fun _ _ _ hne heq => absurd heq hne⟩
  exact hother.set (fun _ => Or.inl rfl) fun _ => rfl

/-- A read may promote what L2 holds, and nothing else. -/
theorem Copies.after (hwf : v.Wf) (hm : m.Copies key v) {call : Call F} (h : call.Spares key)
    (now : ℚ) : (m.after now call).Copies key v := by
  cases call with
  | get k =>
      refine CacheManager.Holds.get hm fun raw expiresAt w hlookup _ hloads _ _ hkey => ?_
      have hraw : raw = dumps v := hm.inL2 _ _ hlookup hkey
      rw [hraw, loads_dumps hwf] at hloads
      exact Or.inr (Option.some.inj hloads).symm
  | set k w ttl =>
      have hne : k ≠ key := by
        rintro rfl
        exact h.2 w ttl rfl
      exact CacheManager.Holds.set (hm.imp (fun _ _ he _ => he) fun _ _ he _ => he)
        (fun heq => absurd heq hne) fun heq => absurd heq hne
  | delete k => exact CacheManager.Holds.delete hm k
  | invalidateKey k => exact CacheManager.Holds.delete hm k
  | invalidateTool tenant tool => exact CacheManager.Holds.invalidatePrefix hm _
  | invalidateTenant tenant => exact CacheManager.Holds.invalidatePrefix hm _

/-- The copies stay what they are as long as nobody writes their key or
removes it. -/
theorem Copies.afterCalls (hwf : v.Wf) (hm : m.Copies key v) {calls : List (Call F × ℚ)}
    (h : ∀ e ∈ calls, e.1.Spares key) : (m.afterCalls calls).Copies key v := by
  induction calls generalizing m with
  | nil => exact hm
  | cons e calls ih =>
      exact ih (hm.after hwf (h e List.mem_cons_self) e.2)
        fun e' he' => h e' (List.mem_cons_of_mem _ he')

/-- What L1 answers is the value, or what is read back of it. -/
theorem Copies.get_of_l1 (hm : m.Copies key v) {now : ℚ} (hhit : (m.l1.get key now).1 ≠ .none) :
    (m.get key now).1 = .ok v ∨ (m.get key now).1 = .ok v.jsonify := by
  obtain ⟨entry, hlookup, -, hvalue⟩ := L1Cache.get_hit rfl hhit
  have hget : (m.get key now).1 = .ok (m.l1.get key now).1 := by simp only [CacheManager.get]
  rw [hget, ← hvalue]
  exact (hm.inL1 _ _ hlookup rfl).imp (congrArg _) (congrArg _)

/-- What L2 answers is what is read back of the value. -/
theorem get_of_l2 (hwf : v.Wf) (hl2 : Records (fun k e => k = key → e.1 = dumps v) m.l2.store)
    {now : ℚ} (hmiss : (m.l1.get key now).1 = .none) (hhit : (m.l2.get key now).1 ≠ none) :
    (m.get key now).1 = .ok v.jsonify := by
  obtain ⟨raw, hraw⟩ := Option.ne_none_iff_exists'.mp hhit
  obtain ⟨expiresAt, hlookup, -⟩ := InMemoryL2.get_hit hraw
  have hdumps : raw = dumps v := hl2 _ _ hlookup rfl
  have hloads := loads_dumps hwf
  rw [← hdumps] at hloads
  simp only [CacheManager.get, hmiss, hraw, hloads]

/-- **The tiers agree on values of JSON's own types, and on no others.**
After a write and any calls that neither write nor remove its key, `r` is a
manager over the same L2, with an L1 of its own or the same one: a read that
L1 answers and one that `r` has L2 answer both give the value that was set
exactly if it is made of JSON's own types. -/
theorem tiers_agree_iff (m : CacheManager F) (key : String) (v : PyValue F) (ttl : Option ℤ)
    (now : ℚ) {calls : List (Call F × ℚ)} (hcalls : ∀ e ∈ calls, e.1.Spares key)
    {r : CacheManager F} (hshared : r.l2 = ((m.set key v.val ttl now).afterCalls calls).l2)
    (t₁ : ℚ) {t₂ : ℚ} (hmiss : (r.l1.get key t₂).1 = .none)
    (hhit : (r.l2.get key t₂).1 ≠ none) :
    ((((m.set key v.val ttl now).afterCalls calls).l1.get key t₁).1 ≠ .none →
        (((m.set key v.val ttl now).afterCalls calls).get key t₁).1 = .ok v.val) ∧
      (r.get key t₂).1 = .ok v.val ↔ v.val.Native := by
  have hcopies := (copies_set m key v.val ttl now).afterCalls v.property hcalls
  have hl2 : (r.get key t₂).1 = .ok v.val.jsonify :=
    get_of_l2 v.property (hshared ▸ hcopies.inL2) hmiss hhit
  rw [← Value.jsonify_eq_self_iff]
  constructor
  · rintro ⟨-, hread⟩
    exact Except.ok.inj (hl2.symm.trans hread)
  · intro hsame
    refine ⟨fun hanswered => ?_, by rw [hl2, hsame]⟩
    rcases hcopies.get_of_l1 hanswered with hread | hread
    · exact hread
    · rw [hread, hsame]

end

end CacheManager

open CacheManager

/-- A new manager over the L2 of another one, which has set a value. -/
def afterSet (v : PyValue WholeFloat) : CacheManager WholeFloat :=
  { start {} with l2 := ((start {}).set "k" v.val none 0).l2 }

theorem afterSet_hit (v : PyValue WholeFloat) : ((afterSet v).l2.get "k" 0).1 ≠ none := by
  have hlookup : (afterSet v).l2.store.lookup "k" = some (dumps v.val, 600) := by
    show (AList.insert _ _ _).lookup _ = _
    rw [AList.lookup_insert]
    norm_num [start, CacheManager.ttlL2]
  rw [InMemoryL2.get_of_live hlookup (by norm_num)]
  simp

/-- A number is the same in both tiers. -/
theorem number_agrees :
    ((((start {} : CacheManager WholeFloat).set "k" (.int 7) none 0).l1.get "k" 0).1 ≠ .none →
        (((start {} : CacheManager WholeFloat).set "k" (.int 7) none 0).get "k" 0).1 =
          .ok (.int 7)) ∧
      ((afterSet (.int 7)).get "k" 0).1 = .ok (.int 7) := by
  have hcalls : ∀ e ∈ ([] : List (Call WholeFloat × ℚ)), e.1.Spares "k" := by simp
  exact (tiers_agree_iff (start {}) "k" (.int 7) none 0 hcalls (r := afterSet (.int 7)) rfl 0 rfl
    (afterSet_hit _)).mpr trivial

/-- The time of an order, as a row of the warehouse has it. -/
def orderTime : PyValue WholeFloat := ⟨.other "datetime" "2026-01-05 10:00:00", trivial⟩

/-- It comes back from L2 as a string. -/
theorem orderTime_becomes_string :
    ((afterSet orderTime).get "k" 0).1 = .ok (.str "2026-01-05 10:00:00") ∧
      ((afterSet orderTime).get "k" 0).1 ≠ .ok orderTime.val := by
  have hread := get_of_l2 orderTime.property
    (copies_set (start {}) "k" orderTime.val none 0).inL2 (m := afterSet orderTime) rfl
    (afterSet_hit orderTime)
  rw [hread]
  exact ⟨rfl, by simp [orderTime, Value.jsonify]⟩

end Cache
