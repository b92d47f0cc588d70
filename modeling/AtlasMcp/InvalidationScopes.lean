import AtlasMcp.ToolRegistry
import AtlasMcp.TenantIsolation
import AtlasMcp.RedisL2

/-!
# What an invalidation drops

`invalidate_tenant` and `invalidate_tool` drop the keys that start with `atlas:`, the tenant
and perhaps the tool, which are joined by colons that both may have themselves.  They drop
exactly the entries of the tenant as long as no other entry looks like one of them
(`invalidation_exact_iff`).  On Redis the prefix is a glob pattern, and the rate limiter
keeps its buckets under keys of the same form.
-/

namespace Cache

open PyJson PyText StoreRecords Tools Redis

variable {F : Type} {gone : Bool}

/-- What a cache key was built for: the call of a tool by a tenant with its
arguments. -/
structure Origin (F : Type) where
  tenant : String
  tool : Tool F
  args : BaseModel F

/-- What an invalidation is called for: all of a tenant, or one of its tools. -/
inductive Scope
  | ofTenant (tenant : String)
  | ofTool (tenant tool : String)

/-- The tenant, or the tenant and the tool. -/
def Scope.name : Scope → String
  | .ofTenant tenant => tenant
  | .ofTool tenant tool => tenant ++ ":" ++ tool

/-- The prefix of the keys that are dropped. -/
def Scope.keyPrefix (s : Scope) : String := "atlas:" ++ s.name ++ ":"

namespace Origin

/-- The key under which the result of such a call is stored. -/
def key [PyFloat F] (o : Origin F) : String := o.tool.cacheKey o.tenant o.args

/-- Its tenant and tool. -/
def name (o : Origin F) : String := o.tenant ++ ":" ++ o.tool.metadata.name

/-- The invalidation is for its tenant, and for its tool if for one. -/
def Of (o : Origin F) : Scope → Prop
  | .ofTenant tenant => o.tenant = tenant
  | .ofTool tenant tool => o.tenant = tenant ∧ o.tool.metadata.name = tool

instance (o : Origin F) (s : Scope) : Decidable (o.Of s) :=
  match s with
  | .ofTenant _ => inferInstanceAs (Decidable (_ = _))
  | .ofTool _ _ => inferInstanceAs (Decidable (_ = _ ∧ _ = _))

/-- Its tenant and tool are the scope, or begin with the scope and a colon.  The
prefix of the scope cannot tell these apart. -/
def LooksLike (o : Origin F) (s : Scope) : Prop :=
  o.name = s.name ∨ startsWith o.name (s.name ++ ":") = true

instance (o : Origin F) (s : Scope) : Decidable (o.LooksLike s) :=
  inferInstanceAs (Decidable (_ = _ ∨ _ = true))

/-- What is of a scope looks like it. -/
theorem Of.looksLike {o : Origin F} {s : Scope} (h : o.Of s) : o.LooksLike s := by
  cases s with
  | ofTenant tenant =>
      have htenant : o.tenant = tenant := h
      right
      simp only [startsWith, List.isPrefixOf_iff_prefix, Origin.name, Scope.name, htenant,
        String.toList_append]
      exact List.prefix_append _ _
  | ofTool tenant tool =>
      obtain ⟨htenant, htool⟩ := h
      exact Or.inl (by rw [Origin.name, Scope.name, htenant, htool])

/-- Words joined by colons, the last without one, begin with others and a
colon if these are all of the first, or if the first begin so. -/
theorem colon_prefix_iff {q n d : List Char} (hd : ':' ∉ d) :
    q ++ [':'] <+: n ++ ':' :: d ↔ n = q ∨ q ++ [':'] <+: n := by
  constructor
  · intro h
    obtain ⟨rest, hrest⟩ := h
    rcases List.append_eq_append_iff.mp hrest with ⟨mid, hn, -⟩ | ⟨mid, hq, hmid⟩
    · exact Or.inr ⟨mid, hn.symm⟩
    · cases mid with
      | nil =>
          right
          rw [List.append_nil] at hq
          exact hq ▸ List.prefix_rfl
      | cons x mid =>
          obtain ⟨rfl, rfl⟩ : ':' = x ∧ d = mid ++ rest := by simpa using hmid
          have hmid : ':' ∉ mid := fun hx => hd (List.mem_append_left _ hx)
          have hnil : ':' ∉ ([] : List Char) := by simp
          exact Or.inl (append_colon_inj hnil hmid hq).1.symm
  · intro h
    rcases h with rfl | h
    · exact (List.prefix_append_right_inj _).mpr ⟨d, rfl⟩
    · exact h.trans (List.prefix_append _ _)

variable [PyFloat F]

/-- The key of what looks like a scope starts with the prefix of the scope. -/
theorem startsWith_key_iff (o : Origin F) (s : Scope) :
    startsWith o.key s.keyPrefix = true ↔ o.LooksLike s := by
  have hkey : o.key.toList =
      "atlas:".toList ++ (o.name.toList ++ ':' :: (digest (argsBlob o.args)).toList) := by
    simp [Origin.key, Tool.cacheKey, Origin.name]
  have hprefix : s.keyPrefix.toList = "atlas:".toList ++ (s.name.toList ++ [':']) := by
    simp [Scope.keyPrefix]
  have hname : (s.name ++ ":").toList = s.name.toList ++ [':'] := by simp
  rw [LooksLike, startsWith, startsWith, List.isPrefixOf_iff_prefix, List.isPrefixOf_iff_prefix,
    hkey, hprefix, hname, List.prefix_append_right_inj,
    colon_prefix_iff (colon_notMem_digest _), String.toList_inj]

end Origin

section Tiers

variable {β : Type}

/-- An invalidation takes the covered records out of a tier, and leaves the
others. -/
def Exact (covered : String → β → Prop) (before after : String → Option β) : Prop :=
  ∀ key entry, before key = some entry →
    (covered key entry → after key = none) ∧ (¬ covered key entry → after key = some entry)

/-- It is exact if the keys it drops are the covered ones. -/
theorem exact_iff {covered : String → β → Prop} {before after : String → Option β}
    {dropped : String → Prop} [DecidablePred dropped]
    (h : ∀ key, after key = if dropped key then none else before key) :
    Exact covered before after ↔
      ∀ key entry, before key = some entry → (dropped key ↔ covered key entry) := by
  constructor
  · intro hexact key entry hentry
    obtain ⟨hgone, hkept⟩ := hexact key entry hentry
    rw [h key, hentry] at hgone hkept
    constructor
    · intro hdropped
      by_contra hnot
      have hsome := hkept hnot
      rw [if_pos hdropped] at hsome
      cases hsome
    · intro hcovered
      by_contra hnot
      have hnone := hgone hcovered
      rw [if_neg hnot] at hnone
      cases hnone
  · intro hsame key entry hentry
    rw [h key, hentry]
    refine ⟨fun hcovered => if_pos ((hsame key entry hentry).mpr hcovered), fun hnot => ?_⟩
    exact if_neg fun hdropped => hnot ((hsame key entry hentry).mp hdropped)

variable [PyFloat F]

/-- Every key of a tier is the cache key of its origin, so that it is known for
whom the entry was stored. -/
def Built (origin : String → Origin F) (tier : String → Option β) : Prop :=
  ∀ key entry, tier key = some entry → (origin key).key = key

/-- Nothing in the tier looks like the scope without being of it.  Then the
prefix finds just what it should. -/
def NoneAlike (s : Scope) (origin : String → Origin F) (tier : String → Option β) : Prop :=
  ∀ key entry, tier key = some entry → (origin key).LooksLike s → (origin key).Of s

/-- Dropping the keys with the prefix of a scope is exact if nothing else
looks like it. -/
theorem exact_of_prefix_iff {s : Scope} {origin : String → Origin F}
    {before after : String → Option β} (hbuilt : Built origin before)
    (h : ∀ key, after key = if startsWith key s.keyPrefix then none else before key) :
    Exact (fun key _ => (origin key).Of s) before after ↔ NoneAlike s origin before := by
  have hdropped : ∀ key entry, before key = some entry →
      (startsWith key s.keyPrefix = true ↔ (origin key).LooksLike s) := by
    intro key entry hentry
    have hiff := (origin key).startsWith_key_iff s
    rwa [hbuilt key entry hentry] at hiff
  rw [exact_iff h]
  constructor
  · intro hsame key entry hentry hlooks
    exact (hsame key entry hentry).mp ((hdropped key entry hentry).mpr hlooks)
  · intro hnone key entry hentry
    rw [hdropped key entry hentry]
    exact ⟨hnone key entry hentry, Origin.Of.looksLike⟩

end Tiers

namespace CacheManager

/-- `invalidate_tenant` or `invalidate_tool`. -/
def invalidate (m : CacheManager F) : Scope → ℕ × CacheManager F
  | .ofTenant tenant => m.invalidateTenant tenant
  | .ofTool tenant tool => m.invalidateTool tenant tool

theorem invalidate_eq (m : CacheManager F) (s : Scope) :
    m.invalidate s = m.invalidatePrefix s.keyPrefix := by
  cases s with
  | ofTenant tenant => rfl
  | ofTool tenant tool =>
      simp only [invalidate, invalidateTool, Scope.keyPrefix, Scope.name, String.append_assoc]

end CacheManager

/-- What `CacheManager` has of its tiers with `RedisL2` as the shared one.  Its
keyspace also holds the buckets of the limiter, and the locks. -/
structure RedisTiers (F : Type) (gone : Bool) where
  l1 : L1Cache F
  l2 : Keyspace gone

namespace RedisTiers

/-- `CacheManager.invalidate_prefix`, with Redis as its second tier. -/
def invalidatePrefix (m : RedisTiers F gone) (pre : String) (now : ℚ) :
    ℕ × RedisTiers F gone :=
  let (_, l1) := m.l1.deletePrefix pre
  let (deleted, l2) := RedisL2.deletePrefix m.l2 pre now
  (deleted, { l1, l2 })

/-- `CacheManager.invalidate_tool`, with Redis as its second tier. -/
def invalidateTool (m : RedisTiers F gone) (tenant tool : String) (now : ℚ) :
    ℕ × RedisTiers F gone :=
  m.invalidatePrefix ("atlas:" ++ tenant ++ ":" ++ tool ++ ":") now

/-- `CacheManager.invalidate_tenant`, with Redis as its second tier. -/
def invalidateTenant (m : RedisTiers F gone) (tenant : String) (now : ℚ) :
    ℕ × RedisTiers F gone :=
  m.invalidatePrefix ("atlas:" ++ tenant ++ ":") now

/-- `invalidate_tenant` or `invalidate_tool`. -/
def invalidate (m : RedisTiers F gone) (now : ℚ) : Scope → ℕ × RedisTiers F gone
  | .ofTenant tenant => m.invalidateTenant tenant now
  | .ofTool tenant tool => m.invalidateTool tenant tool now

theorem invalidate_eq (m : RedisTiers F gone) (now : ℚ) (s : Scope) :
    m.invalidate now s = m.invalidatePrefix s.keyPrefix now := by
  cases s with
  | ofTenant tenant => rfl
  | ofTool tenant tool =>
      simp only [invalidate, invalidateTool, Scope.keyPrefix, Scope.name, String.append_assoc]

end RedisTiers

/-- An entry of the cache; the buckets of the rate limiter are hashes, and are
not to be dropped. -/
def IsValue (entry : Entry) : Prop := ∃ value, entry.content = .text value

/-- The pattern of a scope finds, of the keys that are there, those of its
entries. -/
def FoundExactly (s : Scope) (origin : String → Origin F) (r : Keyspace gone) (now : ℚ) :
    Prop :=
  ∀ key entry, r.find key now = some entry →
    (Matches (s.keyPrefix ++ "*") key ↔ IsValue entry ∧ (origin key).Of s)

/-- What is left in L1 are the entries whose keys do not start with the
prefix. -/
theorem L1Cache.lookup_deletePrefix (c : L1Cache F) (pre key : String) :
    (c.deletePrefix pre).2.store.lookup key =
      if startsWith key pre then none else c.store.lookup key :=
  lookup_eraseAll_filter c.store (fun k => startsWith k pre) key

/-- What is left in Redis are the entries whose keys do not match the pattern,
which is not the same thing if there are special characters in it. -/
theorem RedisL2.find_deletePrefix (r : Keyspace gone) (pre : String) (now : ℚ) (key : String) :
    (RedisL2.deletePrefix r pre now).2.find key now =
      if Matches (pre ++ "*") key then none else r.find key now := by
  simp only [Keyspace.find, RedisL2.deletePrefix, lookup_eraseAll]
  by_cases hmatches : Matches (pre ++ "*") key
  · rw [if_pos hmatches]
    split
    next => rfl
    next hscan =>
        cases hfind : r.find key now with
        | none => exact hfind
        | some entry => exact absurd (Keyspace.mem_scan.mpr ⟨⟨entry, hfind⟩, hmatches⟩) hscan
  · have hscan : key ∉ r.scan (pre ++ "*") now := fun h =>
      hmatches (Keyspace.mem_scan.mp h).2
    rw [if_neg hmatches, if_neg hscan]

variable [PyFloat F]

/-- **What an invalidation drops.**  In both tiers, the shared one in the
process, it drops exactly the entries of its tenant (and tool), if and only if
no other entry looks like one of them.  With the shared tier on Redis it does
so, and leaves the buckets alone, if and only if none in L1 does and the
pattern finds exactly these entries. -/
theorem invalidation_exact_iff (s : Scope) (o₁ o₂ : String → Origin F) :
    (∀ m : CacheManager F, Built o₁ m.l1.store.lookup → Built o₂ m.l2.store.lookup →
      (Exact (fun key _ => (o₁ key).Of s) m.l1.store.lookup
          (m.invalidate s).2.l1.store.lookup ∧
        Exact (fun key _ => (o₂ key).Of s) m.l2.store.lookup
          (m.invalidate s).2.l2.store.lookup ↔
      NoneAlike s o₁ m.l1.store.lookup ∧ NoneAlike s o₂ m.l2.store.lookup)) ∧
    ∀ (gone : Bool) (m : RedisTiers F gone) (now : ℚ), Built o₁ m.l1.store.lookup →
      (Exact (fun key _ => (o₁ key).Of s) m.l1.store.lookup
          (m.invalidate now s).2.l1.store.lookup ∧
        Exact (fun key entry => IsValue entry ∧ (o₂ key).Of s) (m.l2.find · now)
          ((m.invalidate now s).2.l2.find · now) ↔
      NoneAlike s o₁ m.l1.store.lookup ∧ FoundExactly s o₂ m.l2 now) := by
  constructor
  · intro m hl1 hl2
    rw [m.invalidate_eq]
    exact and_congr (exact_of_prefix_iff hl1 (m.l1.lookup_deletePrefix _))
      (exact_of_prefix_iff hl2 (m.l2.lookup_deletePrefix _))
  · intro gone m now hl1
    rw [m.invalidate_eq]
    exact and_congr (exact_of_prefix_iff hl1 (m.l1.lookup_deletePrefix _))
      (exact_iff (RedisL2.find_deletePrefix m.l2 _ now))

/-- For a tenant and a tool without special characters the pattern finds what
starts with the prefix: the entries that look like the scope, and the buckets
that do. -/
theorem foundExactly_iff_of_plain {s : Scope} (hplain : ∀ c ∈ s.name.toList, IsPlain c)
    {origin : String → Origin F} {r : Keyspace gone} {now : ℚ}
    (hbuilt : ∀ key entry, r.find key now = some entry → IsValue entry →
      (origin key).key = key) :
    FoundExactly s origin r now ↔ ∀ key entry, r.find key now = some entry →
      (IsValue entry → (origin key).LooksLike s → (origin key).Of s) ∧
      (¬ IsValue entry → startsWith key s.keyPrefix = false) := by
  have hpre : ∀ c ∈ s.keyPrefix.toList, IsPlain c := by
    intro c hc
    simp only [Scope.keyPrefix, String.toList_append, List.mem_append] at hc
    rcases hc with (hc | hc) | hc
    · have hatlas : ∀ c ∈ "atlas:".toList, IsPlain c := by
        simp [IsPlain]
      exact hatlas c hc
    · exact hplain c hc
    · obtain rfl : c = ':' := by simpa using hc
      simp [IsPlain]
  have hfound := matches_iff_startsWith hpre
  constructor
  · intro hexact key entry hentry
    have hiff := hexact key entry hentry
    rw [hfound key] at hiff
    refine ⟨fun hvalue hlooks => ?_, fun hbucket => ?_⟩
    · have hstarts := ((origin key).startsWith_key_iff s).mpr hlooks
      rw [hbuilt key entry hentry hvalue] at hstarts
      exact (hiff.mp hstarts).2
    · rw [← Bool.not_eq_true]
      intro hstarts
      exact hbucket (hiff.mp hstarts).1
  · intro hnone key entry hentry
    obtain ⟨halike, hbuckets⟩ := hnone key entry hentry
    rw [hfound key]
    by_cases hvalue : IsValue entry
    · have hkey := (origin key).startsWith_key_iff s
      rw [hbuilt key entry hentry hvalue] at hkey
      rw [hkey]
      exact ⟨fun hlooks => ⟨hvalue, halike hvalue hlooks⟩, fun h => h.2.looksLike⟩
    · rw [hbuckets hvalue]
      simp [hvalue]

/-- A tool whose results are cached. -/
def readTool : Tool WholeFloat where
  metadata := { name := "s3.get_object" }
  inputSchema _ := .ok .empty

/-- A read of the tenant. -/
def readBy (tenant : String) : Origin WholeFloat := ⟨tenant, readTool, .empty⟩

/-- A tier with what two tenants have read. -/
def twoReads {β : Type} (t u : String) (entry : β) : AList fun _ : String => β :=
  ((∅ : AList fun _ : String => β).insert (readBy u).key entry).insert (readBy t).key entry

/-- The origin of a key, where two tenants have read. -/
def readOrigin (t u key : String) : Origin WholeFloat :=
  if key = (readBy t).key then readBy t else readBy u

/-- What is in a cache of two reads has the key of one of them. -/
theorem lookup_twoReads {β : Type} {t u key : String} {entry x : β}
    (h : (twoReads t u entry).lookup key = some x) :
    x = entry ∧ (readOrigin t u key).key = key := by
  by_cases ht : key = (readBy t).key
  · rw [twoReads, ht, AList.lookup_insert] at h
    rw [readOrigin, if_pos ht]
    exact ⟨(Option.some.inj h).symm, ht.symm⟩
  · rw [twoReads, AList.lookup_insert_ne ht] at h
    by_cases hu : key = (readBy u).key
    · rw [hu, AList.lookup_insert] at h
      rw [readOrigin, if_neg ht]
      exact ⟨(Option.some.inj h).symm, hu.symm⟩
    · rw [AList.lookup_insert_ne hu] at h
      cases h

theorem built_twoReads {β : Type} (t u : String) (entry : β) :
    Built (readOrigin t u) (twoReads t u entry).lookup :=
  fun _ _ h => (lookup_twoReads h).2

/-- A cache in which two tenants have their reads. -/
def readCache (t u : String) : CacheManager WholeFloat where
  settings := {}
  l1 := { maxItems := 10, store := twoReads t u ⟨.int 1, 60⟩ }
  l2 := { store := twoReads t u ("1", 60) }
  hits := 0
  misses := 0

/-- The same on Redis, where the first tenant also has a bucket. -/
def readRedis (t u : String) : RedisTiers WholeFloat false where
  l1 := { maxItems := 10, store := twoReads t u ⟨.int 1, 60⟩ }
  l2 := ⟨(twoReads t u ⟨.text "1", some 60⟩).insert
    (RateLimit.bucketKey t "s3.get_object") ⟨.hash ∅, none⟩⟩

/-- What the other tenant has read does not look like that of the first. -/
theorem noneAlike_reads {β : Type} {t u : String} (h : ¬ (readBy u).LooksLike (.ofTenant t))
    (tier : String → Option β) : NoneAlike (.ofTenant t) (readOrigin t u) tier := by
  intro key entry _ hlooks
  unfold readOrigin at hlooks ⊢
  split
  next => rfl
  next hne =>
      rw [if_neg hne] at hlooks
      exact absurd hlooks h

/-- Of what two tenants have read, that of the one is dropped from both tiers,
and nothing else. -/
theorem acme_dropped :
    (Exact (fun key _ => (readOrigin "acme" "globex" key).Of (.ofTenant "acme"))
        (readCache "acme" "globex").l1.store.lookup
        ((readCache "acme" "globex").invalidate (.ofTenant "acme")).2.l1.store.lookup ∧
      Exact (fun key _ => (readOrigin "acme" "globex" key).Of (.ofTenant "acme"))
        (readCache "acme" "globex").l2.store.lookup
        ((readCache "acme" "globex").invalidate (.ofTenant "acme")).2.l2.store.lookup) ∧
    Exact (fun key entry => IsValue entry ∧
        (readOrigin "acme" "globex" key).Of (.ofTenant "acme"))
      ((readRedis "acme" "globex").l2.find · 1)
      (((readRedis "acme" "globex").invalidate 1 (.ofTenant "acme")).2.l2.find · 1) := by
  have hunlike : ¬ (readBy "globex").LooksLike (.ofTenant "acme") := by decide +kernel
  obtain ⟨hmemory, hredis⟩ := invalidation_exact_iff (.ofTenant "acme")
    (readOrigin "acme" "globex") (readOrigin "acme" "globex")
  refine ⟨(hmemory (readCache "acme" "globex") (built_twoReads _ _ _)
    (built_twoReads _ _ _)).mpr ⟨noneAlike_reads hunlike _, noneAlike_reads hunlike _⟩, ?_⟩
  refine ((hredis false (readRedis "acme" "globex") 1 (built_twoReads _ _ _)).mpr
    ⟨noneAlike_reads hunlike _, ?_⟩).2
  have hplain : ∀ c ∈ (Scope.ofTenant "acme").name.toList, IsPlain c := by
    simp [Scope.name, IsPlain]
  have hentries : ∀ key entry, (readRedis "acme" "globex").l2.find key 1 = some entry →
      (IsValue entry → (readOrigin "acme" "globex" key).key = key) ∧
      (¬ IsValue entry → key = RateLimit.bucketKey "acme" "s3.get_object") := by
    intro key entry hfind
    have hlookup := (Keyspace.find_eq_some.mp hfind).1
    by_cases hkey : key = RateLimit.bucketKey "acme" "s3.get_object"
    · refine ⟨fun hvalue => ?_, fun _ => hkey⟩
      rw [readRedis, hkey, AList.lookup_insert] at hlookup
      obtain rfl := Option.some.inj hlookup
      obtain ⟨value, htext⟩ := hvalue
      cases htext
    · rw [readRedis, AList.lookup_insert_ne hkey] at hlookup
      obtain ⟨rfl, horigin⟩ := lookup_twoReads hlookup
      exact ⟨fun _ => horigin, fun hbucket => absurd ⟨"1", rfl⟩ hbucket⟩
  apply (foundExactly_iff_of_plain hplain fun key entry hfind => (hentries key entry hfind).1).mpr
  have halike : NoneAlike (.ofTenant "acme") (readOrigin "acme" "globex")
      ((readRedis "acme" "globex").l2.find · 1) := noneAlike_reads hunlike _
  intro key entry hfind
  refine ⟨fun _ => halike key entry hfind, fun hbucket => ?_⟩
  rw [(hentries key entry hfind).2 hbucket]
  decide +kernel

/-- The entry of a tenant whose name begins with that of another and a colon
is dropped with it, and on Redis a tenant by the name of `rl` takes all
buckets with it. -/
theorem acme_eu_dropped_with_acme :
    Built (readOrigin "acme:eu" "acme") (readCache "acme:eu" "acme").l2.store.lookup ∧
      ¬ Exact (fun key _ => (readOrigin "acme:eu" "acme" key).Of (.ofTenant "acme"))
        (readCache "acme:eu" "acme").l2.store.lookup
        ((readCache "acme:eu" "acme").invalidate (.ofTenant "acme")).2.l2.store.lookup ∧
      ((readRedis "acme" "globex").l2.find
        (RateLimit.bucketKey "acme" "s3.get_object") 1).isSome ∧
      (((readRedis "acme" "globex").invalidate 1 (.ofTenant "rl")).2.l2.find
        (RateLimit.bucketKey "acme" "s3.get_object") 1).isNone := by
  refine ⟨built_twoReads _ _ _, fun hexact => ?_, ?_, ?_⟩
  · have hlooks : (readBy "acme:eu").LooksLike (.ofTenant "acme") := by decide +kernel
    have hnot : ¬ (readOrigin "acme:eu" "acme" (readBy "acme:eu").key).Of (.ofTenant "acme") := by
      rw [readOrigin, if_pos rfl]
      decide +kernel
    have hkept := (hexact (readBy "acme:eu").key _ (AList.lookup_insert _)).2 hnot
    have hstarts := ((readBy "acme:eu").startsWith_key_iff (.ofTenant "acme")).mpr hlooks
    rw [CacheManager.invalidate_eq] at hkept
    have hdropped := (readCache "acme:eu" "acme").l2.lookup_deletePrefix
      (Scope.ofTenant "acme").keyPrefix (readBy "acme:eu").key
    rw [if_pos hstarts] at hdropped
    have hnone : some ("1", (60 : ℚ)) = none := hkept.symm.trans hdropped
    cases hnone
  · have hfind : (readRedis "acme" "globex").l2.find
        (RateLimit.bucketKey "acme" "s3.get_object") 1 = some ⟨.hash ∅, none⟩ :=
      Keyspace.find_eq_some.mpr ⟨AList.lookup_insert _, by intro t ht; cases ht⟩
    rw [hfind]
    rfl
  · have hmatches : Matches ((Scope.ofTenant "rl").keyPrefix ++ "*")
        (RateLimit.bucketKey "acme" "s3.get_object") := by decide +kernel
    have hdropped := RedisL2.find_deletePrefix (readRedis "acme" "globex").l2
      (Scope.ofTenant "rl").keyPrefix 1 (RateLimit.bucketKey "acme" "s3.get_object")
    rw [if_pos hmatches] at hdropped
    rw [RedisTiers.invalidate_eq]
    exact Option.isNone_iff_eq_none.mpr hdropped

end Cache
