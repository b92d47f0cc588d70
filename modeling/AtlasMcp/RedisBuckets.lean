import AtlasMcp.Redis
import AtlasMcp.TokenBucket
import AtlasMcp.GuardedRuns

/-!
# The token bucket on Redis

`RedisTokenBucket` does in a Lua script what `InMemoryTokenBucket` does in Python, and the
two differ in two things: the script divides by a refill rate of zero, and Redis forgets a
bucket an hour after its last call.  `same_of_kept` says that there is nothing else, and
`same_answers_iff` for which quotas neither can happen.
-/

namespace RateLimit

open GuardedRuns Redis

variable {gone : Bool}

/-- `a / b` in Lua, for a positive `a` and a rate `b`. -/
def luaDiv (a b : ℚ) : WithTop ℚ := if b = 0 then ⊤ else ((a / b : ℚ) : WithTop ℚ)

/-- `math.ceil(x * 1000)` in Lua. -/
def luaCeilMs (x : WithTop ℚ) : WithTop ℤ := x.map fun q => ⌈q * 1000⌉

namespace RedisTokenBucket

/-- `_LUA_SCRIPT`, run when the server's time is `now`. -/
def consume (r : Keyspace gone) (key : String) (capacity : ℤ) (refillPerS : ℚ)
    (cost nowMs : ℤ) (now : ℚ) : Except Redis.Error ((ℤ × WithTop ℤ) × Keyspace gone) := do
  let bucket ← r.hmget key ["tokens", "last_ms"] now
  let tokens := (bucket.getD 0 none).getD capacity
  let lastMs := (bucket.getD 1 none).getD nowMs
  let elapsedS := max 0 ((nowMs - lastMs) / 1000)
  let tokens := min (capacity : ℚ) (tokens + elapsedS * refillPerS)
  let (allowed, retryAfterMs, tokens) : ℤ × WithTop ℤ × ℚ :=
    if cost ≤ tokens then (1, 0, tokens - cost)
    else (0, luaCeilMs (luaDiv (cost - tokens) refillPerS), tokens)
  let r ← r.hmset key [("tokens", tokens), ("last_ms", nowMs)] now
  return ((allowed, retryAfterMs), r.expire key 3600 now)

/-- The hash of a bucket with these tokens, left by a call at `lastMs`. -/
def Holds (hash : AList fun _ : String => ℚ) (tokens : ℚ) (lastMs : ℤ) : Prop :=
  hash.lookup "tokens" = some tokens ∧ hash.lookup "last_ms" = some (lastMs : ℚ)

/-- The write at the end of the script starts the hour of the bucket anew. -/
theorem write_spec {r : Keyspace gone} {key : String} {now : ℚ}
    (h : ∀ value expiresAt, r.find key now ≠ some ⟨.text value, expiresAt⟩)
    (tokens : ℚ) (nowMs : ℤ) :
    ∃ r' hash, r.hmset key [("tokens", tokens), ("last_ms", (nowMs : ℚ))] now = .ok r' ∧
      (r'.expire key 3600 now).entries.lookup key =
        some ⟨.hash hash, some (now + 3600)⟩ ∧ Holds hash tokens nowMs := by
  have hexpire : ∀ (hash : AList fun _ : String => ℚ) (expiresAt : Option ℚ),
      Alive gone expiresAt now →
      ((r.put key ⟨.hash hash, expiresAt⟩).expire key 3600 now).entries.lookup key =
        some ⟨.hash hash, some (now + 3600)⟩ := by
    intro hash expiresAt halive
    have hfind : (r.put key ⟨.hash hash, expiresAt⟩).find key now =
        some ⟨.hash hash, expiresAt⟩ := by
      rw [Keyspace.find_put, if_pos halive]
    rw [Keyspace.lookup_expire hfind (by omega)]
    norm_num
  have hholds : ∀ hash : AList fun _ : String => ℚ,
      Holds (Keyspace.writeFields hash [("tokens", tokens), ("last_ms", (nowMs : ℚ))])
        tokens nowMs := by
    intro hash
    simp [Holds, Keyspace.writeFields, AList.lookup_insert_ne]
  cases hfind : r.find key now with
  | none =>
      have hforever : Alive gone none now := by
        intro t ht
        cases ht
      exact ⟨_, _, Keyspace.hmset_of_none hfind _, hexpire _ _ hforever, hholds _⟩
  | some entry =>
      obtain ⟨value | hash, expiresAt⟩ := entry
      · exact absurd hfind (h value expiresAt)
      · have halive := (Keyspace.find_eq_some.mp hfind).2
        exact ⟨_, _, Keyspace.hmset_of_hash hfind _, hexpire _ _ halive, hholds _⟩

/-- What the script finds: the record of the last call, unless the bucket is
gone. -/
def Found (r : Keyspace gone) (key : String) (record : Option (ℚ × ℤ)) (now : ℚ) : Prop :=
  match record with
  | none => r.find key now = none
  | some (tokens, lastMs) => ∃ hash expiresAt,
      r.find key now = some ⟨.hash hash, expiresAt⟩ ∧ Holds hash tokens lastMs

/-- **What the script does.** -/
theorem consume_spec {r : Keyspace gone} {key : String} {record : Option (ℚ × ℤ)}
    {now : ℚ} {nowMs : ℤ} (h : Found r key record now) (capacity : ℤ) (refillPerS : ℚ)
    (cost : ℤ) {level : ℚ} (hlevel : level = min (capacity : ℚ)
      ((record.getD ((capacity : ℚ), nowMs)).1 +
        InMemoryTokenBucket.elapsedS (record.getD ((capacity : ℚ), nowMs)).2 nowMs * refillPerS)) :
    ∃ r' hash, consume r key capacity refillPerS cost nowMs now =
        .ok (if cost ≤ level then (1, 0)
          else (0, luaCeilMs (luaDiv (cost - level) refillPerS)), r') ∧
      r'.entries.lookup key = some ⟨.hash hash, some (now + 3600)⟩ ∧
      Holds hash (level - (if (cost : ℚ) ≤ level then cost else 0 : ℤ)) nowMs := by
  have hread : r.hmget key ["tokens", "last_ms"] now =
      .ok [record.map Prod.fst, record.map fun x => (x.2 : ℚ)] := by
    rcases record with _ | ⟨tokens, lastMs⟩
    · have hnone : r.find key now = none := h
      simp [Keyspace.hmget, hnone]
    · obtain ⟨hash, expiresAt, hfind, htokens, hlast⟩ := h
      simp [Keyspace.hmget, hfind, htokens, hlast]
  have hhash : ∀ value expiresAt, r.find key now ≠ some ⟨.text value, expiresAt⟩ := by
    intro value expiresAt htext
    rcases record with _ | ⟨tokens, lastMs⟩
    · have hnone : r.find key now = none := h
      rw [hnone] at htext
      cases htext
    · obtain ⟨hash, expiresAt', hfind, -⟩ := h
      rw [hfind] at htext
      cases htext
  have hfound : min (capacity : ℚ) (([record.map Prod.fst, record.map fun x => (x.2 : ℚ)].getD 0
        none).getD capacity + max 0 (((nowMs : ℚ) - ([record.map Prod.fst,
          record.map fun x => (x.2 : ℚ)].getD 1 none).getD nowMs) / 1000) * refillPerS) =
      level := by
    rw [hlevel]
    cases record <;> simp [InMemoryTokenBucket.elapsedS]
  obtain ⟨r', hash, hwrite, hlookup, hholds⟩ := write_spec hhash
    (level - (if (cost : ℚ) ≤ level then cost else 0 : ℤ)) nowMs
  refine ⟨r'.expire key 3600 now, hash, ?_, hlookup, hholds⟩
  simp only [consume, hread, Except.bind, bind, hfound]
  by_cases hcost : (cost : ℚ) ≤ level
  · simp only [hcost, if_true] at hwrite ⊢
    rw [hwrite]
    rfl
  · simp only [hcost, if_false, Int.cast_zero, sub_zero] at hwrite ⊢
    rw [hwrite]
    rfl

end RedisTokenBucket

/-- The same calls on both backends, and the time of the last one. -/
structure Buckets (gone : Bool) where
  memory : InMemoryTokenBucket := {}
  redis : Keyspace gone := {}
  clockMs : ℤ := 0

namespace Buckets

variable (key : String) (capacity : ℤ) (refillPerS : ℚ)

/-- The tokens that the call finds in memory. -/
def tokens (s : Buckets gone) (req : Request) : ℚ :=
  s.memory.refilled key capacity refillPerS req.nowMs

/-- The answer in memory. -/
def memoryAnswer (s : Buckets gone) (req : Request) : ℤ × ℤ :=
  (s.memory.consume key capacity refillPerS req.cost req.nowMs).1

/-- The answer on Redis, whose time is that of the call. -/
def redisAnswer (s : Buckets gone) (req : Request) : Except Redis.Error (ℤ × WithTop ℤ) :=
  (RedisTokenBucket.consume s.redis key capacity refillPerS req.cost req.nowMs
    (req.nowMs / 1000)).map Prod.fst

/-- Both buckets are asked for the same, at a time that is not before the last
request. -/
def step (s : Buckets gone) (req : Request) : Option (Buckets gone) :=
  if s.clockMs ≤ req.nowMs then
    some {
      memory := (s.memory.consume key capacity refillPerS req.cost req.nowMs).2
      redis := match RedisTokenBucket.consume s.redis key capacity refillPerS req.cost
          req.nowMs (req.nowMs / 1000) with
        | .ok (_, redis) => redis
        | .error _ => s.redis
      clockMs := req.nowMs }
  else none

/-- One call, not before the last one. -/
def Step (s : Buckets gone) (req : Request) (t : Buckets gone) : Prop :=
  s.step key capacity refillPerS req = some t

/-- The backends answer the same: whether the call is admitted, and if it is
not, how long to wait. -/
def SameAnswer (s : Buckets gone) (req : Request) (_ : Buckets gone) : Prop :=
  s.redisAnswer key capacity refillPerS req =
    .ok ((s.memoryAnswer key capacity refillPerS req).1,
      ((s.memoryAnswer key capacity refillPerS req).2 : WithTop ℤ))

/-- Without a refill the tokens cover the call; and a bucket that Redis has
forgotten is full again. -/
def Kept (s : Buckets gone) (req : Request) (_ : Buckets gone) : Prop :=
  (refillPerS = 0 → (req.cost : ℚ) ≤ s.tokens key capacity refillPerS req) ∧
  (s.redis.find key (req.nowMs / 1000) = none → s.tokens key capacity refillPerS req = capacity)

instance (s : Buckets gone) (req : Request) (t : Buckets gone) :
    Decidable (s.Kept key capacity refillPerS req t) :=
  inferInstanceAs (Decidable (_ ∧ (_ = none → _)))

/-- Redis has the record in memory, though it may have expired.  A bucket that
has expired there begins anew, and full. -/
def Agree (s : Buckets gone) : Prop :=
  match s.memory.buckets.lookup key with
  | none => s.redis.entries.lookup key = none
  | some (tokens, lastMs) => ∃ hash, s.redis.entries.lookup key =
      some ⟨.hash hash, some ((lastMs : ℚ) / 1000 + 3600)⟩ ∧
        RedisTokenBucket.Holds hash tokens lastMs

variable {key capacity refillPerS} {s t : Buckets gone} {req : Request}

theorem step_unique {t' : Buckets gone} (h : s.Step key capacity refillPerS req t)
    (h' : s.Step key capacity refillPerS req t') : t = t' :=
  Option.some.inj (h.symm.trans h')

/-- What a call leaves in memory. -/
theorem step_cases (h : s.Step key capacity refillPerS req t) :
    s.clockMs ≤ req.nowMs ∧ t.clockMs = req.nowMs ∧
      t.memory.buckets.lookup key = some (s.tokens key capacity refillPerS req -
        (if (req.cost : ℚ) ≤ s.tokens key capacity refillPerS req then req.cost else 0 : ℤ),
        req.nowMs) := by
  obtain ⟨hclock, rfl⟩ : s.clockMs ≤ req.nowMs ∧ _ = t := by simpa [Step, step] using h
  have hallowed := s.memory.consume_allowed_iff key capacity refillPerS req.cost req.nowMs
  refine ⟨hclock, rfl, ?_⟩
  simp only [InMemoryTokenBucket.lookup_consume]
  rw [if_congr hallowed rfl rfl]
  rfl

/-- **The same call on both.**  It finds the same tokens, gives the same
answer and leaves the same record. -/
theorem same_call (hs : s.Agree key) (hkept : s.Kept key capacity refillPerS req t)
    (h : s.Step key capacity refillPerS req t) :
    t.Agree key ∧ s.SameAnswer key capacity refillPerS req t := by
  obtain ⟨-, rfl⟩ : s.clockMs ≤ req.nowMs ∧ _ = t := by simpa [Step, step] using h
  obtain ⟨record, hfound, hlevel⟩ : ∃ record,
      RedisTokenBucket.Found s.redis key record (req.nowMs / 1000) ∧
      s.tokens key capacity refillPerS req = min (capacity : ℚ)
        ((record.getD ((capacity : ℚ), req.nowMs)).1 + InMemoryTokenBucket.elapsedS
          (record.getD ((capacity : ℚ), req.nowMs)).2 req.nowMs * refillPerS) := by
    cases hfind : s.redis.find key (req.nowMs / 1000) with
    | none =>
        refine ⟨none, hfind, ?_⟩
        rw [hkept.2 hfind]
        simp [InMemoryTokenBucket.elapsedS]
    | some entry =>
        have hentry := (Keyspace.find_eq_some.mp hfind).1
        cases hmemory : s.memory.buckets.lookup key with
        | none =>
            simp only [Agree, hmemory] at hs
            rw [hs] at hentry
            cases hentry
        | some record =>
            obtain ⟨tokens, lastMs⟩ := record
            simp only [Agree, hmemory] at hs
            obtain ⟨hash, hlookup, hholds⟩ := hs
            obtain rfl := Option.some.inj (hlookup.symm.trans hentry)
            refine ⟨some (tokens, lastMs), ⟨hash, _, hfind, hholds⟩, ?_⟩
            simp [Buckets.tokens, InMemoryTokenBucket.refilled, hmemory]
  obtain ⟨r', hash, hconsume, hlookup, hholds⟩ :=
    RedisTokenBucket.consume_spec hfound capacity refillPerS req.cost hlevel
  constructor
  · have hmemory := s.memory.lookup_consume key capacity refillPerS req.cost req.nowMs
    simp only [Agree, hmemory, hconsume]
    refine ⟨hash, hlookup, ?_⟩
    have hallowed := s.memory.consume_allowed_iff key capacity refillPerS req.cost req.nowMs
    rw [if_congr hallowed rfl rfl]
    exact hholds
  · simp only [SameAnswer, redisAnswer, hconsume, Except.map, memoryAnswer,
      InMemoryTokenBucket.consume]
    by_cases hcost : (req.cost : ℚ) ≤ s.tokens key capacity refillPerS req
    · have hcost' : (req.cost : ℚ) ≤ s.memory.refilled key capacity refillPerS req.nowMs := hcost
      simp [hcost, hcost']
    · have hcost' : ¬ (req.cost : ℚ) ≤ s.memory.refilled key capacity refillPerS req.nowMs :=
        hcost
      have hrate : refillPerS ≠ 0 := fun hzero => hcost (hkept.1 hzero)
      simp [hcost', hrate, luaDiv, luaCeilMs, Buckets.tokens]

/-- **Where the backends agree.**  From backends without a bucket of the key,
both give the same answer to every call of a run in which no call that the
tokens do not cover is made without a refill, and every bucket that Redis
forgets is full again. -/
theorem same_of_kept {s t : Buckets gone} {reqs : List Request}
    (hmemory : s.memory.buckets.lookup key = none) (hredis : s.redis.entries.lookup key = none)
    (hrun : Run (Guarded (Step key capacity refillPerS) (Kept key capacity refillPerS)) s reqs t) :
    Run (Guarded (Step key capacity refillPerS) (SameAnswer key capacity refillPerS)) s reqs
      t := by
  have hstart : s.Agree key := by simp only [Agree, hmemory, hredis]
  apply hrun.transfer hstart
  intro s req t hs hstep
  obtain ⟨hagree, hsame⟩ := same_call hs hstep.2 hstep.1
  exact ⟨hagree, hstep.1, hsame⟩

section Quotas

variable (key capacity refillPerS)

/-- The shortest time between calls after which Redis has forgotten a bucket,
in ms. -/
def forgetMs (gone : Bool) : ℤ := if gone then 3600000 else 3600001

/-- The bucket in memory is of the last call, and was left with no debt but
that of a negative capacity. -/
def Solvent (s : Buckets gone) : Prop :=
  ∀ tokens lastMs, s.memory.buckets.lookup key = some (tokens, lastMs) →
    lastMs = s.clockMs ∧ min 0 (capacity : ℚ) ≤ tokens

variable {key capacity refillPerS}

/-- A bucket that Redis has forgotten was left long ago. -/
theorem forgetMs_le {lastMs nowMs : ℤ}
    (h : ¬ Alive gone (some ((lastMs : ℚ) / 1000 + 3600)) ((nowMs : ℚ) / 1000)) :
    lastMs + forgetMs gone ≤ nowMs := by
  by_contra hlt
  apply h
  intro t ht
  obtain rfl := Option.some.inj ht
  cases gone with
  | true =>
      simp only [forgetMs, if_true] at hlt ⊢
      have hcast : (nowMs : ℚ) < lastMs + 3600000 := by exact_mod_cast not_le.mp hlt
      linarith
  | false =>
      simp only [forgetMs, Bool.false_eq_true, if_false] at hlt ⊢
      have hle : nowMs ≤ lastMs + 3600000 := by omega
      have hcast : (nowMs : ℚ) ≤ lastMs + 3600000 := by exact_mod_cast hle
      linarith

theorem tokens_le (s : Buckets gone) (req : Request) :
    s.tokens key capacity refillPerS req ≤ capacity := by
  simp only [tokens, InMemoryTokenBucket.refilled]
  exact min_le_left _ _

/-- A call finds no debt either. -/
theorem le_tokens (hrate : 0 ≤ refillPerS) (hs : s.Solvent key capacity) :
    min 0 (capacity : ℚ) ≤ s.tokens key capacity refillPerS req := by
  cases hrecord : s.memory.buckets.lookup key with
  | none =>
      rw [tokens, InMemoryTokenBucket.refilled_of_fresh hrecord]
      exact min_le_right _ _
  | some record =>
      obtain ⟨tokens, lastMs⟩ := record
      have htokens := (hs tokens lastMs hrecord).2
      have hgain := mul_nonneg (InMemoryTokenBucket.elapsedS_nonneg lastMs req.nowMs) hrate
      simp only [Buckets.tokens, InMemoryTokenBucket.refilled, hrecord, Option.getD_some]
      apply le_min (min_le_right _ _)
      linarith

/-- A step leaves the bucket in memory without debt, but for that of a
negative capacity. -/
theorem solvent_step (hrate : 0 ≤ refillPerS) (hs : s.Solvent key capacity)
    (h : s.Step key capacity refillPerS req t) : t.Solvent key capacity := by
  obtain ⟨-, hclock, hleft⟩ := step_cases h
  intro tokens lastMs hrecord
  have hlevel : min 0 (capacity : ℚ) ≤ s.tokens key capacity refillPerS req :=
    le_tokens hrate hs
  obtain ⟨rfl, rfl⟩ := Prod.mk.inj (Option.some.inj (hleft.symm.trans hrecord))
  refine ⟨hclock.symm, ?_⟩
  split
  next hcost =>
      have hzero : min 0 (capacity : ℚ) ≤ 0 := min_le_left _ _
      linarith
  next => simpa using hlevel

/-- With a quota that fills up a bucket before Redis forgets it, every call is
kept. -/
theorem kept_of_quota (hrate : 0 < refillPerS)
    (hquota : (capacity : ℚ) ≤ refillPerS * (forgetMs gone / 1000))
    (hagree : s.Agree key) (hs : s.Solvent key capacity)
    (h : s.Step key capacity refillPerS req t) : s.Kept key capacity refillPerS req t := by
  refine ⟨fun hzero => absurd hzero (ne_of_gt hrate), fun hnone => ?_⟩
  have hclock := (step_cases h).1
  apply le_antisymm (tokens_le s req)
  cases hrecord : s.memory.buckets.lookup key with
  | none =>
      rw [tokens, InMemoryTokenBucket.refilled_of_fresh hrecord]
  | some record =>
      obtain ⟨tokens, lastMs⟩ := record
      obtain ⟨rfl, htokens⟩ := hs tokens lastMs hrecord
      simp only [Agree, hrecord] at hagree
      obtain ⟨hash, hlookup, -⟩ := hagree
      have hlong : s.clockMs + forgetMs gone ≤ req.nowMs := by
        apply forgetMs_le
        intro halive
        rw [Keyspace.find_eq_some.mpr ⟨hlookup, halive⟩] at hnone
        cases hnone
      have hcast : (s.clockMs : ℚ) + forgetMs gone ≤ req.nowMs := by exact_mod_cast hlong
      have helapsed : (forgetMs gone : ℚ) / 1000 ≤
          InMemoryTokenBucket.elapsedS s.clockMs req.nowMs := by
        rw [InMemoryTokenBucket.elapsedS_of_le hclock]
        linarith
      have hgain : refillPerS * (forgetMs gone / 1000) ≤
          InMemoryTokenBucket.elapsedS s.clockMs req.nowMs * refillPerS := by
        rw [mul_comm refillPerS]
        exact mul_le_mul_of_nonneg_right helapsed hrate.le
      have hpositive : (0 : ℚ) ≤ refillPerS * (forgetMs gone / 1000) := by
        have hforget : (0 : ℚ) ≤ forgetMs gone / 1000 := by
          cases gone <;> norm_num [forgetMs]
        exact mul_nonneg hrate.le hforget
      simp only [Buckets.tokens, InMemoryTokenBucket.refilled, hrecord, Option.getD_some]
      apply le_min le_rfl
      rcases min_cases 0 (capacity : ℚ) with ⟨hmin, -⟩ | ⟨hmin, -⟩
      all_goals
        rw [hmin] at htokens
        linarith

/-- A bucket that is gone on Redis is full there. -/
theorem redisAnswer_of_gone (hgone : s.redis.find key (req.nowMs / 1000) = none) :
    s.redisAnswer key capacity refillPerS req =
      .ok (if (req.cost : ℚ) ≤ capacity then (1, 0)
        else (0, luaCeilMs (luaDiv (req.cost - capacity) refillPerS))) := by
  have hfound : RedisTokenBucket.Found s.redis key none (req.nowMs / 1000) := hgone
  have hlevel : (capacity : ℚ) = min (capacity : ℚ)
      (((none : Option (ℚ × ℤ)).getD ((capacity : ℚ), req.nowMs)).1 +
        InMemoryTokenBucket.elapsedS
          ((none : Option (ℚ × ℤ)).getD ((capacity : ℚ), req.nowMs)).2 req.nowMs *
          refillPerS) := by
    simp [InMemoryTokenBucket.elapsedS]
  obtain ⟨r', hash, hconsume, -⟩ :=
    RedisTokenBucket.consume_spec hfound capacity refillPerS req.cost hlevel
  simp [redisAnswer, hconsume, Except.map]

/-- What the bucket in memory answers: whether there is enough in it, and if
there is not, how long it takes until there is. -/
theorem memoryAnswer_eq : s.memoryAnswer key capacity refillPerS req =
    if (req.cost : ℚ) ≤ s.tokens key capacity refillPerS req then (1, 0)
    else (0, if refillPerS ≠ 0 then
      ⌈(req.cost - s.tokens key capacity refillPerS req) / refillPerS * 1000⌉ else 3600000) := by
  by_cases hcost : (req.cost : ℚ) ≤ s.memory.refilled key capacity refillPerS req.nowMs <;>
    simp [memoryAnswer, tokens, InMemoryTokenBucket.consume, hcost]

/-- Without a refill a new bucket denies more than its capacity, each backend
in its way. -/
theorem not_same_without_refill (hmemory : s.memory.buckets.lookup key = none)
    (hgone : s.redis.find key (req.nowMs / 1000) = none) (hcost : (capacity : ℚ) < req.cost) :
    ¬ s.SameAnswer key capacity 0 req t := by
  intro hsame
  have htokens : s.tokens key capacity 0 req = capacity :=
    InMemoryTokenBucket.refilled_of_fresh hmemory _ _ _
  rw [SameAnswer, redisAnswer_of_gone hgone, memoryAnswer_eq, htokens, if_neg (not_le.mpr hcost),
    if_neg (not_le.mpr hcost)] at hsame
  simp [luaDiv, luaCeilMs] at hsame

/-- A call for all tokens tells a bucket that is gone from one that is not
full again. -/
theorem not_same_of_forgotten (hgone : s.redis.find key (req.nowMs / 1000) = none)
    (hcost : req.cost = capacity) (hless : s.tokens key capacity refillPerS req < capacity) :
    ¬ s.SameAnswer key capacity refillPerS req t := by
  intro hsame
  rw [SameAnswer, redisAnswer_of_gone hgone, memoryAnswer_eq, hcost, if_pos le_rfl,
    if_neg (not_le.mpr hless)] at hsame
  simp at hsame

/-- **For which quotas the backends agree.**  All runs of calls from new
backends give the same answers on both, if and only if the bucket is refilled,
and is full again by the time Redis forgets it. -/
theorem same_answers_iff (hrate : 0 ≤ refillPerS) :
    (∀ reqs t, Run (Step key capacity refillPerS) ({} : Buckets gone) reqs t →
      Run (Guarded (Step key capacity refillPerS) (SameAnswer key capacity refillPerS)) {}
        reqs t) ↔
    0 < refillPerS ∧ (capacity : ℚ) ≤ refillPerS * (forgetMs gone / 1000) := by
  have hagree : ({} : Buckets gone).Agree key := rfl
  have hfresh : ({} : Buckets gone).redis.find key 0 = none := rfl
  constructor
  · intro hall
    rcases hrate.eq_or_lt with rfl | hpos
    · -- one call for more than the capacity
      exfalso
      have hstep : ({} : Buckets gone).Step key capacity 0 ⟨capacity + 1, 0⟩ _ :=
        if_pos (le_refl _)
      have hrun := hall ([] ++ [⟨capacity + 1, 0⟩]) _ (run_snoc.mpr ⟨_, .nil, hstep⟩)
      obtain ⟨s, hnil, -, hsame⟩ := run_snoc.mp hrun
      obtain rfl := run_nil.mp hnil
      refine not_same_without_refill rfl ?_ ?_ hsame
      · simp [hfresh]
      · simp
    · refine ⟨hpos, ?_⟩
      by_contra hquota
      -- a call for all tokens, and another one when Redis has just forgotten the bucket
      obtain ⟨t, hstep⟩ : ∃ t, ({} : Buckets gone).Step key capacity refillPerS
          ⟨capacity, 0⟩ t := ⟨_, if_pos (le_refl _)⟩
      have hfull : ({} : Buckets gone).tokens key capacity refillPerS ⟨capacity, 0⟩ = capacity :=
        InMemoryTokenBucket.refilled_of_fresh rfl _ _ _
      obtain ⟨-, hclock, hrecord⟩ := step_cases hstep
      rw [hfull, if_pos le_rfl, sub_self] at hrecord
      have hkept : ({} : Buckets gone).Kept key capacity refillPerS ⟨capacity, 0⟩ t :=
        ⟨fun hzero => absurd hzero (ne_of_gt hpos), fun _ => hfull⟩
      have hleft := (same_call hagree hkept hstep).1
      simp only [Agree, hrecord] at hleft
      obtain ⟨hash, hlookup, -⟩ := hleft
      have hforget : 0 ≤ forgetMs gone := by cases gone <;> simp [forgetMs]
      obtain ⟨u, hnext⟩ : ∃ u, t.Step key capacity refillPerS ⟨capacity, forgetMs gone⟩ u :=
        ⟨_, if_pos (hclock ▸ hforget)⟩
      have hgone : t.redis.find key (forgetMs gone / 1000) = none := by
        cases hfind : t.redis.find key (forgetMs gone / 1000) with
        | none => rfl
        | some entry =>
            exfalso
            obtain ⟨hentry, halive⟩ := Keyspace.find_eq_some.mp hfind
            obtain rfl := Option.some.inj (hlookup.symm.trans hentry)
            have hnow := halive _ rfl
            cases gone <;> norm_num [forgetMs] at hnow
      have hless : t.tokens key capacity refillPerS ⟨capacity, forgetMs gone⟩ < capacity := by
        simp only [tokens, InMemoryTokenBucket.refilled, hrecord, Option.getD_some,
          InMemoryTokenBucket.elapsedS_of_le hforget]
        apply min_lt_of_right_lt
        push_cast
        linarith
      have hrun := hall ([] ++ [⟨capacity, 0⟩] ++ [⟨capacity, forgetMs gone⟩]) u
        (run_snoc.mpr ⟨t, run_snoc.mpr ⟨_, .nil, hstep⟩, hnext⟩)
      obtain ⟨t', hrun, -, hsame⟩ := run_snoc.mp hrun
      obtain ⟨s, hnil, hstep', -⟩ := run_snoc.mp hrun
      obtain rfl := run_nil.mp hnil
      obtain rfl := step_unique hstep hstep'
      have hnot : ¬ t.SameAnswer key capacity refillPerS ⟨capacity, forgetMs gone⟩ u :=
        not_same_of_forgotten hgone rfl hless
      exact hnot hsame
  · intro h
    obtain ⟨hpos, hquota⟩ := h
    intro reqs t hrun
    have hsolvent : ({} : Buckets gone).Solvent key capacity := by
      intro tokens lastMs hrecord
      cases hrecord
    apply hrun.transfer (I := fun s => s.Agree key ∧ s.Solvent key capacity)
      ⟨hagree, hsolvent⟩
    intro s req t hs hstep
    have hkept := kept_of_quota hpos hquota hs.1 hs.2 hstep
    obtain ⟨hnext, hsame⟩ := same_call hs.1 hkept hstep
    exact ⟨⟨hnext, solvent_step hrate hs.2 hstep⟩, hstep, hsame⟩

end Quotas

end Buckets

/-- Three calls on a bucket of one token that fills up in a second. -/
def threeCalls : List Request := [⟨1, 0⟩, ⟨1, 250⟩, ⟨1, 1000⟩]

/-- Both backends deny the second one for as long. -/
theorem three_calls_answered : ∃ s t : Buckets false,
    Run (Guarded (Buckets.Step "k" 1 1) (Buckets.SameAnswer "k" 1 1)) {} threeCalls t ∧
      Run (Buckets.Step "k" 1 1) {} (threeCalls.take 1) s ∧
      s.memoryAnswer "k" 1 1 ⟨1, 250⟩ = (0, 750) := by
  obtain ⟨t, ht⟩ : ∃ t, execGuarded (Buckets.step "k" 1 1) (Buckets.Kept "k" 1 1)
      ({} : Buckets false) threeCalls = some t := by
    apply Option.isSome_iff_exists.mp
    decide +kernel
  obtain ⟨s, hs, hanswer⟩ : ∃ s ∈ exec (Buckets.step "k" 1 1) ({} : Buckets false)
      (threeCalls.take 1), s.memoryAnswer "k" 1 1 ⟨1, 250⟩ = (0, 750) := by decide +kernel
  exact ⟨s, t, Buckets.same_of_kept rfl rfl (Run.of_execGuarded ht), Run.of_exec hs, hanswer⟩

/-- Without a refill the second call for the one token is denied for an hour
in memory, and without end on Redis. -/
theorem denied_without_refill : ∃ s t : Buckets false,
    Run (Buckets.Step "k" 1 0) {} [⟨1, 0⟩] s ∧ s.Step "k" 1 0 ⟨1, 0⟩ t ∧
      s.memoryAnswer "k" 1 0 ⟨1, 0⟩ = (0, 3600000) ∧
      (s.redisAnswer "k" 1 0 ⟨1, 0⟩).toOption = some (0, ⊤) ∧
      ¬ s.SameAnswer "k" 1 0 ⟨1, 0⟩ t := by
  obtain ⟨s, hs, t, ht, hmemory, hredis⟩ :
      ∃ s ∈ exec (Buckets.step "k" 1 0) ({} : Buckets false) [⟨1, 0⟩],
        ∃ t ∈ s.step "k" 1 0 ⟨1, 0⟩, s.memoryAnswer "k" 1 0 ⟨1, 0⟩ = (0, 3600000) ∧
          (s.redisAnswer "k" 1 0 ⟨1, 0⟩).toOption = some (0, ⊤) := by decide +kernel
  refine ⟨s, t, Run.of_exec hs, ht, hmemory, hredis, fun hsame => ?_⟩
  rw [hsame, hmemory] at hredis
  cases hredis

end RateLimit
