import AtlasMcp.JsonRoundTrip
import AtlasMcp.RateLimiter
import AtlasMcp.PurgedRuns
import AtlasMcp.ToolRegistry

/-!
# Tenants do not share a bucket

The limiter keeps the buckets of all tenants and tools in one map, under keys that join
the two names with `':'`.  The names of tools have no `':'`, so the last one of a key ends
the tenant, whatever the tenant is: the keys of different pairs differ (`bucketKey_inj`).
A call touches the record of its own key alone, on every path: a first use, a refill, a
denial.  So nothing that one pair does can be told from the answers to another
(`answers_of_others_deleted`).
-/

namespace RateLimit

open PyJson Errors PurgedRuns

variable {F : Type}

/-- `acquire(tenant, tool, cost)` with the reading of the clock that it
makes. -/
structure AcquireCall where
  tenant : String
  tool : String
  cost : ℤ := 1
  nowMs : ℤ

/-- The call is one of the tenant for the tool. -/
def AcquireCall.isFor (tenant tool : String) (c : AcquireCall) : Bool :=
  c.tenant == tenant && c.tool == tool

/-- A call is for a tenant and a tool if it names both. -/
theorem AcquireCall.isFor_iff {tenant tool : String} {c : AcquireCall} :
    c.isFor tenant tool = true ↔ c.tenant = tenant ∧ c.tool = tool := by
  simp [isFor]

/-- The key of a bucket. -/
def bucketKey (tenant tool : String) : String := "atlas:rl:" ++ tenant ++ ":" ++ tool

/-- For tools without `':'` in their names, no two pairs of a tenant and a
tool share a bucket, whatever the tenants are. -/
theorem bucketKey_inj {t₁ u₁ t₂ u₂ : String} (hu₁ : ':' ∉ u₁.toList) (hu₂ : ':' ∉ u₂.toList)
    (h : bucketKey t₁ u₁ = bucketKey t₂ u₂) : t₁ = t₂ ∧ u₁ = u₂ := by
  have hlist : ("atlas:rl:".toList ++ t₁.toList) ++ ':' :: u₁.toList =
      ("atlas:rl:".toList ++ t₂.toList) ++ ':' :: u₂.toList := by
    simpa [bucketKey] using congrArg String.toList h
  obtain ⟨htenant, htool⟩ := Tools.append_colon_inj hu₁ hu₂ hlist
  exact ⟨String.toList_injective (List.append_cancel_left htenant),
    String.toList_injective htool⟩

namespace InMemoryTokenBucket

/-- What a call answers and leaves is decided by the record under its key. -/
theorem consume_congr {b b' : InMemoryTokenBucket} {key : String}
    (h : b.buckets.lookup key = b'.buckets.lookup key) (capacity : ℤ) (refillPerS : ℚ)
    (cost nowMs : ℤ) :
    (b.consume key capacity refillPerS cost nowMs).1 =
        (b'.consume key capacity refillPerS cost nowMs).1 ∧
      (b.consume key capacity refillPerS cost nowMs).2.buckets.lookup key =
        (b'.consume key capacity refillPerS cost nowMs).2.buckets.lookup key := by
  have hfound : b.refilled key capacity refillPerS nowMs =
      b'.refilled key capacity refillPerS nowMs := by
    simp only [refilled, h]
  have hanswer : (b.consume key capacity refillPerS cost nowMs).1 =
      (b'.consume key capacity refillPerS cost nowMs).1 := by
    simp only [consume, hfound]
    split <;> rfl
  refine ⟨hanswer, ?_⟩
  rw [lookup_consume, lookup_consume, hfound, hanswer]

end InMemoryTokenBucket

namespace RateLimiter

/-- A call: what it returns or raises, and the limiter after it. -/
def called [PyFloat F] (l : RateLimiter) (c : AcquireCall) :
    Except (ToolError F) Unit × RateLimiter :=
  l.acquire c.tenant c.tool c.cost c.nowMs

/-- Two limiters with one configuration agree on all buckets but that of the
key. -/
def AlikeBut (key : String) (l l' : RateLimiter) : Prop :=
  l.settings = l'.settings ∧ ∀ other, other ≠ key →
    l.backend.buckets.lookup other = l'.backend.buckets.lookup other

variable [PyFloat F] {key : String} {l l' : RateLimiter} {c : AcquireCall}

/-- What the backend does with a call. -/
def consumed (l : RateLimiter) (c : AcquireCall) : (ℤ × ℤ) × InMemoryTokenBucket :=
  l.backend.consume (bucketKey c.tenant c.tool) (l.quotaFor c.tool).capacity
    ((l.quotaFor c.tool).refillPerMinute / 60) c.cost c.nowMs

/-- A call is its backend's answer, as an exception where it is denied. -/
theorem called_eq (l : RateLimiter) (c : AcquireCall) : l.called (F := F) c =
    (if (l.consumed c).1.1 = 0 then
        .error (rateLimitError (PyFloat.ofRat ((l.consumed c).1.2 / 1000)))
      else .ok (), { l with backend := (l.consumed c).2 }) := by
  have hconsume : l.consume c.tenant c.tool c.cost c.nowMs =
      ((l.consumed c).1, { l with backend := (l.consumed c).2 }) := rfl
  simp only [called, acquire, hconsume]
  split <;> rfl

theorem quotaFor_congr (h : l.settings = l'.settings) (tool : String) :
    l.quotaFor tool = l'.quotaFor tool := by
  simp only [quotaFor, h]

/-- A call on the bucket of the key is not noticed elsewhere. -/
theorem AlikeBut.called_left (h : l.AlikeBut key l')
    (hkey : bucketKey c.tenant c.tool = key) : (l.called (F := F) c).2.AlikeBut key l' := by
  rw [called_eq]
  refine ⟨h.1, fun other hne => ?_⟩
  rw [← h.2 other hne]
  exact InMemoryTokenBucket.lookup_consume_other _ (hkey ▸ hne) _ _ _ _

/-- Every other call does the same to both. -/
theorem AlikeBut.called (h : l.AlikeBut key l') :
    (l.called (F := F) c).2.AlikeBut key (l'.called (F := F) c).2 := by
  rw [called_eq, called_eq]
  refine ⟨h.1, fun other hne => ?_⟩
  simp only [consumed, quotaFor_congr h.1]
  by_cases hother : other = bucketKey c.tenant c.tool
  · subst hother
    exact (InMemoryTokenBucket.consume_congr (h.2 _ hne) _ _ _ _).2
  · simp only [InMemoryTokenBucket.lookup_consume_other _ hother]
    exact h.2 other hne

/-- A call on another bucket is answered alike by both. -/
theorem AlikeBut.called_fst (h : l.AlikeBut key l')
    (hkey : bucketKey c.tenant c.tool ≠ key) :
    (l.called (F := F) c).1 = (l'.called (F := F) c).1 := by
  have hanswer : (l.consumed c).1 = (l'.consumed c).1 := by
    simp only [consumed, quotaFor_congr h.1]
    exact (InMemoryTokenBucket.consume_congr (h.2 _ hkey) _ _ _ _).1
  rw [called_eq, called_eq, hanswer]

/-- **Tenants do not share a bucket.**  For any tenants and for tools without
`':'` in their names, deleting all calls of one pair from a run changes no
outcome of a call of another pair. -/
theorem answers_of_others_deleted {t₁ u₁ t₂ u₂ : String} (hu₁ : ':' ∉ u₁.toList)
    (hu₂ : ':' ∉ u₂.toList) (hne : (t₁, u₁) ≠ (t₂, u₂)) (l : RateLimiter)
    (calls : List AcquireCall) :
    (answers (called (F := F)) l calls).filter (fun x => x.1.isFor t₂ u₂) =
      (answers (called (F := F)) l (calls.filter fun c => !c.isFor t₁ u₁)).filter
        fun x => x.1.isFor t₂ u₂ := by
  have halike : l.AlikeBut (bucketKey t₁ u₁) l := ⟨rfl, fun _ _ => rfl⟩
  refine answers_purged ?_ ?_ ?_ halike calls
  · intro l l' c hc h
    obtain ⟨rfl, rfl⟩ := AcquireCall.isFor_iff.mp hc
    exact h.called_left rfl
  · intro l l' c _ h
    exact h.called
  · intro l l' c hc h
    obtain ⟨rfl, rfl⟩ := AcquireCall.isFor_iff.mp hc
    have hother : bucketKey c.tenant c.tool ≠ bucketKey t₁ u₁ := by
      intro hkey
      obtain ⟨htenant, htool⟩ := bucketKey_inj hu₁ hu₂ hkey.symm
      exact hne (Prod.ext htenant htool)
    refine ⟨?_, h.called_fst hother⟩
    rw [← Bool.not_eq_true]
    intro hc
    obtain ⟨htenant, htool⟩ := AcquireCall.isFor_iff.mp hc
    exact hne (Prod.ext htenant.symm htool.symm)

end RateLimiter

/-- One tenant calls until it is denied, and another, whose name begins like a
key of the first, calls once. -/
def burstOfAcme : List AcquireCall :=
  List.replicate 4 { tenant := "acme", tool := "customer.build_context", nowMs := 0 } ++
    [{ tenant := "acme:eu", tool := "customer.build_context", nowMs := 1 }]

/-- The other tenant does not notice. -/
theorem burst_not_noticed :
    ((answers (RateLimiter.called (F := WholeFloat)) ⟨{}, {}⟩ burstOfAcme).map
        fun x => x.2.isOk) = [true, true, true, false, true] ∧
      (answers (RateLimiter.called (F := WholeFloat)) ⟨{}, {}⟩ burstOfAcme).filter
          (fun x => x.1.isFor "acme:eu" "customer.build_context") =
        (answers (RateLimiter.called (F := WholeFloat)) ⟨{}, {}⟩ (burstOfAcme.filter
          fun c => !c.isFor "acme" "customer.build_context")).filter
            fun x => x.1.isFor "acme:eu" "customer.build_context" :=
  ⟨by decide +kernel, RateLimiter.answers_of_others_deleted (by decide) (by decide)
    (by decide) ⟨{}, {}⟩ burstOfAcme⟩

end RateLimit
