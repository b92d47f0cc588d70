import AtlasMcp.TokenBucket
import AtlasMcp.ErrorFramework
import AtlasMcp.ServerSettings

/-!
# The rate limiter

`RateLimiter.acquire` takes a token from the bucket of a tenant and a tool; a few
tools have a quota of their own.
-/

namespace RateLimit

open PyJson Errors

variable {F : Type}

/-- What a tool is granted: how many calls at once, and how many come back in
a minute. -/
structure Quota where
  capacity : ℤ
  refillPerMinute : ℤ

/-- The limiter, with the settings that its quotas come from. -/
structure RateLimiter where
  settings : ServerSettings
  backend : InMemoryTokenBucket := {}

namespace RateLimiter

/-- The tools whose quotas are not the default one. -/
def overrides : List (String × Quota) :=
  [("customer.build_context", ⟨3, 10⟩), ("semantic_search", ⟨30, 120⟩),
    ("hybrid_search", ⟨30, 120⟩)]

/-- The quota of a tool, which is that of every tenant. -/
def quotaFor (l : RateLimiter) (tool : String) : Quota :=
  (dictGet overrides tool).getD
    ⟨l.settings.rateLimitBurst, l.settings.rateLimitDefaultRpm⟩

/-- The backend's answer to a call, and the limiter after it. -/
def consume (l : RateLimiter) (tenant tool : String) (cost nowMs : ℤ) :
    (ℤ × ℤ) × RateLimiter :=
  let quota := l.quotaFor tool
  let (answer, backend) := l.backend.consume ("atlas:rl:" ++ tenant ++ ":" ++ tool)
    quota.capacity (quota.refillPerMinute / 60) cost nowMs
  (answer, { l with backend })

/-- `RateLimiter.acquire`: the bucket is asked, and where it refuses, the
error says how long to wait. -/
def acquire [PyFloat F] (l : RateLimiter) (tenant tool : String) (cost nowMs : ℤ) :
    Except (ToolError F) Unit × RateLimiter :=
  let ((allowed, retryAfterMs), l) := l.consume tenant tool cost nowMs
  if allowed = 0 then
    (.error (rateLimitError (PyFloat.ofRat (retryAfterMs / 1000))), l)
  else (.ok (), l)

/-- The limiter admits the call: the bucket of the tenant and the tool has
tokens enough for it. -/
def Admits (l : RateLimiter) (tenant tool : String) (cost nowMs : ℤ) : Prop :=
  (l.consume tenant tool cost nowMs).1.1 = 1

theorem admits_of_acquire [PyFloat F] {l : RateLimiter} {tenant tool : String}
    {cost nowMs : ℤ}
    (h : (l.acquire (F := F) tenant tool cost nowMs).1 = .ok ()) :
    l.Admits tenant tool cost nowMs := by
  by_contra hnot
  have hzero : (l.consume tenant tool cost nowMs).1.1 = 0 := by
    simp only [Admits, consume, InMemoryTokenBucket.consume] at hnot ⊢
    split at hnot
    · exact absurd rfl hnot
    · simp [*]
  simp [acquire, hzero] at h

end RateLimiter

end RateLimit
