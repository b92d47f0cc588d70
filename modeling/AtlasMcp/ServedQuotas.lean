import AtlasMcp.ComponentRuns
import AtlasMcp.DispatchCounts
import AtlasMcp.TenantIsolation

/-!
# The quotas of a server

Only the gates of a dispatch touch the rate limiter (`limiter_step`), and all tenants and
tools share its map of buckets.  A bucket never leaves more than its capacity and its refill
allow: with the calls admitted since any moment, the tokens that are left keep within the
allowance of the time since then (`Room`).

So whatever the dispatches of all tenants do, those of one tenant for one tool that get past
their gates in a window of time keep within their quota (`admitted_within_quota`), as long
as the clock does not go back.
-/

namespace Server

open PyJson PyText Errors Tools Auth Governance RateLimit Reliability Cache FallibleState
open GuardedRuns

variable {F : Type}

section Aside

variable {γ : Type} {g : ServerState F → γ}

/-- A part of the state that the breakers, the latencies and the cache are no
part of. -/
structure Aside (g : ServerState F → γ) : Prop where
  breakers : ∀ s breakers, g { s with breakers } = g s
  tracker : ∀ s tracker, g { s with tracker } = g s
  cache : ∀ s cache, g { s with cache } = g s

namespace Aside

variable {srv : AtlasServer F} {s : ServerState F} {f : Flight F} {now : ℚ}

/-- The breaker of a tool is none of what is set aside here. -/
theorem putBreaker (h : Aside g) (s : ServerState F) (name : String) (b : CircuitBreaker) :
    g (putBreaker s name b) = g s :=
  h.breakers s _

/-- Reading the cache leaves the rest, if what follows a miss does. -/
theorem readCache [PyFloat F] (h : Aside g) {key : String}
    {miss : ServerState F → Progress F × ServerState F}
    (hmiss : ∀ t, g t = g s → g (miss t).2 = g s) :
    g (Server.readCache srv s f key now miss).2 = g s := by
  rcases hread : s.cache.get key now with ⟨exc | v, cache⟩
  · simp only [Server.readCache, hread]
    exact (h.putBreaker _ _ _).trans (h.cache s cache)
  · cases v <;> simp only [Server.readCache, hread]
    case none => exact hmiss _ (h.cache s cache)
    all_goals exact (h.putBreaker _ _ _).trans (h.cache s cache)

theorem runObserved [PyFloat F] (h : Aside g) : g (runObserved srv s f now).2 = g s := by
  unfold Server.runObserved
  split
  · exact h.putBreaker _ _ _
  · apply h.readCache
    intro t ht
    simp only
    split
    · exact (h.putBreaker _ _ _).trans ((h.cache t _).trans ht)
    · exact (h.cache t _).trans ht

theorem settle [PyFloat F] (h : Aside g) (locked : Bool)
    (result : Except (Exc F) (ToolResult F)) : g (settle srv s f locked result now).2 = g s := by
  unfold Server.settle
  split
  · exact h.putBreaker _ _ _
  · exact (h.putBreaker _ _ _).trans (h.cache s _)

theorem afterRun (h : Aside g) (a : Attempt) (outcome : Except (Exc F) (ToolResult F)) :
    g (afterRun srv s f a outcome now).2 = g s := by
  simp only [Server.afterRun]
  split
  · rfl
  · exact h.putBreaker _ _ _

variable [UnicodeDb] {phase : Phase F} {next : Progress F × ServerState F}

theorem afterSleep [PyFloat F] (h : Aside g)
    (hnext : Server.afterSleep srv s f now phase = some next) : g next.2 = g s := by
  cases phase with
  | running a => simp [Server.afterSleep] at hnext
  | backoff a =>
      obtain rfl := Option.some.inj hnext
      rfl
  | starting c =>
      obtain rfl := Option.some.inj hnext
      obtain ⟨admission, b, -, ⟨-, hstart⟩ | ⟨admitted, -, ⟨-, -, hstart⟩ | hstart⟩⟩ :=
        startCall_cases srv s f c now <;> rw [hstart]
      · exact h.putBreaker _ _ _
      · exact (h.putBreaker _ _ _).trans (h.putBreaker _ _ _)
      · exact h.putBreaker _ _ _
  | ending c result =>
      obtain rfl := Option.some.inj hnext
      exact (h.settle c.locked result).trans (h.tracker s _)
  | polling waits =>
      obtain ⟨key, -, rfl⟩ := Option.map_eq_some_iff.mp hnext
      apply h.readCache
      intro t ht
      split
      · exact ht
      · exact (h.putBreaker _ _ _).trans ht

theorem afterInterrupt (h : Aside g) {timedOut : Bool}
    (hnext : Server.afterInterrupt srv s f timedOut now phase = some next) : g next.2 = g s := by
  cases phase with
  | ending c result => simp [Server.afterInterrupt] at hnext
  | polling waits =>
      obtain rfl := eq_of_afterInterrupt_polling hnext
      exact h.putBreaker _ _ _
  | starting c =>
      obtain rfl := Option.some.inj hnext
      rfl
  | running a =>
      obtain rfl := Option.some.inj hnext
      exact h.putBreaker _ _ _
  | backoff a =>
      obtain rfl := Option.some.inj hnext
      exact h.putBreaker _ _ _

end Aside

end Aside

/-! ## What moves the limiter -/

section Limiter

variable [PyFloat F] [UnicodeDb]

/-- The gates have not asked the limiter and stopped the call, or they have
asked it about the call of the tool, and let it through only if it was
admitted. -/
def AskedLimiter (srv : AtlasServer F) (env : ToolCallEnvelope F) (clock : Clock)
    (s : ServerState F) (x : Except (Exc F) (Tool F × BaseModel F) × ServerState F) : Prop :=
  (x.2.rateLimiter = s.rateLimiter ∧ ∃ exc, x.1 = .error exc) ∨
  ∃ tool, srv.registry.get env.tool = .ok tool ∧
    x.2.rateLimiter =
      (s.rateLimiter.consume env.tenant tool.metadata.name 1 clock.wallMs).2 ∧
    ∀ y, x.1 = .ok y → y.1 = tool ∧
      s.rateLimiter.Admits env.tenant tool.metadata.name 1 clock.wallMs

omit [UnicodeDb] in
/-- With rate limiting on, a call is a call of the limiter. -/
theorem run_acquireToken {srv : AtlasServer F} (hrate : srv.settings.rateLimitEnabled = true)
    (tenant tool : String) (wallMs : ℤ) (s : ServerState F) :
    (acquireToken srv tenant tool wallMs).run s =
      (liftTool (s.rateLimiter.acquire (F := F) tenant tool 1 wallMs).1,
        { s with rateLimiter := (s.rateLimiter.consume tenant tool 1 wallMs).2 }) := by
  have hlimiter : (s.rateLimiter.acquire (F := F) tenant tool 1 wallMs).2 =
      (s.rateLimiter.consume tenant tool 1 wallMs).2 := by
    simp only [RateLimiter.acquire]
    split <;> rfl
  rw [acquireToken, if_pos hrate, Fallible.run_ofUpdate, ← hlimiter]

/-- The approval gate leaves the limiter alone. -/
theorem limiter_enforceApproval (srv : AtlasServer F) (env : ToolCallEnvelope F)
    (tool : Tool F) (clock : Clock) (s : ServerState F) :
    ((enforceApproval srv env tool clock).run s).2.rateLimiter = s.rateLimiter := by
  unfold enforceApproval
  split <;> rfl

/-- What passes the gates was asked of the limiter, with the quota of its
tenant and its tool. -/
theorem askedLimiter_of_gates (srv : AtlasServer F) (ctx : RequestContext)
    (env : ToolCallEnvelope F) (clock : Clock) (s : ServerState F)
    (hrate : srv.settings.rateLimitEnabled = true) :
    AskedLimiter srv env clock s ((gates srv ctx env clock).run s) := by
  have hstopped : ∀ exc, AskedLimiter srv env clock s (.error exc, s) :=
    fun exc => Or.inl ⟨rfl, exc, rfl⟩
  unfold gates
  apply Fallible.run_bind_ofExcept_of hstopped
  intro tool htool
  apply Fallible.run_bind_ofExcept_of hstopped
  intro args _
  apply Fallible.run_bind_ofExcept_of hstopped
  intro _ _
  apply Fallible.run_bind_ofExcept_of hstopped
  intro _ _
  apply Fallible.run_bind_ofExcept_of hstopped
  intro _ _
  have hregistered : srv.registry.get env.tool = .ok tool := liftTool_ok.mp htool
  rw [Fallible.run_bind, run_acquireToken hrate]
  cases hacquired : liftTool
      (s.rateLimiter.acquire (F := F) env.tenant tool.metadata.name 1 clock.wallMs).1 with
  | error exc => exact Or.inr ⟨tool, hregistered, rfl, by simp⟩
  | ok u =>
      have hadmits := RateLimiter.admits_of_acquire (liftTool_ok.mp hacquired)
      simp only [Fallible.run_bind]
      rcases happroval : (enforceApproval srv env tool clock).run
        { s with rateLimiter :=
          (s.rateLimiter.consume env.tenant tool.metadata.name 1 clock.wallMs).2 } with ⟨r, t⟩
      have hkept := congrArg (fun x => x.2.rateLimiter) happroval
      rw [limiter_enforceApproval] at hkept
      cases r with
      | error exc => exact Or.inr ⟨tool, hregistered, hkept.symm, by simp⟩
      | ok u =>
          refine Or.inr ⟨tool, hregistered, hkept.symm, fun y hy => ?_⟩
          obtain rfl := Except.ok.inj hy
          exact ⟨rfl, hadmits⟩

namespace System

variable {srv : AtlasServer F} {t u : System F} {e : Event F}

/-- Only a dispatch that arrives asks the limiter. -/
theorem limiter_step (h : t.Step srv e u) :
    (∃ ctx env clock, e = .dispatch ctx env clock ∧
      u.server.rateLimiter = ((gates srv ctx env clock).run t.server).2.rateLimiter) ∨
    (∀ ctx env clock, e ≠ .dispatch ctx env clock) ∧
      u.server.rateLimiter = t.server.rateLimiter := by
  have haside : Aside (F := F) ServerState.rateLimiter :=
    ⟨fun _ _ => rfl, fun _ _ => rfl, fun _ _ => rfl⟩
  cases e with
  | dispatch ctx env clock =>
      obtain rfl : t.arrive srv ctx env clock = u := Option.some.inj h
      refine Or.inl ⟨ctx, env, clock, rfl, ?_⟩
      rcases hgates : (gates srv ctx env clock).run t.server with ⟨exc | ⟨tool, args⟩, s⟩
      · simp only [arrive, hgates]
      · simp only [arrive, hgates, server_advance]
        exact haside.runObserved
  | ran i outcome now =>
      obtain ⟨f, a, hi, rfl⟩ := step_ran h
      refine Or.inr ⟨by simp, ?_⟩
      unfold toolEnded
      rw [server_advance]
      exact haside.afterRun a outcome
  | woke i now =>
      obtain ⟨f, phase, next, hi, hnext, rfl⟩ := step_woke h
      refine Or.inr ⟨by simp, ?_⟩
      rw [server_advance]
      exact haside.afterSleep hnext
  | interrupt i timedOut now =>
      obtain ⟨f, phase, next, hi, hnext, rfl⟩ := step_interrupt h
      refine Or.inr ⟨by simp, ?_⟩
      rw [server_advance]
      exact haside.afterInterrupt hnext
  | invalidateKey key | invalidateTool tenant tool | invalidateTenant tenant
  | judge approvalId verdict approver now =>
      obtain rfl := Option.some.inj h
      exact Or.inr ⟨by simp, rfl⟩

end System

end Limiter

/-! ## What a bucket allows -/

/-- What the quota allows from one moment to another, in milliseconds. -/
def allowance (quota : Quota) (since now : ℤ) : ℚ :=
  max 0 (quota.capacity : ℚ) +
    max 0 ((quota.refillPerMinute : ℚ) / 60) * (max 0 ((now : ℚ) - since) / 1000)

theorem allowance_nonneg (quota : Quota) (since now : ℤ) : 0 ≤ allowance quota since now := by
  unfold allowance
  positivity

/-- Later it allows no less. -/
theorem allowance_le {quota : Quota} {since now later : ℤ} (h : now ≤ later) :
    allowance quota since now ≤ allowance quota since later := by
  have hcast : (now : ℚ) ≤ later := by exact_mod_cast h
  unfold allowance
  gcongr

/-- A bucket whose record is this has admitted `n` calls since the moment, and
leaves no more than what was allowed since then. -/
def Room (quota : Quota) (since : ℤ) (n : ℕ) : Option (ℚ × ℤ) → Prop
  | none => n = 0
  | some (tokens, lastMs) =>
      (lastMs < since → n = 0) ∧ (n : ℚ) + tokens ≤ allowance quota since lastMs

section Bucket

variable {quota : Quota} {since nowMs : ℤ} {n : ℕ} {b : InMemoryTokenBucket} {key : String}

/-- The tokens that a call finds are allowed too. -/
theorem Room.refilled (h : Room quota since n (b.buckets.lookup key))
    (hclock : ∀ x ∈ b.buckets.lookup key, x.2 ≤ nowMs) :
    (n : ℚ) + b.refilled key quota.capacity (quota.refillPerMinute / 60) nowMs ≤
      allowance quota since nowMs := by
  have hcapacity : ((quota.capacity : ℤ) : ℚ) ≤ max 0 (quota.capacity : ℚ) := le_max_right _ _
  have hrate : 0 ≤ max 0 ((quota.refillPerMinute : ℚ) / 60) := le_max_left _ _
  have hfull : (quota.capacity : ℚ) ≤ allowance quota since nowMs := by
    have hrefill : 0 ≤ max 0 ((quota.refillPerMinute : ℚ) / 60) *
        (max 0 ((nowMs : ℚ) - since) / 1000) := by positivity
    unfold allowance
    linarith
  cases hrecord : b.buckets.lookup key with
  | none =>
      rw [hrecord] at h
      obtain rfl : n = 0 := h
      rw [InMemoryTokenBucket.refilled_of_fresh hrecord]
      simpa using hfull
  | some x =>
      obtain ⟨tokens, lastMs⟩ := x
      rw [hrecord] at h hclock
      obtain ⟨hnone, hroom⟩ := h
      have hle : lastMs ≤ nowMs := hclock _ rfl
      have hcast : (lastMs : ℚ) ≤ nowMs := by exact_mod_cast hle
      simp only [InMemoryTokenBucket.refilled, hrecord, Option.getD_some,
        InMemoryTokenBucket.elapsedS_of_le hle]
      by_cases hearly : lastMs < since
      · -- nothing has been admitted since, and the bucket holds no more than it can
        obtain rfl := hnone hearly
        have hmin := min_le_left (quota.capacity : ℚ)
          (tokens + (nowMs - lastMs : ℚ) / 1000 * (quota.refillPerMinute / 60))
        push_cast
        linarith
      · have hsince : (since : ℚ) ≤ lastMs := by exact_mod_cast not_lt.mp hearly
        have hmin := min_le_right (quota.capacity : ℚ)
          (tokens + (nowMs - lastMs : ℚ) / 1000 * (quota.refillPerMinute / 60))
        have hgain : (nowMs - lastMs : ℚ) / 1000 * ((quota.refillPerMinute : ℚ) / 60) ≤
            max 0 ((quota.refillPerMinute : ℚ) / 60) * ((nowMs - lastMs : ℚ) / 1000) := by
          rw [mul_comm]
          have helapsed : (0 : ℚ) ≤ (nowMs - lastMs : ℚ) / 1000 := by
            apply div_nonneg <;> linarith
          exact mul_le_mul_of_nonneg_right (le_max_right _ _) helapsed
        unfold allowance at hroom ⊢
        rw [max_eq_right (by linarith : (0 : ℚ) ≤ lastMs - since)] at hroom
        rw [max_eq_right (by linarith : (0 : ℚ) ≤ nowMs - since)]
        have hsplit : max 0 ((quota.refillPerMinute : ℚ) / 60) * (((nowMs : ℚ) - since) / 1000) =
            max 0 ((quota.refillPerMinute : ℚ) / 60) * (((lastMs : ℚ) - since) / 1000) +
              max 0 ((quota.refillPerMinute : ℚ) / 60) * ((nowMs - lastMs : ℚ) / 1000) := by
          ring
        linarith

/-- What a call of cost one leaves: room for those admitted before, and for
this one if it was admitted and counts. -/
theorem Room.consumed {k : ℕ} (h : Room quota since n (b.buckets.lookup key))
    (hclock : ∀ x ∈ b.buckets.lookup key, x.2 ≤ nowMs)
    (hadmitted : 0 < k → k = 1 ∧ since ≤ nowMs ∧
      (b.consume key quota.capacity (quota.refillPerMinute / 60) 1 nowMs).1.1 = 1) :
    Room quota since (n + k)
        ((b.consume key quota.capacity (quota.refillPerMinute / 60) 1 nowMs).2.buckets.lookup
          key) ∧
      (0 < k → ((n + k : ℕ) : ℚ) ≤ allowance quota since nowMs) := by
  have hfound := h.refilled hclock
  rw [InMemoryTokenBucket.lookup_consume]
  refine ⟨⟨fun hearly => ?_, ?_⟩, fun hk => ?_⟩
  · have hk : k = 0 := by
      by_contra hk
      exact absurd (hadmitted (Nat.pos_of_ne_zero hk)).2.1 (not_le.mpr hearly)
    subst hk
    cases hrecord : b.buckets.lookup key with
    | none => rw [hrecord] at h; exact h
    | some x =>
        rw [hrecord] at h hclock
        exact h.1 (lt_of_le_of_lt (hclock x rfl) hearly)
  · rcases Nat.eq_zero_or_pos k with rfl | hk
    · have htaken : (0 : ℤ) ≤ if (b.consume key quota.capacity
          (quota.refillPerMinute / 60) 1 nowMs).1.1 = 1 then 1 else 0 := by
        split <;> omega
      have hcast : (0 : ℚ) ≤ ((if (b.consume key quota.capacity
          (quota.refillPerMinute / 60) 1 nowMs).1.1 = 1 then 1 else 0 : ℤ) : ℚ) := by
        exact_mod_cast htaken
      push_cast at hcast ⊢
      linarith
    · obtain ⟨rfl, -, hone⟩ := hadmitted hk
      simp only [hone, if_true]
      push_cast
      linarith
  · obtain ⟨rfl, -, hone⟩ := hadmitted hk
    have hcovered := (InMemoryTokenBucket.consume_allowed_iff _ _ _ _ _ _).mp hone
    push_cast at hcovered ⊢
    linarith

end Bucket

/-! ## The calls admitted in a run -/

/-- The reading of the wall clock that the limiter makes for an event. -/
def Event.wallMs? : Event F → Option ℤ
  | .dispatch _ _ clock => some clock.wallMs
  | _ => none

/-- The dispatch is one of the tenant for the tool, and arrived at the moment
or later. -/
def Flight.isSince (tenant name : String) (since : ℤ) (f : Flight F) : Bool :=
  f.envelope.tenant == tenant && f.tool.metadata.name == name && decide (since ≤ f.clock.wallMs)

namespace Ledger

/-- How many dispatches of the tenant for the tool have passed their gates
since. -/
def admittedSince (tenant name : String) (since : ℤ) (l : Ledger F) : ℕ :=
  (l.dispatches.map Prod.fst).countP (Flight.isSince tenant name since)

variable [PyFloat F] [UnicodeDb] {srv : AtlasServer F} {l l' : Ledger F} {e : Event F}
  {P : Flight F → ℕ → Progress F → Prop}

/-- An event adds the dispatch that arrives with it and passes its gates, and
no other. -/
theorem flights_step (hl : l.Holds P) (h : l.Step srv e l') :
    (∃ f s, Arrives srv l.system.server e f s ∧
      (l'.dispatches.map Prod.fst).Perm (f :: l.dispatches.map Prod.fst)) ∨
    (l'.dispatches.map Prod.fst).Perm (l.dispatches.map Prod.fst) := by
  obtain ⟨hstep, ⟨hnone, hl'⟩ | ⟨m, hm, hl'⟩⟩ := step_cases h
  · right
    rw [hl']
    exact List.Perm.refl _
  · have hafter := (dispatches_record l l'.system m).map Prod.fst
    rw [← hl'] at hafter
    rcases System.moved_cases hm with ⟨hplace, s, harrives, -⟩ | ⟨i, phase, hplace, hi, -⟩
    · left
      refine ⟨m.flight, s, harrives, hafter.trans ?_⟩
      simp [dispatches, hplace, leftBy]
    · right
      refine hafter.trans ?_
      obtain ⟨n, hn⟩ := hl.counted hi
      obtain ⟨hlt, hget⟩ := List.getElem?_eq_some_iff.mp hn
      have hperm := (List.getElem_cons_eraseIdx_perm hlt).map Waiting.flight
      rw [hget] at hperm
      simp only [dispatches, hplace, leftBy, List.map_cons, List.map_append, List.map_map]
      exact hperm.append_right _

end Ledger

section Quotas

variable [PyFloat F] [UnicodeDb] {srv : AtlasServer F} {tenant name : String} {since : ℤ}

/-- What all events keep of the limiter, for a tenant and a tool. -/
structure WithinQuota (srv : AtlasServer F) (tenant name : String) (since : ℤ)
    (x : Ledger F × ℤ) : Prop where
  faithful : x.1.Holds fun _ _ _ => True
  settings : x.1.system.server.rateLimiter.settings = srv.settings
  clock : ∀ key, ∀ y ∈ x.1.system.server.rateLimiter.backend.buckets.lookup key, y.2 ≤ x.2
  room : Room (srv.initial.rateLimiter.quotaFor name) since
    (x.1.admittedSince tenant name since)
    (x.1.system.server.rateLimiter.backend.buckets.lookup (bucketKey tenant name))
  within : ((x.1.admittedSince tenant name since : ℕ) : ℚ) ≤
    allowance (srv.initial.rateLimiter.quotaFor name) since x.2

omit [PyFloat F] [UnicodeDb] in
/-- At the start nothing was admitted, so every quota is kept. -/
theorem withinQuota_start (srv : AtlasServer F) (tenant name : String) (since wallMs : ℤ) :
    WithinQuota srv tenant name since (Ledger.ofState srv.initial, wallMs) where
  faithful := Ledger.holds_ofState _
  settings := rfl
  clock := by simp [Ledger.ofState, AtlasServer.initial]
  room := rfl
  within := by
    simpa [Ledger.admittedSince, Ledger.dispatches, Ledger.ofState] using allowance_nonneg _ _ _

/-- What a dispatch that arrives does to a limiter: nothing, or a call for its
tool. -/
theorem called_of_dispatch {t u : System F} {ctx : RequestContext} {env : ToolCallEnvelope F}
    {clock : Clock} (hrate : srv.settings.rateLimitEnabled = true)
    (h : t.Step srv (.dispatch ctx env clock) u) :
    (u.server.rateLimiter = t.server.rateLimiter ∧
      ∀ f s, ¬ Arrives srv t.server (.dispatch ctx env clock) f s) ∨
    ∃ tool, srv.registry.get env.tool = .ok tool ∧
      u.server.rateLimiter =
        (t.server.rateLimiter.consume env.tenant tool.metadata.name 1 clock.wallMs).2 ∧
      ∀ f s, Arrives srv t.server (.dispatch ctx env clock) f s →
        f.envelope = env ∧ f.tool = tool ∧ f.clock = clock ∧
        t.server.rateLimiter.Admits env.tenant tool.metadata.name 1 clock.wallMs := by
  have hgates := askedLimiter_of_gates srv ctx env clock t.server hrate
  have hlimiter : u.server.rateLimiter =
      ((gates srv ctx env clock).run t.server).2.rateLimiter := by
    rcases System.limiter_step h with ⟨ctx', env', clock', heq, hu⟩ | ⟨hother, -⟩
    · obtain ⟨rfl, rfl, rfl⟩ := Event.dispatch.inj heq
      exact hu
    · exact absurd rfl (hother ctx env clock)
  rcases hgates with ⟨hsame, exc, hexc⟩ | ⟨tool, htool, hcalled, hadmits⟩
  · refine Or.inl ⟨hlimiter.trans hsame, fun f s harrives => ?_⟩
    obtain ⟨ctx', env', clock', tool, args, heq, hok, -⟩ := harrives
    obtain ⟨rfl, rfl, rfl⟩ := Event.dispatch.inj heq
    rw [hok] at hexc
    cases hexc
  · refine Or.inr ⟨tool, htool, hlimiter.trans hcalled, fun f s harrives => ?_⟩
    obtain ⟨ctx', env', clock', tool', args, heq, hok, rfl⟩ := harrives
    obtain ⟨rfl, rfl, rfl⟩ := Event.dispatch.inj heq
    obtain ⟨rfl, hadmitted⟩ := hadmits _ (congrArg Prod.fst hok)
    exact ⟨rfl, rfl, rfl, hadmitted⟩

/-- An event adds to the count a call of the pair that the limiter has
admitted, or nothing. -/
theorem admittedSince_step {x y : Ledger F} {e : Event F} {P : Flight F → ℕ → Progress F → Prop}
    (hx : x.Holds P) (h : x.Step srv e y) :
    ∃ k, y.admittedSince tenant name since = x.admittedSince tenant name since + k ∧
      (0 < k → k = 1 ∧ ∃ f s, Arrives srv x.system.server e f s ∧
        f.isSince tenant name since = true) := by
  rcases Ledger.flights_step hx h with ⟨f, s, harrives, hperm⟩ | hperm
  · refine ⟨if f.isSince tenant name since then 1 else 0, ?_, fun hk => ?_⟩
    · rw [Ledger.admittedSince, hperm.countP_eq, List.countP_cons]
      rfl
    · split at hk
      next hcounts => exact ⟨if_pos hcounts, f, s, harrives, hcounts⟩
      next => omega
  · exact ⟨0, hperm.countP_eq _, by omega⟩

omit [PyFloat F] [UnicodeDb] in
/-- A call of the limiter, for this pair or for another, keeps within the
quota. -/
theorem WithinQuota.called {x y : Ledger F × ℤ} {tenant' name' : String} {k : ℕ}
    (hx : WithinQuota srv tenant name since x) (hfaithful : y.1.Holds fun _ _ _ => True)
    (hlimiter : y.1.system.server.rateLimiter =
      (x.1.system.server.rateLimiter.consume tenant' name' 1 y.2).2)
    (hle : x.2 ≤ y.2) (hname : ':' ∉ name.toList) (hname' : ':' ∉ name'.toList)
    (hcount : y.1.admittedSince tenant name since = x.1.admittedSince tenant name since + k)
    (hadded : 0 < k → k = 1 ∧ tenant' = tenant ∧ name' = name ∧ since ≤ y.2 ∧
      x.1.system.server.rateLimiter.Admits tenant' name' 1 y.2) :
    WithinQuota srv tenant name since y := by
  have hbackend : y.1.system.server.rateLimiter.backend =
      (x.1.system.server.rateLimiter.backend.consume (bucketKey tenant' name')
        (srv.initial.rateLimiter.quotaFor name').capacity
        ((srv.initial.rateLimiter.quotaFor name').refillPerMinute / 60) 1 y.2).2 := by
    rw [← RateLimiter.quotaFor_congr hx.settings, hlimiter]
    rfl
  have hsettings : y.1.system.server.rateLimiter.settings = srv.settings := by
    rw [hlimiter]
    exact hx.settings
  have hearlier : ∀ key, ∀ z ∈ x.1.system.server.rateLimiter.backend.buckets.lookup key,
      z.2 ≤ y.2 := fun key z hz => (hx.clock key z hz).trans hle
  have hclock : ∀ key, ∀ z ∈ y.1.system.server.rateLimiter.backend.buckets.lookup key,
      z.2 ≤ y.2 := by
    intro key z hz
    rw [hbackend] at hz
    by_cases hkey : key = bucketKey tenant' name'
    · rw [hkey, InMemoryTokenBucket.lookup_consume] at hz
      obtain rfl := Option.some.inj hz
      exact le_refl _
    · rw [InMemoryTokenBucket.lookup_consume_other _ hkey] at hz
      exact hearlier key z hz
  by_cases hkey : bucketKey tenant name = bucketKey tenant' name'
  · obtain ⟨rfl, rfl⟩ := bucketKey_inj hname hname' hkey
    obtain ⟨hroom, hwithin⟩ := hx.room.consumed (k := k) (hearlier _) fun hk => by
      obtain ⟨hone, -, -, hsince, hadmits⟩ := hadded hk
      rw [← RateLimiter.quotaFor_congr hx.settings]
      exact ⟨hone, hsince, hadmits⟩
    refine ⟨hfaithful, hsettings, hclock, ?_, ?_⟩
    · rw [hcount, hbackend]
      exact hroom
    · rw [hcount]
      rcases Nat.eq_zero_or_pos k with rfl | hk
      · exact hx.within.trans (allowance_le hle)
      · exact hwithin hk
  · have hnone : k = 0 := by
      by_contra hk
      obtain ⟨-, rfl, rfl, -⟩ := hadded (Nat.pos_of_ne_zero hk)
      exact hkey rfl
    rw [hnone, Nat.add_zero] at hcount
    refine ⟨hfaithful, hsettings, hclock, ?_, ?_⟩
    · rw [hcount, hbackend, InMemoryTokenBucket.lookup_consume_other _ hkey]
      exact hx.room
    · rw [hcount]
      exact hx.within.trans (allowance_le hle)

/-- **A step keeps within the quota.** -/
theorem WithinQuota.step {x y : Ledger F × ℤ} {e : Event F}
    (hrate : srv.settings.rateLimitEnabled = true)
    (hnames : ∀ key tool, srv.registry.get key = .ok tool → ':' ∉ tool.metadata.name.toList)
    (hname : ':' ∉ name.toList) (hx : WithinQuota srv tenant name since x)
    (h : Clocked (Ledger.Step srv) Event.wallMs? x e y) :
    WithinQuota srv tenant name since y := by
  obtain ⟨hstep, hle, hclock⟩ := h
  have hsystem := (Ledger.step_cases hstep).1
  have hfaithful := hx.faithful.step hstep (fun _ _ _ => trivial) fun _ _ _ _ _ _ _ => trivial
  obtain ⟨k, hcount, hadded⟩ : ∃ k, y.1.admittedSince tenant name since =
      x.1.admittedSince tenant name since + k ∧
        (0 < k → k = 1 ∧ ∃ f s, Arrives srv x.1.system.server e f s ∧
          f.isSince tenant name since = true) :=
    admittedSince_step hx.faithful hstep
  -- an event that does not ask the limiter adds nothing
  have hidle : y.1.system.server.rateLimiter = x.1.system.server.rateLimiter → k = 0 →
      WithinQuota srv tenant name since y := by
    intro hsame hk
    rw [hk, Nat.add_zero] at hcount
    refine ⟨hfaithful, hsame ▸ hx.settings, fun key z hz => ?_, ?_, ?_⟩
    · rw [hsame] at hz
      exact (hx.clock key z hz).trans hle
    · rw [hsame, hcount]
      exact hx.room
    · rw [hcount]
      exact hx.within.trans (allowance_le hle)
  by_cases hdispatch : ∃ ctx env clock, e = .dispatch ctx env clock
  · obtain ⟨ctx, env, clock, rfl⟩ := hdispatch
    have hnow : y.2 = clock.wallMs := hclock
    rcases called_of_dispatch hrate hsystem with ⟨hsame, hnone⟩ | ⟨tool, htool, hcalled, hadmits⟩
    · apply hidle hsame
      by_contra hk
      obtain ⟨-, f, s, harrives, -⟩ := hadded (Nat.pos_of_ne_zero hk)
      exact hnone f s harrives
    · rw [← hnow] at hcalled hadmits
      refine hx.called hfaithful hcalled hle hname (hnames _ _ htool) hcount fun hk => ?_
      obtain ⟨hone, f, s, harrives, hcounts⟩ := hadded hk
      obtain ⟨rfl, rfl, rfl, hadmitted⟩ := hadmits f s harrives
      obtain ⟨⟨rfl, rfl⟩, hsince⟩ : (f.envelope.tenant = tenant ∧
          f.tool.metadata.name = name) ∧ since ≤ f.clock.wallMs := by
        simpa [Flight.isSince] using hcounts
      exact ⟨hone, rfl, rfl, hnow ▸ hsince, hadmitted⟩
  · have hother : ∀ ctx env clock, e ≠ .dispatch ctx env clock :=
      fun ctx env clock heq => hdispatch ⟨ctx, env, clock, heq⟩
    apply hidle
    · rcases System.limiter_step hsystem with ⟨ctx, env, clock, heq, -⟩ | ⟨-, hsame⟩
      · exact absurd heq (hother ctx env clock)
      · exact hsame
    · by_contra hk
      obtain ⟨-, f, s, ⟨ctx, env, clock, tool, args, heq, -⟩, -⟩ :=
        hadded (Nat.pos_of_ne_zero hk)
      exact hother ctx env clock heq

/-- **Nobody gets past its quota.**  In every run of a new server with rate
limiting on, with dispatches of all tenants for all tools, in any order and
however they go on: the dispatches of a tenant for a tool that have passed
their gates since any moment are no more than the quota of the tool allows
from then to now. -/
theorem admitted_within_quota (hrate : srv.settings.rateLimitEnabled = true)
    (hnames : ∀ key tool, srv.registry.get key = .ok tool → ':' ∉ tool.metadata.name.toList)
    (hname : ':' ∉ name.toList) {wallMs : ℤ} {events : List (Event F)} {t : Ledger F × ℤ}
    (hrun : Run (Clocked (Ledger.Step srv) Event.wallMs?) (Ledger.ofState srv.initial, wallMs)
      events t) (tenant : String) (since : ℤ) :
    ((t.1.admittedSince tenant name since : ℕ) : ℚ) ≤
      allowance (srv.initial.rateLimiter.quotaFor name) since t.2 :=
  (hrun.invariant (withinQuota_start srv tenant name since wallMs)
    fun _ _ _ hx hstep => hx.step hrate hnames hname hstep).within

end Quotas

/-- A server that lets nobody ping it twice at once. -/
def strictServer : AtlasServer WholeFloat := { pingServer with settings := { rateLimitBurst := 1 } }

/-- Two pings at once, and one a second later. -/
def pingedThrice : List (Event WholeFloat) :=
  [0, 0, 1000].map fun wallMs =>
    .dispatch pingContext (pingContext.buildEnvelope "server.ping" []) ⟨0, wallMs, ""⟩

/-- A run of three pings of which the quota admits two. -/
theorem pings_within_quota : ∃ t,
    Run (Clocked (Ledger.Step strictServer) Event.wallMs?)
      (Ledger.ofState strictServer.initial, 0) pingedThrice t ∧
    t.1.admittedSince "acme" "server.ping" 0 = 2 ∧
    ((t.1.admittedSince "acme" "server.ping" 0 : ℕ) : ℚ) ≤
      allowance (strictServer.initial.rateLimiter.quotaFor "server.ping") 0 t.2 := by
  obtain ⟨t, ht, hadmitted⟩ : ∃ t ∈ exec (clockedStep (Ledger.step strictServer) Event.wallMs?)
      (Ledger.ofState strictServer.initial, 0) pingedThrice,
      t.1.admittedSince "acme" "server.ping" 0 = 2 := by decide +kernel
  have hnames : ∀ key tool, strictServer.registry.get key = .ok tool →
      ':' ∉ tool.metadata.name.toList := by
    intro key tool hget
    obtain ⟨hlookup, hnamed⟩ := ToolRegistry.lookup_of_get hget
    have hkeys : strictServer.registry.tools.keys = ["server.ping"] := by decide +kernel
    rw [hnamed, ToolRegistry.eq_of_lookup_single _ hkeys hlookup]
    decide
  have hrun := Run.of_exec_clocked ht
  exact ⟨t, hrun, hadmitted, admitted_within_quota (by decide) hnames (by decide) hrun "acme" 0⟩

end Server
