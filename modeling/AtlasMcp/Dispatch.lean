import AtlasMcp.ApprovalGate
import AtlasMcp.CacheTiers
import AtlasMcp.CircuitBreaker
import AtlasMcp.FallibleState
import AtlasMcp.LatencyTracker
import AtlasMcp.RateLimiter

/-!
# The gates of the dispatch pipeline

`AtlasServer.dispatch` looks the tool up, validates the arguments, checks scopes,
policy and allowlist, takes a token of the rate limit, and asks the approval gate; only
then does it go on to run the call.  None of this suspends.

A server is split into what dispatch only reads (`AtlasServer`) and what it writes
(`ServerState`).
-/

namespace Server

open PyJson PyText Errors Tools Auth Governance RateLimit Reliability Cache FallibleState

variable {F : Type}

/-- Who calls, for which tenant, with which scopes, and on whose behalf.  The
transports make one of each request. -/
structure RequestContext where
  subject : String
  tenant : String
  scopes : List String := []
  delegator : Option String := none
  traceId : Option String := none

/-- What a caller asks for, with the tenant and the caller as the context has
them. -/
structure ToolCallEnvelope (F : Type) where
  tool : String
  arguments : List (String × Value F)
  tenant : String
  caller : String
  traceId : Option String := none
  delegator : Option String := none

namespace RequestContext

/-- `RequestContext.has_scope`: the scope itself, or that of an administrator
for the scopes of tools. -/
def hasScope (ctx : RequestContext) (required : String) : Bool :=
  required ∈ ctx.scopes || (startsWith required "tool:" && "tool:*:admin" ∈ ctx.scopes)

/-- `RequestContext.build_envelope`. -/
def buildEnvelope (ctx : RequestContext) (tool : String)
    (arguments : List (String × Value F)) : ToolCallEnvelope F where
  tool
  arguments
  tenant := ctx.tenant
  caller := ctx.subject
  traceId := ctx.traceId
  delegator := ctx.delegator

end RequestContext

/-- The server, with what it was configured with.  What changes while it serves
is in the `ServerState`. -/
structure AtlasServer (F : Type) where
  settings : ServerSettings
  registry : ToolRegistry F
  policy : PolicyEngine
  httpAllowlist : HttpAllowlist

/-- What changes while the server serves: `breakers` holds the circuit breakers
by tool, `tracker` the latencies. -/
structure ServerState (F : Type) where
  breakers : AList (fun _ : String => CircuitBreaker) := ∅
  tracker : LatencyTracker := {}
  rateLimiter : RateLimiter
  cache : CacheManager F
  approvals : InMemoryApprovalStore := {}

/-- The state of a new server. -/
def AtlasServer.initial (srv : AtlasServer F) : ServerState F where
  rateLimiter := { settings := srv.settings }
  cache := .start srv.settings

/-- What the clocks say: `time.monotonic()`, `int(time.time() * 1000)` and
`datetime.now(timezone.utc).isoformat()`. -/
structure Clock where
  now : ℚ
  wallMs : ℤ
  utc : String

/-- Raise a `ToolError`. -/
def liftTool {α : Type} (r : Except (ToolError F) α) : Except (Exc F) α :=
  r.mapError .tool

/-- An error of a tool is the same error as an exception. -/
theorem liftTool_ok {α : Type} {r : Except (ToolError F) α} {a : α} :
    liftTool r = .ok a ↔ r = .ok a := by
  cases r <;> simp [liftTool, Except.mapError]

/-- What `dispatch` does before its result: it reads and writes the state of
the server, and may raise. -/
abbrev Pipeline (F α : Type) : Type := Fallible (Exc F) (ServerState F) α

section Gates

variable [UnicodeDb]

/-- The scopes are checked one after the other; the first one that is missing
raises. -/
def checkScopes (ctx : RequestContext) : List String → Except (Exc F) Unit
  | [] => .ok ()
  | required :: rest =>
      if ¬ ctx.hasScope required then .error (.tool
        (policyError "insufficient_scope" ("missing required scope " ++ pyRepr required)
          none))
      else checkScopes ctx rest

/-- The check passes if and only if none of the scopes is missing. -/
theorem checkScopes_ok {ctx : RequestContext} {scopes : List String} :
    checkScopes (F := F) ctx scopes = .ok () ↔ ∀ required ∈ scopes, ctx.hasScope required := by
  induction scopes with
  | nil => simp [checkScopes]
  | cons required rest ih =>
      by_cases h : ctx.hasScope required <;> simp [checkScopes, h, ih]

variable [PyFloat F]

/-- What the policy is told of the arguments: the SQL and the columns, where
there are any. -/
def policyContext (args : BaseModel F) : List (String × Value F) :=
  (match dictGet args.dump "sql" with
    | some sql => [("sql", sql)]
    | none => []) ++
  (match dictGet args.dump "columns" with
    | some columns => [("columns", columns)]
    | none => [])

/-- The check of `http.fetch`: a URL without a host is checked as one with an
empty host. -/
def enforceHttpAllowlist (allowlist : HttpAllowlist) (tenant : String)
    (args : BaseModel F) : Except (Exc F) Unit :=
  match dictGet args.dump "url" with
  | none => .ok ()
  | some url =>
      if ¬ url.truthy then .ok ()
      else
        match UrlHost.hostname (pyStrValue url) with
        | .error typeName => .error (.other typeName)
        | .ok host => liftTool (allowlist.check tenant (host.getD ""))

/-- `rate_limiter.acquire(tenant, tool)`, with rate limiting on. -/
def acquireToken (srv : AtlasServer F) (tenant tool : String) (wallMs : ℤ) :
    Pipeline F Unit :=
  if srv.settings.rateLimitEnabled then
    .ofUpdate fun s =>
      let (r, rateLimiter) := s.rateLimiter.acquire tenant tool 1 wallMs
      (liftTool r, { s with rateLimiter })
  else pure ()

/-- What the approval gate is asked about a call. -/
def approvalRequest (env : ToolCallEnvelope F) (tool : Tool F) : ApprovalRequest F where
  tenant := env.tenant
  caller := env.caller
  delegator := env.delegator
  tool := tool.metadata.name
  arguments := env.arguments

/-- `approvals.enforce(..)`, for a destructive tool with approvals
required. -/
def enforceApproval (srv : AtlasServer F) (env : ToolCallEnvelope F) (tool : Tool F)
    (clock : Clock) : Pipeline F Unit :=
  if tool.metadata.destructive ∧ srv.settings.destructiveToolRequiresApproval then
    .ofUpdate fun s =>
      let (r, approvals) :=
        enforce s.approvals (approvalRequest env tool) clock.utc clock.now
      (r, { s with approvals })
  else pure ()

/-- `dispatch` up to the start of the call, in the order of the source. -/
def gates (srv : AtlasServer F) (ctx : RequestContext) (env : ToolCallEnvelope F)
    (clock : Clock) : Pipeline F (Tool F × BaseModel F) := do
  let tool ← .ofExcept (liftTool (srv.registry.get env.tool))
  let args ← .ofExcept (liftTool (tool.validate env.arguments))
  .ofExcept (checkScopes ctx tool.metadata.scopesRequired)
  .ofExcept (srv.policy.check env.caller env.tenant tool.metadata.name
    tool.metadata.name (policyContext args))
  .ofExcept (enforceHttpAllowlist srv.httpAllowlist env.tenant args)
  acquireToken srv env.tenant tool.metadata.name clock.wallMs
  enforceApproval srv env tool clock
  return (tool, args)

/-- The call is for a registered tool, its arguments validate, the context
holds the scopes, the policy permits it, and the host of its URL is
allowlisted. -/
structure Authorised (srv : AtlasServer F) (ctx : RequestContext)
    (env : ToolCallEnvelope F) (tool : Tool F) (args : BaseModel F) : Prop where
  registered : srv.registry.get env.tool = .ok tool
  validated : tool.validate env.arguments = .ok args
  inScope : ∀ required ∈ tool.metadata.scopesRequired, ctx.hasScope required
  permitted : srv.policy.check env.caller env.tenant tool.metadata.name
    tool.metadata.name (policyContext args) = .ok ()
  allowlisted : ∀ url, dictGet args.dump "url" = some url → url.truthy →
    ∃ host, UrlHost.hostname (pyStrValue url) = .ok host ∧
      srv.httpAllowlist.allowed env.tenant (host.getD "")

/-- Besides, the limiter admits the call and a human has approved it, where
they are asked. -/
structure Admitted (srv : AtlasServer F) (s : ServerState F) (ctx : RequestContext)
    (env : ToolCallEnvelope F) (clock : Clock) (tool : Tool F) (args : BaseModel F) :
    Prop extends Authorised srv ctx env tool args where
  limited : srv.settings.rateLimitEnabled →
    s.rateLimiter.Admits env.tenant tool.metadata.name 1 clock.wallMs
  approved : tool.metadata.destructive → srv.settings.destructiveToolRequiresApproval →
    Approved s.approvals (approvalRequest env tool) clock.now

/-- The check passes if and only if the host of the URL is allowed, or there
is no URL. -/
theorem enforceHttpAllowlist_ok {allowlist : HttpAllowlist} {tenant : String}
    {args : BaseModel F} :
    enforceHttpAllowlist allowlist tenant args = .ok () ↔
      ∀ url, dictGet args.dump "url" = some url → url.truthy →
        ∃ host, UrlHost.hostname (pyStrValue url) = .ok host ∧
          allowlist.allowed tenant (host.getD "") := by
  unfold enforceHttpAllowlist
  cases hurl : dictGet args.dump "url" with
  | none => simp
  | some url =>
      by_cases htruthy : url.truthy
      · cases hhost : UrlHost.hostname (pyStrValue url) with
        | error typeName => simp [htruthy, hhost]
        | ok host =>
            by_cases hallowed : allowlist.allowed tenant (host.getD "") <;>
              simp [htruthy, hhost, liftTool_ok, HttpAllowlist.check, hallowed]
      · simp [htruthy]

omit [UnicodeDb] in
/-- A token taken is a call the limiter admits; the approvals are not
touched. -/
theorem acquireToken_ok {srv : AtlasServer F} {tenant tool : String} {wallMs : ℤ}
    {s t : ServerState F}
    (h : (acquireToken srv tenant tool wallMs).run s = (.ok (), t)) :
    (srv.settings.rateLimitEnabled → s.rateLimiter.Admits tenant tool 1 wallMs) ∧
      t.approvals = s.approvals := by
  unfold acquireToken at h
  by_cases hon : srv.settings.rateLimitEnabled = true
  · obtain ⟨hok, rfl⟩ : (s.rateLimiter.acquire (F := F) tenant tool 1 wallMs).1 = .ok () ∧
        { s with rateLimiter :=
          (s.rateLimiter.acquire (F := F) tenant tool 1 wallMs).2 } = t := by
      simpa [hon, liftTool_ok] using h
    exact ⟨fun _ => RateLimiter.admits_of_acquire hok, rfl⟩
  · obtain rfl : s = t := by simpa [hon] using h
    exact ⟨fun hon' => absurd hon' hon, rfl⟩

/-- A call that passes the approval gate has been approved, if it needs to
be. -/
theorem enforceApproval_ok {srv : AtlasServer F} {env : ToolCallEnvelope F}
    {tool : Tool F} {clock : Clock} {s t : ServerState F}
    (h : (enforceApproval srv env tool clock).run s = (.ok (), t)) :
    tool.metadata.destructive → srv.settings.destructiveToolRequiresApproval →
      Approved s.approvals (approvalRequest env tool) clock.now := by
  intro hdestructive hrequired
  have hok : (enforce s.approvals (approvalRequest env tool) clock.utc clock.now).1 =
      .ok () := by
    simp only [enforceApproval, hdestructive, hrequired, and_self, if_true,
      Fallible.run_ofUpdate, Prod.mk.injEq] at h
    exact h.1
  exact approved_of_enforce hok

/-- **The gates let through only admitted calls.** -/
theorem admitted_of_gates {srv : AtlasServer F} {ctx : RequestContext}
    {env : ToolCallEnvelope F} {clock : Clock} {s t : ServerState F} {tool : Tool F}
    {args : BaseModel F}
    (h : (gates srv ctx env clock).run s = (.ok (tool, args), t)) :
    Admitted srv s ctx env clock tool args := by
  obtain ⟨tool', htool, h⟩ := Fallible.run_bind_ofExcept_ok.mp h
  obtain ⟨args', hargs, h⟩ := Fallible.run_bind_ofExcept_ok.mp h
  obtain ⟨_, hscopes, h⟩ := Fallible.run_bind_ofExcept_ok.mp h
  obtain ⟨_, hpolicy, h⟩ := Fallible.run_bind_ofExcept_ok.mp h
  obtain ⟨_, hhost, h⟩ := Fallible.run_bind_ofExcept_ok.mp h
  obtain ⟨_, s₁, hlimit, h⟩ := Fallible.run_bind_ok.mp h
  obtain ⟨_, s₂, happroval, h⟩ := Fallible.run_bind_ok.mp h
  obtain ⟨⟨rfl, rfl⟩, -⟩ : (tool' = tool ∧ args' = args) ∧ s₂ = t := by simpa using h
  obtain ⟨hadmits, hkept⟩ := acquireToken_ok hlimit
  have happroved := enforceApproval_ok happroval
  rw [hkept] at happroved
  exact
    { registered := liftTool_ok.mp htool
      validated := liftTool_ok.mp hargs
      inScope := checkScopes_ok.mp hscopes
      permitted := hpolicy
      allowlisted := enforceHttpAllowlist_ok.mp hhost
      limited := hadmits
      approved := happroved }

omit [UnicodeDb] in
/-- A call that the limiter admits takes its token. -/
theorem acquireToken_of_admits {srv : AtlasServer F} {tenant tool : String} {wallMs : ℤ}
    {s : ServerState F}
    (h : srv.settings.rateLimitEnabled → s.rateLimiter.Admits tenant tool 1 wallMs) :
    ∃ t, (acquireToken srv tenant tool wallMs).run s = (.ok (), t) ∧
      t.approvals = s.approvals := by
  unfold acquireToken
  by_cases hon : srv.settings.rateLimitEnabled = true
  · have hadmits : (s.rateLimiter.consume tenant tool 1 wallMs).1.1 = 1 := h hon
    simp only [hon, if_true, Fallible.run_ofUpdate, RateLimiter.acquire, hadmits]
    exact ⟨_, rfl, rfl⟩
  · simp only [hon, Bool.false_eq_true, if_false, Fallible.run_pure]
    exact ⟨s, rfl, rfl⟩

/-- An approved call passes the approval gate. -/
theorem enforceApproval_of_approved {srv : AtlasServer F} {env : ToolCallEnvelope F}
    {tool : Tool F} {clock : Clock} {s : ServerState F}
    (h : tool.metadata.destructive → srv.settings.destructiveToolRequiresApproval →
      Approved s.approvals (approvalRequest env tool) clock.now) :
    ∃ t, (enforceApproval srv env tool clock).run s = (.ok (), t) := by
  unfold enforceApproval
  by_cases hneeded : tool.metadata.destructive ∧ srv.settings.destructiveToolRequiresApproval
  · have hok : (enforce s.approvals (approvalRequest env tool) clock.utc clock.now).1 =
        .ok () := enforce_of_approved (h hneeded.1 hneeded.2) _
    rw [if_pos hneeded, Fallible.run_ofUpdate]
    exact ⟨_, Prod.ext hok rfl⟩
  · simp only [hneeded, if_false, Fallible.run_pure]
    exact ⟨s, rfl⟩

/-- **They let through every admitted call.** -/
theorem gates_of_admitted {srv : AtlasServer F} {ctx : RequestContext}
    {env : ToolCallEnvelope F} {clock : Clock} {s : ServerState F} {tool : Tool F}
    {args : BaseModel F} (h : Admitted srv s ctx env clock tool args) :
    ∃ t, (gates srv ctx env clock).run s = (.ok (tool, args), t) := by
  obtain ⟨u, htoken, hkept⟩ := acquireToken_of_admits h.limited
  have happroved := h.approved
  rw [← hkept] at happroved
  obtain ⟨t, happroval⟩ := enforceApproval_of_approved happroved
  refine ⟨t, ?_⟩
  unfold gates
  refine Fallible.run_bind_ofExcept_ok.mpr ⟨tool, liftTool_ok.mpr h.registered, ?_⟩
  refine Fallible.run_bind_ofExcept_ok.mpr ⟨args, liftTool_ok.mpr h.validated, ?_⟩
  refine Fallible.run_bind_ofExcept_ok.mpr ⟨(), checkScopes_ok.mpr h.inScope, ?_⟩
  refine Fallible.run_bind_ofExcept_ok.mpr ⟨(), h.permitted, ?_⟩
  refine Fallible.run_bind_ofExcept_ok.mpr ⟨(), enforceHttpAllowlist_ok.mpr h.allowlisted, ?_⟩
  refine Fallible.run_bind_ok.mpr ⟨(), u, htoken, ?_⟩
  exact Fallible.run_bind_ok.mpr ⟨(), t, happroval, rfl⟩

/-- **A call that is not authorised leaves no trace.** -/
theorem gates_of_not_authorised {srv : AtlasServer F} {ctx : RequestContext}
    {env : ToolCallEnvelope F} (clock : Clock) (s : ServerState F)
    (h : ¬ ∃ tool args, Authorised srv ctx env tool args) :
    ∃ exc, (gates srv ctx env clock).run s = (.error exc, s) := by
  apply Fallible.untouched_bind
  intro tool htool
  apply Fallible.untouched_bind
  intro args hargs
  apply Fallible.untouched_bind
  intro _ hscopes
  apply Fallible.untouched_bind
  intro _ hpolicy
  apply Fallible.untouched_bind
  intro _ hhost
  -- all five checks passed
  have hauthorised : Authorised srv ctx env tool args :=
    { registered := liftTool_ok.mp htool
      validated := liftTool_ok.mp hargs
      inScope := checkScopes_ok.mp hscopes
      permitted := hpolicy
      allowlisted := enforceHttpAllowlist_ok.mp hhost }
  exact absurd ⟨tool, args, hauthorised⟩ h

/-- The gates do not touch a part of the state that neither the limiter nor
the approvals are in. -/
theorem gates_keep {γ : Type} {g : ServerState F → γ}
    (hlimiter : ∀ s rateLimiter, g { s with rateLimiter } = g s)
    (happrovals : ∀ s approvals, g { s with approvals } = g s) (srv : AtlasServer F)
    (ctx : RequestContext) (env : ToolCallEnvelope F) (clock : Clock) :
    Fallible.Keeps g (gates srv ctx env clock) := by
  have htoken : ∀ tenant tool wallMs,
      Fallible.Keeps g (acquireToken srv tenant tool wallMs) := by
    intro tenant tool wallMs s
    unfold acquireToken
    split
    · exact hlimiter s _
    · rfl
  have happroval : ∀ tool, Fallible.Keeps g (enforceApproval srv env tool clock) := by
    intro tool s
    unfold enforceApproval
    split
    · exact happrovals s _
    · rfl
  apply (Fallible.keeps_ofExcept _ _).bind
  intro tool
  apply (Fallible.keeps_ofExcept _ _).bind
  intro args
  apply (Fallible.keeps_ofExcept _ _).bind
  intro _
  apply (Fallible.keeps_ofExcept _ _).bind
  intro _
  apply (Fallible.keeps_ofExcept _ _).bind
  intro _
  apply (htoken _ _ _).bind
  intro _
  apply (happroval tool).bind
  intro _
  exact Fallible.keeps_pure _ _

/-- The cache after the gates, whatever they decide. -/
theorem cache_of_gates {srv : AtlasServer F} {ctx : RequestContext}
    {env : ToolCallEnvelope F} {clock : Clock} {s t : ServerState F}
    {r : Except (Exc F) (Tool F × BaseModel F)}
    (h : (gates srv ctx env clock).run s = (r, t)) : t.cache = s.cache := by
  have hkept := gates_keep (g := ServerState.cache) (fun _ _ => rfl) (fun _ _ => rfl) srv ctx
    env clock s
  rwa [h] at hkept

/-- So are the breakers and the latencies. -/
theorem reliability_of_gates {srv : AtlasServer F} {ctx : RequestContext}
    {env : ToolCallEnvelope F} {clock : Clock} {s t : ServerState F}
    {r : Except (Exc F) (Tool F × BaseModel F)}
    (h : (gates srv ctx env clock).run s = (r, t)) :
    t.breakers = s.breakers ∧ t.tracker = s.tracker := by
  have hkept := gates_keep (g := fun s => (s.breakers, s.tracker)) (fun _ _ => rfl)
    (fun _ _ => rfl) srv ctx env clock s
  rw [h] at hkept
  exact Prod.mk.inj hkept

end Gates

end Server
