import AtlasMcp.CachedResults
import AtlasMcp.HttpIdentity

/-!
# Calls over HTTP

Over the streamable transport a tool is called by an HTTP request: the middlewares bind the
context of its principal and its tenant, and the handler makes the envelope from that and
dispatches it.  Sessions are stateless, so that every request is handled in its own context.
What a validator says of a token may change from request to request.

Nothing else dispatches.  So behind every start of a tool and behind every result there is a
request whose token was valid when it came, of a principal who may act for the tenant and has
the scopes that the tool requires (`acted_on_behalf`); and where the result was computed for
another request, that one too was made for the same tenant and the same tool.
-/

namespace Server

open PyJson PyText Errors Tools Auth Governance RateLimit Reliability Cache FallibleState
open GuardedRuns

variable {F : Type}

/-- A request to call a tool, and the validator and the clock it meets.  Whether
a token is valid may change from one request to the next. -/
structure HttpCall (F : Type) where
  request : HttpRequest
  validate : String → Except (Exc F) Principal
  tool : String
  arguments : List (String × Value F)
  clock : Clock

/-- A request comes in, or something else happens than the arrival of a
dispatch. -/
inductive HttpEvent (F : Type)
  | request (call : HttpCall F)
  | other (e : Event F) (h : ∀ ctx env clock, e ≠ .dispatch ctx env clock)

section Requests

variable [UnicodeDb]

/-- `call_tool` in the context that is bound: the dispatch it makes. -/
def HttpCall.dispatch (call : HttpCall F) (ctx : RequestContext) : Event F :=
  .dispatch ctx (ctx.buildEnvelope call.tool call.arguments) call.clock

/-- What the server hears of an event, if anything: a request that the
middlewares answer does not come to it. -/
def HttpEvent.heard (settings : HttpSettings) : HttpEvent F → Option (Event F)
  | .request call =>
      match serve settings call.validate call.request with
      | .handled (some ctx) => some (call.dispatch ctx)
      | _ => none
  | .other e _ => some e

/-- Only what a principal is entitled to is handled in a context. -/
theorem entitled_of_handled {settings : HttpSettings}
    {validate : String → Except (Exc F) Principal} {req : HttpRequest} {ctx : RequestContext}
    (h : serve settings validate req = .handled (some ctx)) :
    ∃ bearer p, AuthMiddleware.bearerToken req = some bearer ∧ validate bearer = .ok p ∧
      p.tenantFor (req.header settings.tenantHeader) = some ctx.tenant ∧
      ctx.subject = p.subject ∧ ctx.scopes = p.scopes ∧ ctx.delegator = p.delegator := by
  have hpath : req.path ∉ publicPaths := by
    intro hpublic
    simp [serve, AuthMiddleware.dispatch, TenantMiddleware.dispatch, ContextMiddleware.dispatch,
      application, hpublic] at h
  cases hbearer : AuthMiddleware.bearerToken req with
  | none => simp [serve, AuthMiddleware.dispatch, hpath, hbearer] at h
  | some bearer =>
      cases hvalid : validate bearer with
      | error exc =>
          simp only [serve, AuthMiddleware.dispatch, hpath, hbearer, hvalid, if_false] at h
          cases exc with
          | tool e =>
              simp only at h
              split at h <;> cases h
          | cancelled | other typeName => cases h
      | ok p =>
          rw [serve_of_token settings hpath hbearer hvalid] at h
          cases htenant : p.tenantFor (req.header settings.tenantHeader) with
          | none => simp [htenant] at h
          | some tenant =>
              simp only [htenant, HttpOutcome.handled.injEq, Option.some.injEq] at h
              subst h
              exact ⟨bearer, p, rfl, hvalid, htenant, rfl, rfl, rfl⟩

end Requests

namespace System

variable [PyFloat F] [UnicodeDb]

/-- The server does what it hears of a request, and nothing where the request
does not come through. -/
def httpStep (srv : AtlasServer F) (settings : HttpSettings) (t : System F) (e : HttpEvent F) :
    Option (System F) :=
  match e.heard settings with
  | some heard => t.step srv heard
  | none => some t

/-- One event of a server behind the middlewares. -/
def HttpStep (srv : AtlasServer F) (settings : HttpSettings) (t : System F) (e : HttpEvent F)
    (u : System F) : Prop :=
  t.httpStep srv settings e = some u

/-- The dispatch is the one that the call asks for, the token of the call was
valid, and its principal may act for the tenant, has the scopes that the tool
requires and is permitted the call by the policy. -/
structure MadeFor (srv : AtlasServer F) (settings : HttpSettings) (call : HttpCall F)
    (bearer : String) (p : Principal) (f : Flight F) : Prop where
  token : AuthMiddleware.bearerToken call.request = some bearer
  valid : call.validate bearer = .ok p
  tenant : p.tenantFor (call.request.header settings.tenantHeader) = some f.envelope.tenant
  caller : f.envelope.caller = p.subject
  delegator : f.envelope.delegator = p.delegator
  tool : f.tool.metadata.name = call.tool
  arguments : f.envelope.arguments = call.arguments
  scopes : ∀ required ∈ f.tool.metadata.scopesRequired, p.hasScope required = true
  permitted : srv.policy.check p.subject f.envelope.tenant call.tool call.tool
    (policyContext f.args) = .ok ()

/-- It was made for a request that came in the course of the events, and whose
principal was entitled to it. -/
def OnBehalf (srv : AtlasServer F) (settings : HttpSettings) (events : List (HttpEvent F))
    (f : Flight F) : Prop :=
  ∃ call bearer p, .request call ∈ events ∧ MadeFor srv settings call bearer p f

variable {srv : AtlasServer F} {settings : HttpSettings} {start t : System F}
  {events : List (HttpEvent F)}

/-- A run behind the middlewares is a run of what the server hears. -/
theorem run_heard (hrun : Run (HttpStep srv settings) start events t) :
    Run (Step srv) start (events.filterMap (HttpEvent.heard settings)) t := by
  induction hrun with
  | nil => exact .nil
  | @snoc events e t u _ hlast ih =>
      rw [List.filterMap_append]
      cases hheard : e.heard settings with
      | none =>
          simp only [HttpStep, httpStep, hheard, Option.some.injEq] at hlast
          subst hlast
          simpa [hheard] using ih
      | some heard =>
          simp only [HttpStep, httpStep, hheard] at hlast
          simpa [hheard] using ih.snoc hlast

omit [PyFloat F] in
/-- A dispatch that the server hears of was requested. -/
theorem requested_of_heard {ctx : RequestContext} {env : ToolCallEnvelope F} {clock : Clock}
    (h : .dispatch ctx env clock ∈ events.filterMap (HttpEvent.heard settings)) :
    ∃ call, .request call ∈ events ∧
      serve settings call.validate call.request = .handled (some ctx) ∧
      env = ctx.buildEnvelope call.tool call.arguments := by
  obtain ⟨e, he, hheard⟩ := List.mem_filterMap.mp h
  cases e with
  | other e hother =>
      obtain rfl := Option.some.inj hheard
      exact absurd rfl (hother ctx env clock)
  | request call =>
      simp only [HttpEvent.heard] at hheard
      split at hheard
      next ctx' hserved =>
          obtain ⟨rfl, rfl, -⟩ := Event.dispatch.inj (Option.some.inj hheard)
          exact ⟨call, he, hserved, rfl⟩
      next => cases hheard

/-- A dispatch on record was made on behalf of a principal. -/
theorem onBehalf_of_run (hstart : start.flights = [])
    (hrun : Run (HttpStep srv settings) start events t) {f : Flight F} (hf : f ∈ t.flights) :
    OnBehalf srv settings events f := by
  obtain ⟨before, after, u, hevents, -, -, hadmitted⟩ :=
    arrived_of_run hstart (run_heard hrun) f hf
  have hmem : .dispatch f.context f.envelope f.clock ∈
      events.filterMap (HttpEvent.heard settings) := by
    rw [hevents]
    simp
  obtain ⟨call, hcall, hserved, henvelope⟩ := requested_of_heard hmem
  obtain ⟨bearer, p, hbearer, hvalid, htenant, hsubject, hscopes, hdelegator⟩ :=
    entitled_of_handled hserved
  have hname : f.tool.metadata.name = call.tool := by
    rw [(ToolRegistry.lookup_of_get hadmitted.registered).2, henvelope]
    rfl
  have hcaller : f.envelope.caller = p.subject := by
    rw [henvelope]
    exact hsubject
  refine ⟨call, bearer, p, hcall, ?_⟩
  exact {
    token := hbearer
    valid := hvalid
    tenant := by rw [henvelope]; exact htenant
    caller := hcaller
    delegator := by rw [henvelope]; exact hdelegator
    tool := hname
    arguments := by rw [henvelope]; rfl
    scopes := by
      intro required hreq
      have hscope := hadmitted.inScope required hreq
      simp only [RequestContext.hasScope, hscopes] at hscope
      exact hscope
    permitted := by
      have hpermitted := hadmitted.permitted
      rwa [hcaller, hname] at hpermitted }

/-- What a dispatch returned is the result of an execution of its tool, for
its tenant. -/
theorem execution_of_returned
    (hnames : ∀ name tool, srv.registry.tools.lookup name = some tool → ':' ∉ name.toList)
    {events : List (Event F)} (hrun : Run (Step srv) (System.start srv) events t) {f : Flight F}
    {v : Value F} (hfv : (f, v) ∈ t.returned) :
    ∃ x ∈ t.executions, x.1.tool = f.tool ∧ x.1.envelope.tenant = f.envelope.tenant ∧
      IsResult x.2 v := by
  have hconsistent : t.Consistent :=
    hrun.invariant ⟨CacheManager.holds_start srv.settings, by simp [System.start],
      by simp [System.start]⟩ fun _ _ _ => consistent_step
  obtain ⟨x, hx, hanswers, hresult⟩ := hconsistent.served f v hfv
  refine ⟨x, hx, ?_⟩
  rcases hanswers with rfl | ⟨key, hxkey, hfkey⟩
  · exact ⟨rfl, rfl, hresult⟩
  · -- the two share a key, which names the tenant and the tool
    have hff : f ∈ t.flights := mem_flights.mpr (Or.inr (Or.inr (Or.inr ⟨v, hfv⟩)))
    have hxf : x.1 ∈ t.flights := mem_flights.mpr (Or.inr (Or.inr (Or.inl ⟨x.2, hx⟩)))
    have hkeys := (key_of_run rfl hrun x.1 hxf key hxkey).symm.trans
      (key_of_run rfl hrun f hff key hfkey)
    have hxtool := registered_of_arrived (arrived_of_run rfl hrun x.1 hxf)
    have hftool := registered_of_arrived (arrived_of_run rfl hrun f hff)
    obtain ⟨htenant, hname, -⟩ :=
      cacheKey_injective (hnames _ _ hxtool) (hnames _ _ hftool) hkeys
    rw [hname, hftool] at hxtool
    exact ⟨(Option.some.inj hxtool).symm, htenant, hresult⟩

end System

theorem woke_ne_dispatch (i : ℕ) (now : ℚ) (ctx : RequestContext) (env : ToolCallEnvelope F)
    (clock : Clock) : Event.woke i now ≠ .dispatch ctx env clock :=
  nofun

theorem ran_ne_dispatch (i : ℕ) (outcome : Except (Exc F) (ToolResult F)) (now : ℚ)
    (ctx : RequestContext) (env : ToolCallEnvelope F) (clock : Clock) :
    Event.ran i outcome now ≠ .dispatch ctx env clock :=
  nofun

/-- The operator looks something up for another tenant; somebody without a
token tries to, and then the operator does again. -/
def lookups : List (HttpEvent WholeFloat) :=
  let request authorization := HttpEvent.request
    { request := mcpRequest authorization, validate := knownTokens, tool := "docs.lookup"
      arguments := [], clock := ⟨0, 0, ""⟩ }
  [request "Bearer operator", .other (.woke 0 0) (woke_ne_dispatch 0 0),
    .other (.ran 0 (.ok ⟨[("doc", .int 7)], wf_doc⟩) 1) (ran_ne_dispatch _ _ _),
    .other (.woke 0 1) (woke_ne_dispatch 0 1), request "", request "Bearer operator"]

end Server
