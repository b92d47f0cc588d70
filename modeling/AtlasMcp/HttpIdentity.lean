import AtlasMcp.Dispatch

/-!
# Who is asking

Three middlewares stand before the MCP handler.  `AuthMiddleware` validates the bearer
token, `TenantMiddleware` decides for which tenant, and `ContextMiddleware` binds the
context that the dispatch pipeline reads.  They hand what they found on in the state of
the request.

`entitled` says what the three are for: the one context in which a request may be handled.
Each middleware falls back on something else where it finds nothing, a default tenant or
a development context, and none of these can be reached past the first
(`serve_of_token`).  What can go wrong is the validation: only an `AuthError` becomes a
response.
-/

namespace Server

open PyJson PyText Errors Auth

variable {F : Type}

/-- The caller as the token names it; the scopes are those of a frozen set, in
the order it gives them. -/
structure Principal where
  subject : String
  delegator : Option String
  tenant : String
  scopes : List String
  tokenId : String
  issuedAt : ℤ
  expiresAt : ℤ

/-- `Principal.has_scope`, which the context of a request repeats. -/
def Principal.hasScope (p : Principal) (required : String) : Bool :=
  required ∈ p.scopes || (startsWith required "tool:" && "tool:*:admin" ∈ p.scopes)

/-- The settings the middlewares read: where tokens come from, for whom they
are, and which header names a tenant. -/
structure HttpSettings where
  authIssuer : String := "https://auth.atlas.local"
  authAudience : String := "atlas-mcp"
  tenantHeader : String := "X-Tenant-Id"
  requireTenant : Bool := true

/-- `request.state`, where an attribute that is not set reads as `None`.  Each
middleware leaves there what the next ones need. -/
structure RequestState where
  principal : Option Principal := none
  tenant : Option String := none

/-- A request; the names of its headers are in lower case, and may repeat.  Of a
header that repeats the first one counts. -/
structure HttpRequest where
  path : String
  headers : List (String × String)
  state : RequestState := {}

/-- An answer of a middleware, without the server being asked.  The body says no
more than which error it is. -/
structure JSONResponse where
  error : String
  statusCode : ℕ
  wwwAuthenticate : Option String := none

/-- How a request ends: a middleware responds, or the application behind them
runs in a context, or an exception escapes from a middleware. -/
inductive HttpOutcome (F : Type)
  | responded (r : JSONResponse)
  | handled (ctx : Option RequestContext)
  | escaped (exc : Exc F)

/-- What a middleware calls to go on: the rest of the stack, given the request
and the context that is bound. -/
abbrev CallNext (F : Type) : Type := HttpRequest → Option RequestContext → HttpOutcome F

/-- The application behind the middlewares. -/
def application : CallNext F := fun _ ctx => .handled ctx

/-- `dev_context(tenant=tenant)`. -/
def devContext (tenant : String) : RequestContext where
  subject := "dev:local"
  tenant

/-- The paths for which nobody has to identify themselves. -/
def publicPaths : List String := ["/.well-known/mcp-server", "/healthz", "/readyz", "/metrics"]

section Middlewares

variable [UnicodeDb]

/-- `request.headers.get(name)`: names are looked up in lower case, and the
first counts. -/
def HttpRequest.header (req : HttpRequest) (name : String) : Option String :=
  req.headers.lookup (String.ofList (UnicodeDb.lower name.toList))

namespace AuthMiddleware

/-- The answer to a request without an identity, with the header that says
where to get one. -/
def unauthenticated (settings : HttpSettings) (errorCode : String) : JSONResponse where
  error := errorCode
  statusCode := 401
  wwwAuthenticate := "Bearer realm=\"" ++ settings.authAudience ++ "\", error=\"" ++
    errorCode ++ "\", authorization_uri=\"" ++ settings.authIssuer ++ "\""

/-- The token of the `Authorization` header, if it is one of the bearer
scheme. -/
def bearerToken (req : HttpRequest) : Option String :=
  let header := (req.header "authorization").getD ""
  if startsWith (String.ofList (UnicodeDb.lower header.toList)) "bearer " then
    some (String.ofList (strip (header.toList.drop 7)))
  else none

/-- `AuthMiddleware.dispatch`: a bearer that is valid gives the principal.
Without a bearer, or with an error of authentication, the request is refused,
and any other exception escapes. -/
def dispatch (settings : HttpSettings) (validate : String → Except (Exc F) Principal)
    (callNext : CallNext F) : CallNext F := fun req ctx =>
  if req.path ∈ publicPaths then callNext req ctx
  else
    match bearerToken req with
    | none => .responded (unauthenticated settings "missing_token")
    | some bearer =>
        match validate bearer with
        | .ok principal =>
            callNext { req with state := { req.state with principal := principal } } ctx
        | .error (.tool e) =>
            if e.cls = .authError then .responded (unauthenticated settings e.code)
            else .escaped (.tool e)
        | .error exc => .escaped exc

end AuthMiddleware

namespace TenantMiddleware

/-- `TenantMiddleware.dispatch`: the tenant is that of the principal.  A header
may name another one, for which the principal needs a scope of its own. -/
def dispatch (settings : HttpSettings) (callNext : CallNext F) : CallNext F := fun req ctx =>
  if req.path ∈ publicPaths then callNext req ctx
  else
    let principal := req.state.principal
    if principal = none ∧ settings.requireTenant then
      .responded { error := "no_principal", statusCode := 401 }
    else
      let tenant := match principal with
        | some p => p.tenant
        | none => "default"
      let proceed (tenant : String) :=
        callNext { req with state := { req.state with tenant := tenant } } ctx
      match req.header settings.tenantHeader with
      | none => proceed tenant
      | some headerTenant =>
          if headerTenant ≠ "" ∧ headerTenant ≠ tenant then
            match principal with
            | none => .responded { error := "tenant_mismatch", statusCode := 403 }
            | some p =>
                if p.hasScope "tenant:*:impersonate" then proceed headerTenant
                else .responded { error := "tenant_mismatch", statusCode := 403 }
          else proceed tenant

end TenantMiddleware

namespace ContextMiddleware

/-- `ContextMiddleware.dispatch`: the context of the request is built from the
principal and the tenant that the middlewares before have found. -/
def dispatch (settings : HttpSettings) (callNext : CallNext F) : CallNext F := fun req ctx =>
  if req.path ∈ publicPaths then callNext req ctx
  else
    let tenant := match req.state.tenant, req.state.principal with
      | some tenant, _ => tenant
      | none, some p => p.tenant
      | none, none => (req.header settings.tenantHeader).getD "default"
    match req.state.principal with
    | some p => callNext req (some
        { subject := p.subject
          tenant
          scopes := p.scopes
          delegator := p.delegator })
    | none => callNext req (some (devContext tenant))

end ContextMiddleware

/-- The three in the order of `build_http_app`, before the application. -/
def serve (settings : HttpSettings) (validate : String → Except (Exc F) Principal)
    (req : HttpRequest) : HttpOutcome F :=
  AuthMiddleware.dispatch settings validate
    (TenantMiddleware.dispatch settings (ContextMiddleware.dispatch settings application)) req
    none

/-! ## What they are for -/

/-- The tenant for which a principal may act when a header names one: its own,
or with the scope for it any other. -/
def Principal.tenantFor (p : Principal) (header : Option String) : Option String :=
  match header with
  | none => p.tenant
  | some t =>
      if t = "" ∨ t = p.tenant then some p.tenant
      else if "tenant:*:impersonate" ∈ p.scopes then some t
      else none

/-- The context in which a request may be handled, if there is one: that of a
principal for whom its token validates, and of a tenant for which that one may
act. -/
def entitled (settings : HttpSettings) (validate : String → Except (Exc F) Principal)
    (req : HttpRequest) : Option RequestContext := do
  let bearer ← AuthMiddleware.bearerToken req
  let p ← (validate bearer).toOption
  let tenant ← p.tenantFor (req.header settings.tenantHeader)
  return { subject := p.subject, tenant, scopes := p.scopes, delegator := p.delegator }

/-- The request is handled in the context it is entitled to, or not at all and
answered with 401 or 403. -/
def ServedAsEntitled (settings : HttpSettings) (validate : String → Except (Exc F) Principal)
    (req : HttpRequest) : Prop :=
  match entitled settings validate req with
  | some ctx => serve settings validate req = .handled (some ctx)
  | none => ∃ r, serve settings validate req = .responded r ∧
      (r.statusCode = 401 ∨ r.statusCode = 403)

/-- The token makes the validation raise an exception that is no
`AuthError`. -/
def BreaksValidation (validate : String → Except (Exc F) Principal) (req : HttpRequest) :
    Prop :=
  ∃ bearer exc, AuthMiddleware.bearerToken req = some bearer ∧ validate bearer = .error exc ∧
    ∀ e, exc = .tool e → e.cls ≠ .authError

omit [UnicodeDb] in
/-- The scope to act for others is held if it is among the scopes: it is none
of a tool. -/
theorem Principal.hasScope_impersonate (p : Principal) :
    p.hasScope "tenant:*:impersonate" = decide ("tenant:*:impersonate" ∈ p.scopes) := by
  have hstarts : startsWith "tenant:*:impersonate" "tool:" = false := by decide
  simp [hasScope, hstarts]

/-- With a principal the context middleware takes the tenant of the state. -/
theorem context_of_principal (settings : HttpSettings) (req : HttpRequest)
    (hpath : req.path ∉ publicPaths) {p : Principal} {tenant : String}
    (hp : req.state.principal = some p) (ht : req.state.tenant = some tenant)
    (ctx : Option RequestContext) :
    ContextMiddleware.dispatch (F := F) settings application req ctx =
      .handled (some
        { subject := p.subject, tenant, scopes := p.scopes, delegator := p.delegator }) := by
  simp [ContextMiddleware.dispatch, application, hpath, hp, ht]

/-- With a principal the tenant middleware lets the request go on for the
tenant for which that one may act, and refuses it with 403 if there is
none. -/
theorem tenant_of_principal (settings : HttpSettings) (req : HttpRequest)
    (hpath : req.path ∉ publicPaths) {p : Principal} (hp : req.state.principal = some p)
    (ctx : Option RequestContext) (callNext : CallNext F) :
    TenantMiddleware.dispatch settings callNext req ctx =
      match p.tenantFor (req.header settings.tenantHeader) with
      | some tenant => callNext { req with state := { req.state with tenant := tenant } } ctx
      | none => .responded { error := "tenant_mismatch", statusCode := 403 } := by
  unfold TenantMiddleware.dispatch Principal.tenantFor
  simp only [hpath, hp, if_false, reduceCtorEq, false_and, p.hasScope_impersonate]
  cases req.header settings.tenantHeader with
  | none => rfl
  | some header =>
      by_cases hown : header = "" ∨ header = p.tenant
      · have hkeeps : ¬ (header ≠ "" ∧ header ≠ p.tenant) := by tauto
        simp only [hown, hkeeps, if_true, if_false]
      · have hdiffers : header ≠ "" ∧ header ≠ p.tenant := by tauto
        by_cases hscope : "tenant:*:impersonate" ∈ p.scopes <;>
          simp [hdiffers, hscope]

/-- **A token that validates.**  The request is handled for the tenant for
which the principal may act, or refused. -/
theorem serve_of_token (settings : HttpSettings)
    {validate : String → Except (Exc F) Principal} {req : HttpRequest}
    (hpath : req.path ∉ publicPaths) {bearer : String} {p : Principal}
    (hbearer : AuthMiddleware.bearerToken req = some bearer) (hvalid : validate bearer = .ok p) :
    serve settings validate req =
      match p.tenantFor (req.header settings.tenantHeader) with
      | some tenant => .handled (some
          { subject := p.subject, tenant, scopes := p.scopes, delegator := p.delegator })
      | none => .responded { error := "tenant_mismatch", statusCode := 403 } := by
  let authenticated : HttpRequest := { req with state := { req.state with principal := some p } }
  have hauth : serve settings validate req =
      TenantMiddleware.dispatch settings (ContextMiddleware.dispatch settings application)
        authenticated none := by
    simp [serve, AuthMiddleware.dispatch, hpath, hbearer, hvalid, authenticated]
  rw [hauth, tenant_of_principal settings authenticated hpath rfl]
  have hheader : authenticated.header settings.tenantHeader =
      req.header settings.tenantHeader := rfl
  rw [hheader]
  cases p.tenantFor (req.header settings.tenantHeader) with
  | none => rfl
  | some tenant =>
      exact context_of_principal settings
        { authenticated with state := { authenticated.state with tenant := some tenant } }
        hpath rfl rfl none

/-- **When the boundary holds.**  A request on a path that is not public is
served as it is entitled to, in the context of its token and its tenant or
with 401 or 403, exactly if its token does not make the validation raise
something other than an `AuthError`. -/
theorem served_as_entitled_iff (settings : HttpSettings)
    (validate : String → Except (Exc F) Principal) {req : HttpRequest}
    (hpath : req.path ∉ publicPaths) :
    ServedAsEntitled settings validate req ↔ ¬ BreaksValidation validate req := by
  cases hbearer : AuthMiddleware.bearerToken req with
  | none =>
      have hserve : serve settings validate req =
          .responded (AuthMiddleware.unauthenticated settings "missing_token") := by
        simp [serve, AuthMiddleware.dispatch, hpath, hbearer]
      have hnone : entitled settings validate req = none := by simp [entitled, hbearer]
      simp only [ServedAsEntitled, hnone, hserve, BreaksValidation, hbearer]
      simp [AuthMiddleware.unauthenticated]
  | some bearer =>
      cases hvalid : validate bearer with
      | ok p =>
          have hserve := serve_of_token settings hpath hbearer hvalid
          have hholds : ServedAsEntitled settings validate req := by
            unfold ServedAsEntitled entitled
            rw [hserve]
            cases htenant : p.tenantFor (req.header settings.tenantHeader) with
            | some tenant => simp [hbearer, hvalid, Except.toOption, htenant]
            | none => simp [hbearer, hvalid, Except.toOption, htenant]
          have hkept : ¬ BreaksValidation validate req := by
            rintro ⟨b, exc, hb, hexc, -⟩
            obtain rfl : bearer = b := Option.some.inj (hbearer.symm.trans hb)
            rw [hvalid] at hexc
            cases hexc
          exact iff_of_true hholds hkept
      | error exc =>
          have hnone : entitled settings validate req = none := by
            simp [entitled, hbearer, hvalid, Except.toOption]
          have hbreaks : BreaksValidation validate req ↔
              ∀ e, exc = .tool e → e.cls ≠ .authError := by
            constructor
            · rintro ⟨b, other, hb, hother, hcls⟩
              obtain rfl : bearer = b := Option.some.inj (hbearer.symm.trans hb)
              obtain rfl : exc = other := Except.error.inj (hvalid.symm.trans hother)
              exact hcls
            · exact fun hcls => ⟨bearer, exc, hbearer, hvalid, hcls⟩
          rw [hbreaks]
          simp only [ServedAsEntitled, hnone, serve, AuthMiddleware.dispatch, hpath, hbearer,
            hvalid, if_false]
          cases exc with
          | tool e =>
              by_cases hcls : e.cls = .authError <;>
                simp [hcls, AuthMiddleware.unauthenticated]
          | cancelled => simp
          | other typeName => simp

end Middlewares

/-- The token of an operator who may act for every tenant, and one that names
a signing key the authorization server does not have. -/
def knownTokens : String → Except (Exc WholeFloat) Principal
  | "operator" => .ok
      { subject := "agent:ops", delegator := none, tenant := "acme"
        scopes := ["tenant:*:impersonate"], tokenId := "t1", issuedAt := 0, expiresAt := 900 }
  | "unknown-kid" => .error (.other "PyJWKClientError")
  | _ => .error (.tool { cls := .authError, code := "invalid_token" })

/-- A request to the server, with a bearer and a tenant in its headers. -/
def mcpRequest (authorization : String) : HttpRequest :=
  { path := "/mcp/", headers := [("authorization", authorization), ("x-tenant-id", "globex")] }

/-- A key that cannot be found is no `AuthError`: nothing turns it into a
response. -/
theorem unknown_key_escapes :
    (mcpRequest "Bearer unknown-kid").path ∉ publicPaths ∧
      serve {} knownTokens (mcpRequest "Bearer unknown-kid") =
        .escaped (.other "PyJWKClientError") ∧
      ¬ ServedAsEntitled {} knownTokens (mcpRequest "Bearer unknown-kid") := by
  have hescapes : serve {} knownTokens (mcpRequest "Bearer unknown-kid") =
      .escaped (.other "PyJWKClientError") := by rfl
  refine ⟨by decide, hescapes, ?_⟩
  have hnone : entitled {} knownTokens (mcpRequest "Bearer unknown-kid") = none := by rfl
  intro hserved
  simp only [ServedAsEntitled, hnone, hescapes, reduceCtorEq, false_and, exists_false] at hserved

/-- The operator is served for the tenant of the header. -/
theorem operator_served_as_entitled :
    (mcpRequest "bearer operator").path ∉ publicPaths ∧
      ¬ BreaksValidation knownTokens (mcpRequest "bearer operator") ∧
      (entitled {} knownTokens (mcpRequest "bearer operator")).map RequestContext.tenant =
        some "globex" ∧
      ServedAsEntitled {} knownTokens (mcpRequest "bearer operator") := by
  have hpath : (mcpRequest "bearer operator").path ∉ publicPaths := by decide
  have hkept : ¬ BreaksValidation knownTokens (mcpRequest "bearer operator") := by
    rintro ⟨bearer, exc, hbearer, hexc, -⟩
    obtain rfl : "operator" = bearer := Option.some.inj hbearer
    cases hexc
  exact ⟨hpath, hkept, rfl, (served_as_entitled_iff {} knownTokens hpath).mpr hkept⟩

end Server
