import AtlasMcp.HttpIdentity

/-!
# From the claims of a token to a principal

`jwt.decode` checks the signature and the registered claims; `scope`, `act` and `tenant` are read
after it, whatever they hold.  A scope that is no text is iterated and an actor that is true is
asked for its subject, outside the `try` block, so a value of another type ends the request
with an exception that is no `AuthError` (`closedOn_iff`).
-/

namespace Server

open PyJson PyText Errors

variable {F : Type}

/-- How the key set or `jwt.decode` fails.  The validator turns the first two
into errors of authentication, and lets any other exception through. -/
inductive TokenFailure
  | expired
  | invalid (text : String)
  | other (typeName : String)

/-- A `Principal` as `validate` builds it: nothing checks the types of its
fields.  The scopes are the items of the frozen set, of which some may be
listed twice. -/
structure DecodedPrincipal (F : Type) where
  subject : Value F
  delegator : Value F
  tenant : Value F
  scopes : List (Value F)
  tokenId : Value F
  issuedAt : Value F
  expiresAt : Value F

/-- The settings a validator reads, and what it asks of the JWT library, whose
answers are left open. -/
structure TokenValidator (F : Type) where
  authDevToken : Option String := none
  decode : String → Except TokenFailure (List (String × Value F))

/-- `s.split()`. -/
def split (s : List Char) : List (List Char) := (s.splitOnP isSpace).filter (· ≠ [])

/-- `hash(v)` is defined. -/
def hashable : Value F → Bool
  | .list _ => false
  | .dict _ => false
  | _ => true

/-- `frozenset(v)`, which iterates a dictionary by its keys. -/
def frozenset : Value F → Except (Exc F) (List (Value F))
  | .list xs => if xs.all hashable then .ok xs else .error (.other "TypeError")
  | .dict kvs => .ok (kvs.map fun kv => .str kv.1)
  | .str s => .ok (s.toList.map fun c => .str (String.singleton c))
  | _ => .error (.other "TypeError")

/-- `claims[name]`. -/
def getItem (claims : List (String × Value F)) (name : String) : Except (Exc F) (Value F) :=
  match dictGet claims name with
  | some v => .ok v
  | none => .error (.other "KeyError")

/-- `v.get("sub")`. -/
def getSub : Value F → Except (Exc F) (Value F)
  | .dict kvs => .ok ((dictGet kvs "sub").getD .none)
  | _ => .error (.other "AttributeError")

/-- The scopes of a claim: the words of a text, or the items of what can be
iterated. -/
def scopeSet : Value F → Except (Exc F) (List (Value F))
  | .str s => frozenset (.list ((split s.toList).map fun word => .str (String.ofList word)))
  | v => frozenset v

/-- The principal that a development token stands for. -/
def devPrincipal (now : ℤ) : DecodedPrincipal F where
  subject := .str "dev:local"
  delegator := .str "user:dev"
  tenant := .str "acme"
  scopes := [.str "tool:*:admin"]
  tokenId := .str "dev"
  issuedAt := .int now
  expiresAt := .int (now + 3600)

variable [PyFloat F]

/-- What `validate` does after `jwt.decode`. -/
def ofClaims (claims : List (String × Value F)) : Except (Exc F) (DecodedPrincipal F) := do
  let scopes ← scopeSet ((dictGet claims "scope").getD (.str ""))
  let claimed := (dictGet claims "act").getD .none
  let act := if claimed.truthy then claimed else .dict []
  let subject ← getItem claims "sub"
  let delegator ← getSub act
  let tokenId ← getItem claims "jti"
  let issuedAt ← getItem claims "iat"
  let expiresAt ← getItem claims "exp"
  let tenant := (dictGet claims "tenant").getD (.str "default")
  return { subject, delegator, tenant, scopes, tokenId, issuedAt, expiresAt }

namespace TokenValidator

/-- The token is the one for local development, if there is such a token.  It
stands for a fixed principal, and is not decoded. -/
def IsDevToken (v : TokenValidator F) (bearer : String) : Prop :=
  v.authDevToken = some bearer ∧ bearer ≠ ""

instance (v : TokenValidator F) (bearer : String) : Decidable (v.IsDevToken bearer) :=
  inferInstanceAs (Decidable (_ ∧ _))

/-- `TokenValidator.validate`: a development token stands for itself, where it
is allowed, and any other bearer is decoded. -/
def validate (v : TokenValidator F) (now : ℤ) (bearer : String) :
    Except (Exc F) (DecodedPrincipal F) :=
  if v.IsDevToken bearer then .ok (devPrincipal now)
  else
    match v.decode bearer with
    | .ok claims => ofClaims claims
    | .error .expired => .error (.tool
        { cls := .authError
          code := "token_expired"
          retryable := true
          hint := "refresh your token" })
    | .error (.invalid text) => .error (.tool
        { cls := .authError
          code := "invalid_token"
          hint := text })
    | .error (.other typeName) => .error (.other typeName)

end TokenValidator

/-! ## Failing closed -/

/-- A result, or an `AuthError`.  The middleware answers an `AuthError` with
401, and anything else escapes from it. -/
def FailsClosed {α : Type} (result : Except (Exc F) α) : Prop :=
  ∀ exc, result = .error exc → ∃ e, exc = .tool e ∧ e.cls = .authError

/-- `str.split` and `frozenset` can read the scope. -/
def ScopeReadable : Value F → Prop
  | .str _ => True
  | .dict _ => True
  | .list xs => ∀ x ∈ xs, hashable x = true
  | _ => False

/-- The actor is false, or a dictionary: of anything else `act.get` raises an
`AttributeError`. -/
def ActorReadable (v : Value F) : Prop := v.truthy = false ∨ ∃ kvs, v = .dict kvs

/-- Both claims are absent or can be read.  The other claims are taken as they
are, of whatever type. -/
structure Readable (claims : List (String × Value F)) : Prop where
  scope : ∀ v, dictGet claims "scope" = some v → ScopeReadable v
  actor : ∀ v, dictGet claims "act" = some v → ActorReadable v

/-- The claims without which `jwt.decode` raises. -/
def requiredClaims : List String := ["exp", "iat", "sub", "jti", "aud", "iss"]

/-- The claims without which the decoder refuses a token. -/
def HasRequired (claims : List (String × Value F)) : Prop :=
  ∀ name ∈ requiredClaims, ∃ v, dictGet claims name = some v

omit [PyFloat F] in
/-- The scopes can be read from a text, or from whatever can be made a set
of. -/
theorem scopeSet_ok_iff {v : Value F} : (∃ scopes, scopeSet v = .ok scopes) ↔ ScopeReadable v := by
  cases v with
  | str s => simp [scopeSet, frozenset, ScopeReadable, hashable]
  | list xs =>
      simp only [scopeSet, frozenset, ScopeReadable, ← List.all_eq_true]
      split <;> simp_all
  | _ => simp [scopeSet, frozenset, ScopeReadable]

omit [PyFloat F] in
/-- What cannot be made a set of raises a `TypeError`, and no error of
authentication. -/
theorem frozenset_error {v : Value F} {exc : Exc F} (h : frozenset v = .error exc) :
    exc = .other "TypeError" := by
  cases v with
  | list xs =>
      rw [frozenset] at h
      split at h
      · cases h
      · exact (Except.error.inj h).symm
  | str s => cases h
  | dict kvs => cases h
  | _ => exact (Except.error.inj h).symm

omit [PyFloat F] in
theorem scopeSet_error {v : Value F} {exc : Exc F} (h : scopeSet v = .error exc) :
    exc = .other "TypeError" := by
  unfold scopeSet at h
  split at h <;> exact frozenset_error h

/-- An actor that is a dictionary, or is empty, can be asked for its
subject. -/
theorem getSub_ok {v : Value F} (h : ActorReadable v) :
    ∃ sub, getSub (if v.truthy then v else .dict []) = .ok sub := by
  obtain hfalse | ⟨kvs, rfl⟩ := h
  · rw [if_neg (by simp [hfalse])]
    exact ⟨_, rfl⟩
  · split <;> exact ⟨_, rfl⟩

/-- An actor that is anything else has no `get`, and raises an
`AttributeError`. -/
theorem getSub_error {v : Value F} (h : ¬ ActorReadable v) :
    getSub (if v.truthy then v else .dict []) = .error (.other "AttributeError") := by
  rw [ActorReadable, not_or, Bool.not_eq_false] at h
  rw [if_pos h.1]
  cases v with
  | dict kvs => exact absurd ⟨kvs, rfl⟩ h.2
  | _ => rfl

variable {claims : List (String × Value F)}

/-- Claims that are all there and can be read give a principal. -/
theorem ofClaims_ok (hrequired : HasRequired claims) (h : Readable claims) :
    ∃ p, ofClaims claims = .ok p := by
  have hclaim : ∀ name ∈ requiredClaims, ∃ v, getItem claims name = .ok v := by
    intro name hname
    obtain ⟨v, hv⟩ := hrequired name hname
    exact ⟨v, by rw [getItem, hv]⟩
  obtain ⟨scopes, hscopes⟩ :
      ∃ scopes, scopeSet ((dictGet claims "scope").getD (.str "")) = .ok scopes := by
    rw [scopeSet_ok_iff]
    cases hscope : dictGet claims "scope" with
    | none => trivial
    | some v => exact h.scope v hscope
  obtain ⟨delegator, hdelegator⟩ := getSub_ok (v := (dictGet claims "act").getD .none) (by
    cases hact : dictGet claims "act" with
    | none => exact Or.inl rfl
    | some v => exact h.actor v hact)
  obtain ⟨subject, hsubject⟩ := hclaim "sub" (by decide)
  obtain ⟨tokenId, htokenId⟩ := hclaim "jti" (by decide)
  obtain ⟨issuedAt, hissuedAt⟩ := hclaim "iat" (by decide)
  obtain ⟨expiresAt, hexpiresAt⟩ := hclaim "exp" (by decide)
  simp only [ofClaims, hscopes, hsubject, hdelegator, htokenId, hissuedAt, hexpiresAt]
  exact ⟨_, rfl⟩

/-- Claims that cannot be read end it with an exception of the language. -/
theorem ofClaims_error (hrequired : HasRequired claims) (h : ¬ Readable claims) :
    ∃ typeName, ofClaims claims = .error (.other typeName) := by
  cases hscopes : scopeSet ((dictGet claims "scope").getD (.str "")) with
  | error exc =>
      rw [ofClaims, hscopes, scopeSet_error hscopes]
      exact ⟨_, rfl⟩
  | ok scopes =>
      obtain ⟨subject, hsub⟩ := hrequired "sub" (by decide)
      have hsubject : getItem claims "sub" = .ok subject := by rw [getItem, hsub]
      have hactor : ¬ ActorReadable ((dictGet claims "act").getD .none) := by
        refine fun hactor => h ⟨fun v hv => ?_, fun v hv => ?_⟩
        · rw [hv] at hscopes
          exact scopeSet_ok_iff.mp ⟨scopes, hscopes⟩
        · rwa [hv] at hactor
      rw [ofClaims, hscopes]
      simp only [hsubject, getSub_error hactor]
      exact ⟨_, rfl⟩

namespace TokenValidator

variable {v : TokenValidator F} {now : ℤ} {bearer : String}

/-- What the validation of a token means for a request: it ends in a principal
or an `AuthError`, and the middleware goes on with the principal or answers
with 401. -/
structure ClosedOn (v : TokenValidator F) (now : ℤ) (bearer : String) : Prop where
  validates : FailsClosed (v.validate now bearer)
  answers : ∀ [UnicodeDb] (settings : HttpSettings) (read : DecodedPrincipal F → Principal)
    (callNext : CallNext F) (req : HttpRequest) (ctx : Option RequestContext),
    AuthMiddleware.bearerToken req = some bearer → req.path ∉ publicPaths →
    let outcome := AuthMiddleware.dispatch settings
      (fun token => (v.validate now token).map read) callNext req ctx
    (∃ p, v.validate now bearer = .ok p ∧
      outcome = callNext { req with state := { req.state with principal := read p } } ctx) ∨
    ∃ r, outcome = .responded r ∧ r.statusCode = 401

/-- The middleware is closed if the validation is. -/
theorem closedOn_of_failsClosed (h : FailsClosed (v.validate now bearer)) :
    v.ClosedOn now bearer := by
  refine ⟨h, fun settings read callNext req ctx hbearer hpath => ?_⟩
  simp only [AuthMiddleware.dispatch, hpath, hbearer, if_false]
  cases hvalid : v.validate now bearer with
  | ok p => exact Or.inl ⟨p, rfl, rfl⟩
  | error exc =>
      obtain ⟨e, rfl, hcls⟩ := h exc hvalid
      refine Or.inr ⟨AuthMiddleware.unauthenticated settings e.code, ?_, rfl⟩
      simp only [Except.map, hcls, if_true]

/-- **When the validation fails closed.**  On claims that `jwt.decode`
returns, exactly if the token is the one for local development or the scope
and the actor can be read. -/
theorem closedOn_iff (hdecode : v.decode bearer = .ok claims) (hrequired : HasRequired claims) :
    v.ClosedOn now bearer ↔ v.IsDevToken bearer ∨ Readable claims := by
  by_cases hdev : v.IsDevToken bearer
  · refine iff_of_true (closedOn_of_failsClosed fun exc hexc => ?_) (Or.inl hdev)
    rw [validate, if_pos hdev] at hexc
    cases hexc
  · have hvalidate : v.validate now bearer = ofClaims claims := by
      rw [validate, if_neg hdev, hdecode]
    constructor
    · intro hclosed
      refine Or.inr (not_not.mp fun hunreadable => ?_)
      obtain ⟨typeName, herror⟩ := ofClaims_error hrequired hunreadable
      obtain ⟨e, he, -⟩ := hclosed.validates _ (hvalidate.trans herror)
      cases he
    · rintro (h | hreadable)
      · exact absurd h hdev
      · obtain ⟨p, hp⟩ := ofClaims_ok hrequired hreadable
        refine closedOn_of_failsClosed fun exc hexc => ?_
        cases (hvalidate.trans hp).symm.trans hexc

/-- The claims of an issuer that writes `null` for an absent scope, or
something else. -/
def issuedClaims (scope : Value WholeFloat) : List (String × Value WholeFloat) :=
  [("iss", .str "https://auth.atlas.local"), ("aud", .str "atlas-mcp"), ("sub", .str "agent:ops"),
    ("jti", .str "t1"), ("iat", .int 0), ("exp", .int 900), ("scope", scope)]

/-- A validator for which every bearer carries these claims. -/
def issuer (scope : Value WholeFloat) : TokenValidator WholeFloat where
  decode _ := .ok (issuedClaims scope)

theorem issuedClaims_hasRequired (scope : Value WholeFloat) : HasRequired (issuedClaims scope) := by
  simp [HasRequired, requiredClaims, issuedClaims, dictGet, List.lookup]

/-- A scope that is `null`. -/
theorem null_scope_escapes : HasRequired (issuedClaims .none) ∧
    (issuer .none).decode "t" = .ok (issuedClaims .none) ∧ ¬ (issuer .none).ClosedOn 0 "t" := by
  refine ⟨issuedClaims_hasRequired .none, rfl, fun hclosed => ?_⟩
  have herror : (issuer .none).validate 0 "t" = .error (.other "TypeError") := by rfl
  obtain ⟨e, he, -⟩ := hclosed.validates _ herror
  cases he

/-- A token with a list of scopes is accepted or refused as the middleware
expects it. -/
theorem listed_scopes_closed : (issuer (.list [.str "tool:s3:read"])).ClosedOn 0 "t" := by
  refine (closedOn_iff rfl (issuedClaims_hasRequired _)).mpr (Or.inr ⟨?_, ?_⟩)
  · intro v hv
    obtain rfl := Option.some.inj hv
    simp [ScopeReadable, hashable]
  · intro v hv
    cases hv

end TokenValidator

end Server
