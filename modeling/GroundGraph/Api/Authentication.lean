import GroundGraph.Knowledge.Payload
import GroundGraph.Library.LabelledSystem
import GroundGraph.Operator.Proposals

/-! Who a request comes from: `get_identity` of `api/dependencies.py` and `_get_operator_identity`
of `api/operator.py`, under the settings of `application/settings.py`. The process keeps the
first key set that it could fetch, and all its requests are judged by it.
-/

set_option autoImplicit false

namespace GroundGraph.Api

open GroundGraph.Knowledge (truthy)
open GroundGraph.Operator (OperatorIdentity)

inductive AppEnv where
  | development | test | staging | production
  deriving DecidableEq, Repr

inductive AuthMode where
  | localMode | headerMode | oidcMode
  deriving DecidableEq, Repr

/-- The settings that the authentication and the check of a production configuration read. -/
structure SettingsFields where
  appEnv : AppEnv := .development
  openaiApiKey : String := ""
  postgresPassword : String := "change-me-local-only"
  neo4jPassword : String := "change-me-local-only"
  s3SecretKey : String := "change-me-local-only"
  otelExporterOtlpInsecure : Bool := true
  authMode : AuthMode := .localMode
  authDefaultPrincipal : String := "engineering"
  authDefaultTenant : String := "default"
  authTrustedHeaders : Bool := false
  authJwksUrl : Option String := none
  authIssuer : Option String := none
  authAudience : Option String := none

/-- `problems` of `_production_fail_closed`. -/
def SettingsFields.problems (s : SettingsFields) : List String :=
  (if s.openaiApiKey = "" then ["OPENAI_API_KEY is empty in production"] else []) ++
  (if "change-me-local-only" ∈ [s.postgresPassword, s.neo4jPassword, s.s3SecretKey] then
    ["a default placeholder secret is still in use"] else []) ++
  (if s.otelExporterOtlpInsecure then ["OTEL_EXPORTER_OTLP_INSECURE=true in production"] else []) ++
  (if s.authMode = .localMode then ["AUTH_MODE=local in production"] else []) ++
  (if s.authTrustedHeaders then
    ["AUTH_TRUSTED_HEADERS=true in production: principals are " ++
      "sourced from headers and must be set by a trusted proxy"] else [])

structure AuthSettings extends SettingsFields where
  productionFailClosed : appEnv = .production → toSettingsFields.problems = []

/-- `Settings(…)`; the error is the text of the validator's `ValueError`. -/
def AuthSettings.make? (s : SettingsFields) : Except String AuthSettings :=
  if h : s.appEnv = .production → s.problems = [] then .ok ⟨s, h⟩
  else .error ("Production configuration is unsafe: " ++ "; ".intercalate s.problems)

/-- An `HTTPException`, or what leaves the handler as something else. -/
inductive AuthError where
  | http (statusCode : Nat) (detail : String)
  | raised (typeName : String)
  deriving DecidableEq, Repr

structure Jwk where
  kid : Option String
  material : JsonObject

/-- The functions of `jose.jwt`, with the texts of their errors, and `str` of a claim. -/
structure JwtLibrary where
  unverifiedKid : String → Except String (Option String)
  unverifiedClaims : String → Option JsonObject
  decode : String → Jwk → Option String → Option String → Except String JsonObject
  str : JsonValue → String

abbrev JwksCache := List (String × List Jwk)

/-- `_fetch_jwks`; `fetched` is what the provider would send now. -/
def fetchJwks (cache : JwksCache) (jwksUrl : String) (fetched : Except String (List Jwk)) :
    JwksCache × Except String (List Jwk) :=
  match cache.lookup jwksUrl with
  | some keys => (cache, .ok keys)
  | none =>
    match fetched with
    | .ok keys => ((jwksUrl, keys) :: cache, .ok keys)
    | .error e => (cache, .error e)

structure Identity where
  tenantId : String
  principal : String
  deriving DecidableEq

/-- `claims.get(a) or claims.get(b) or claims.get(c)`, where that is truthy. -/
def firstClaim (claims : JsonObject) (names : List String) : Option JsonValue :=
  names.findSome? fun name => (claims.find name).filter truthy

def tenantClaims : List String := ["tenant_id", "tid", "org_id"]

def principalClaims : List String := ["sub", "email", "preferred_username"]

/-- The fields of an `Identity` are texts. -/
def identityOfClaims (claims : JsonObject) : Except AuthError Identity :=
  match firstClaim claims tenantClaims, firstClaim claims principalClaims with
  | none, _ => .error (.http 401 "JWT missing required tenant_id claim")
  | some _, none => .error (.http 401 "JWT missing required principal (sub) claim")
  | some (.str tenantId), some (.str principal) => .ok ⟨tenantId, principal⟩
  | some _, some _ => .error (.raised "ValidationError")

/-- The first key with the id; one without any entry is none. -/
def matchingKey (keys : List Jwk) (kid : Option String) : Option Jwk :=
  (keys.find? fun key => decide (key.kid = kid)).filter fun key =>
    key.kid.isSome || !key.material.isEmpty

def verifyWith (jwt : JwtLibrary) (s : AuthSettings) (token : String) (kid : Option String)
    (keys : List Jwk) : Except AuthError Identity :=
  match matchingKey keys kid with
  | none => .error (.http 401 "No matching key found in JWKS")
  | some key =>
    match jwt.decode token key s.authAudience s.authIssuer with
    | .error exc => .error (.http 401 ("JWT verification failed: " ++ exc))
    | .ok claims => identityOfClaims claims

/-- `_get_identity_from_jwt`. -/
def identityFromJwt (jwt : JwtLibrary) (s : AuthSettings) (cache : JwksCache)
    (fetched : Except String (List Jwk)) (token : String) :
    JwksCache × Except AuthError Identity :=
  match jwt.unverifiedKid token with
  | .error exc => (cache, .error (.http 401 ("Invalid JWT header: " ++ exc)))
  | .ok kid =>
    match s.authJwksUrl.filter (· ≠ "") with
    | none => (cache, .error (.http 500 "auth_jwks_url not configured for oidc auth mode"))
    | some jwksUrl =>
      let (cache, jwks) := fetchJwks cache jwksUrl fetched
      (cache, match jwks with
        | .error exc => .error (.http 503 ("Failed to fetch JWKS: " ++ exc))
        | .ok keys => verifyWith jwt s token kid keys)

/-- What follows `Bearer `. -/
def bearerToken (authorization : String) : Option String :=
  if "Bearer ".toList.isPrefixOf authorization.toList then
    some (String.ofList (authorization.toList.drop 7))
  else none

inductive Endpoint where
  | query | operator
  deriving DecidableEq, Repr

/-- The headers, and what the provider would send while the request is handled. -/
structure AuthRequest where
  endpoint : Endpoint
  xTenantId : Option String := none
  xPrincipal : Option String := none
  authorization : Option String := none
  fetched : Except String (List Jwk)

def missing (header : Option String) : Bool := header.all fun text => decide (text = "")

def headerIdentity (s : AuthSettings) (r : AuthRequest) : Except AuthError Identity :=
  if s.authTrustedHeaders = false then
    .error (.http 401 ("X-Tenant-ID/X-Principal headers not trusted in header auth mode. " ++
      "Set AUTH_TRUSTED_HEADERS=true only when behind a trusted gateway."))
  else if missing r.xTenantId then .error (.http 401 "X-Tenant-ID header required")
  else if missing r.xPrincipal then .error (.http 401 "X-Principal header required")
  else .ok ⟨r.xTenantId.getD "", r.xPrincipal.getD ""⟩

def getIdentity (jwt : JwtLibrary) (s : AuthSettings) (cache : JwksCache) (r : AuthRequest) :
    JwksCache × Except AuthError Identity :=
  match s.authMode with
  | .oidcMode =>
    match r.authorization.bind bearerToken with
    | none => (cache, .error (.http 401 "Bearer token required for oidc auth mode"))
    | some token => identityFromJwt jwt s cache r.fetched token
  | .headerMode => (cache, headerIdentity s r)
  | .localMode => (cache, .ok ⟨s.authDefaultTenant, s.authDefaultPrincipal⟩)

def allowedOperatorRoles : List String := ["operator", "admin"]

/-- `role in ALLOWED_OPERATOR_ROLES`; a list or an object has no hash. -/
def roleIn : JsonValue → Except AuthError Bool
  | .str role => .ok (decide (role ∈ allowedOperatorRoles))
  | .list _ => .error (.raised "TypeError")
  | .dict _ => .error (.raised "TypeError")
  | _ => .ok false

def hasRole (claims : JsonObject) : Except AuthError Bool :=
  match (claims.find "role").getD (.str "") with
  | .list roles => (roles.mapM roleIn).map fun found => found.any id
  | role => roleIn role

/-- `claims.get("is_global_operator", False) is True`. -/
def isGlobalOperator (claims : JsonObject) : Bool :=
  match claims.find "is_global_operator" with
  | some (.bool true) => true
  | _ => false

/-- The check of the role, and the identity of an operator who passes it. -/
def operatorOf (claims : JsonObject) (operatorId tenantId : String) :
    Except AuthError OperatorIdentity :=
  match hasRole claims with
  | .error e => .error e
  | .ok false => .error (.http 403 "Operator or admin role required")
  | .ok true => .ok ⟨operatorId, tenantId, isGlobalOperator claims⟩

def operatorToken (r : AuthRequest) : Except AuthError String :=
  if missing r.authorization then .error (.http 401 "Authorization header required")
  else
    match r.authorization.bind bearerToken with
    | none => .error (.http 401 "Bearer token required")
    | some token => .ok token

/-- In local mode the claims are believed, where headers are. -/
def localOperator (jwt : JwtLibrary) (s : AuthSettings) (token : String) :
    Except AuthError OperatorIdentity :=
  if s.authTrustedHeaders = false then
    .error (.http 403 "Header auth not allowed in this environment")
  else
    match jwt.unverifiedClaims token with
    | none => .error (.http 401 "Invalid JWT format")
    | some claims =>
      operatorOf claims (jwt.str ((claims.find "sub").getD (.str "unknown")))
        (jwt.str ((claims.find "tenant_id").getD (.str s.authDefaultTenant)))

/-- `_get_operator_identity`. The role is read from the token once more, and it is empty where it
cannot be read. -/
def getOperatorIdentity (jwt : JwtLibrary) (s : AuthSettings) (cache : JwksCache)
    (r : AuthRequest) : JwksCache × Except AuthError OperatorIdentity :=
  match operatorToken r with
  | .error e => (cache, .error e)
  | .ok token =>
    if s.authMode = .localMode then (cache, localOperator jwt s token)
    else
      let (cache, identity) := identityFromJwt jwt s cache r.fetched token
      (cache, identity.bind fun identity =>
        operatorOf ((jwt.unverifiedClaims token).getD []) identity.principal identity.tenantId)

inductive Grant where
  | identity (i : Identity)
  | operator (o : OperatorIdentity)

def authenticate (jwt : JwtLibrary) (s : AuthSettings) (cache : JwksCache) (r : AuthRequest) :
    JwksCache × Except AuthError Grant :=
  match r.endpoint with
  | .query => ((getIdentity jwt s cache r).1, (getIdentity jwt s cache r).2.map .identity)
  | .operator =>
    ((getOperatorIdentity jwt s cache r).1, (getOperatorIdentity jwt s cache r).2.map .operator)

/-- The process, with the outcomes of its requests so far. -/
structure AuthState where
  cache : JwksCache
  log : List (AuthRequest × Except AuthError Grant)

def authSystem (jwt : JwtLibrary) (s : AuthSettings) : LabelledSystem AuthState AuthRequest where
  start := ⟨[], []⟩
  step state r :=
    some ⟨(authenticate jwt s state.cache r).1,
      state.log ++ [(r, (authenticate jwt s state.cache r).2)]⟩

/-! ## The key set that is kept -/

def verifiesTokens (s : AuthSettings) (r : AuthRequest) : Bool :=
  match r.endpoint with
  | .query => decide (s.authMode = .oidcMode)
  | .operator => decide (s.authMode ≠ .localMode)

/-- The request has a token to be verified, and there is a provider to ask for keys. -/
def asksKeys (jwt : JwtLibrary) (s : AuthSettings) (r : AuthRequest) : Bool :=
  verifiesTokens s r &&
  (r.authorization.bind bearerToken).any (fun token => (jwt.unverifiedKid token).isOk) &&
  (s.authJwksUrl.filter (· ≠ "")).isSome

/-- The key set that the process gets from the provider at this request. -/
def offered (jwt : JwtLibrary) (s : AuthSettings) (r : AuthRequest) : Option (List Jwk) :=
  if asksKeys jwt s r then r.fetched.toOption else none

/-- The keys that are kept, or else those that are sent. -/
def available (kept : Option (List Jwk)) (fetched : Except String (List Jwk)) :
    Except String (List Jwk) :=
  match kept with
  | some keys => .ok keys
  | none => fetched

/-- The request, as it would be if the provider sent the kept keys again. -/
def pinned (kept : Option (List Jwk)) (r : AuthRequest) : AuthRequest :=
  { r with fetched := available kept r.fetched }

/-- The outcomes of a process that keeps the first key set and nothing else. -/
def judgedLog (jwt : JwtLibrary) (s : AuthSettings) :
    Option (List Jwk) → List AuthRequest → List (AuthRequest × Except AuthError Grant)
  | _, [] => []
  | kept, r :: rest =>
    (r, (authenticate jwt s [] (pinned kept r)).2) ::
      judgedLog jwt s (kept.or (offered jwt s r)) rest

def Keeps (s : AuthSettings) (cache : JwksCache) (kept : Option (List Jwk)) : Prop :=
  ∀ jwksUrl, s.authJwksUrl.filter (· ≠ "") = some jwksUrl → cache.lookup jwksUrl = kept

section
variable {jwt : JwtLibrary} {s : AuthSettings} {cache : JwksCache} {kept : Option (List Jwk)}

theorem keeps_nil : Keeps s [] none := fun _ _ => rfl

theorem fetchJwks_of_kept {jwksUrl : String} (h : cache.lookup jwksUrl = kept)
    (fetched : Except String (List Jwk)) :
    (fetchJwks cache jwksUrl fetched).2 = available kept fetched ∧
      (fetchJwks cache jwksUrl fetched).1.lookup jwksUrl = kept.or fetched.toOption := by
  unfold fetchJwks
  rw [h]
  cases kept with
  | some keys => exact ⟨rfl, h⟩
  | none =>
    cases fetched with
    | ok keys => simp [available, Except.toOption]
    | error e => exact ⟨rfl, h⟩

def judgeToken (jwt : JwtLibrary) (s : AuthSettings) (token : String)
    (keys : Except String (List Jwk)) : Except AuthError Identity :=
  match jwt.unverifiedKid token with
  | .error exc => .error (.http 401 ("Invalid JWT header: " ++ exc))
  | .ok kid =>
    match s.authJwksUrl.filter (· ≠ "") with
    | none => .error (.http 500 "auth_jwks_url not configured for oidc auth mode")
    | some _ =>
      match keys with
      | .error exc => .error (.http 503 ("Failed to fetch JWKS: " ++ exc))
      | .ok keys => verifyWith jwt s token kid keys

theorem identityFromJwt_snd (h : Keeps s cache kept) (fetched : Except String (List Jwk))
    (token : String) :
    (identityFromJwt jwt s cache fetched token).2 =
      judgeToken jwt s token (available kept fetched) := by
  unfold identityFromJwt judgeToken
  cases jwt.unverifiedKid token with
  | error exc => rfl
  | ok kid =>
    cases hurl : s.authJwksUrl.filter (· ≠ "") with
    | none => rfl
    | some jwksUrl =>
      obtain ⟨hkeys, -⟩ := fetchJwks_of_kept (h jwksUrl hurl) fetched
      simp only [← hkeys]

theorem getIdentity_pinned (h : Keeps s cache kept) (r : AuthRequest) :
    (getIdentity jwt s cache r).2 = (getIdentity jwt s [] (pinned kept r)).2 := by
  have hauthorization : (pinned kept r).authorization = r.authorization := rfl
  unfold getIdentity
  rw [hauthorization]
  cases s.authMode with
  | localMode => rfl
  | headerMode => rfl
  | oidcMode =>
    cases r.authorization.bind bearerToken with
    | none => rfl
    | some token =>
      simp only [identityFromJwt_snd h, identityFromJwt_snd keeps_nil]
      rfl

theorem getOperatorIdentity_pinned (h : Keeps s cache kept) (r : AuthRequest) :
    (getOperatorIdentity jwt s cache r).2 = (getOperatorIdentity jwt s [] (pinned kept r)).2 := by
  have htoken : operatorToken (pinned kept r) = operatorToken r := rfl
  unfold getOperatorIdentity
  rw [htoken]
  cases operatorToken r with
  | error e => rfl
  | ok token =>
    simp only
    split
    · rfl
    · simp only [identityFromJwt_snd h, identityFromJwt_snd keeps_nil]
      rfl

theorem authenticate_pinned (h : Keeps s cache kept) (r : AuthRequest) :
    (authenticate jwt s cache r).2 = (authenticate jwt s [] (pinned kept r)).2 := by
  have hendpoint : (pinned kept r).endpoint = r.endpoint := rfl
  unfold authenticate
  rw [hendpoint]
  cases r.endpoint with
  | query => simp only [getIdentity_pinned h]
  | operator => simp only [getOperatorIdentity_pinned h]

theorem identityFromJwt_keeps (h : Keeps s cache kept) (fetched : Except String (List Jwk))
    (token : String) :
    Keeps s (identityFromJwt jwt s cache fetched token).1
      (kept.or (if (jwt.unverifiedKid token).isOk ∧ (s.authJwksUrl.filter (· ≠ "")).isSome then
        fetched.toOption else none)) := by
  intro jwksUrl hurl
  unfold identityFromJwt
  cases jwt.unverifiedKid token with
  | error exc => simpa [Except.isOk, Except.toBool] using h jwksUrl hurl
  | ok kid =>
    simp only [hurl]
    simpa [Except.isOk, Except.toBool] using (fetchJwks_of_kept (h jwksUrl hurl) fetched).2

theorem operatorToken_ok_iff {r : AuthRequest} {token : String} :
    operatorToken r = .ok token ↔ r.authorization.bind bearerToken = some token := by
  unfold operatorToken
  cases hheader : r.authorization with
  | none => simp [missing]
  | some text =>
    by_cases hempty : text = ""
    · subst hempty
      simp [missing, bearerToken]
    · cases htoken : bearerToken text <;> simp [missing, hempty, htoken]

theorem authenticate_keeps (h : Keeps s cache kept) (r : AuthRequest) :
    Keeps s (authenticate jwt s cache r).1 (kept.or (offered jwt s r)) := by
  unfold authenticate offered asksKeys verifiesTokens
  cases r.endpoint with
  | query =>
    simp only
    unfold getIdentity
    cases s.authMode with
    | localMode => simpa using h
    | headerMode => simpa using h
    | oidcMode =>
      cases r.authorization.bind bearerToken with
      | none => simpa using h
      | some token => simpa using identityFromJwt_keeps h r.fetched token
  | operator =>
    simp only
    unfold getOperatorIdentity
    cases htoken : operatorToken r with
    | error e =>
      have hnone : r.authorization.bind bearerToken = none := by
        cases hbearer : r.authorization.bind bearerToken with
        | none => rfl
        | some token =>
          rw [operatorToken_ok_iff.mpr hbearer] at htoken
          cases htoken
      simpa [hnone] using h
    | ok token =>
      rw [operatorToken_ok_iff.mp htoken]
      simp only
      split
      · rename_i hlocal
        simpa [hlocal] using h
      · rename_i hmode
        simpa [hmode] using identityFromJwt_keeps h r.fetched token

/-- The process does with its cache what it would do with the kept keys alone. -/
theorem run_log {requests : List AuthRequest} {state t : AuthState} (h : Keeps s state.cache kept)
    (hrun : (authSystem jwt s).run state requests = some t) :
    t.log = state.log ++ judgedLog jwt s kept requests := by
  induction requests generalizing state kept with
  | nil =>
    obtain rfl := Option.some.inj hrun
    simp [judgedLog]
  | cons r rest ih =>
    obtain ⟨m, hm, hrest⟩ := (authSystem jwt s).run_cons_iff.mp hrun
    obtain rfl := Option.some.inj hm
    rw [ih (authenticate_keeps h r) hrest, judgedLog, authenticate_pinned h]
    simp

end

/-- Tenant and principal are texts of the claims, and are not empty. -/
structure SaysIdentity (claims : JsonObject) (tenantId principal : String) : Prop where
  tenantId_ne : tenantId ≠ ""
  principal_ne : principal ≠ ""
  tenant : ∃ name ∈ tenantClaims, claims.find name = some (.str tenantId)
  sub : ∃ name ∈ principalClaims, claims.find name = some (.str principal)

/-- The bearer token of the request verifies under one of the keys, and the grant is what its claims
say. -/
structure Verified (jwt : JwtLibrary) (s : AuthSettings) (keys : List Jwk) (r : AuthRequest)
    (grant : Grant) : Prop where
  claims : ∃ token, r.authorization = some ("Bearer " ++ token) ∧
    ∃ key ∈ keys, jwt.unverifiedKid token = .ok key.kid ∧
      ∃ claims, jwt.decode token key s.authAudience s.authIssuer = .ok claims ∧
        match grant with
        | .identity i => SaysIdentity claims i.tenantId i.principal
        | .operator o => SaysIdentity claims o.tenantId o.operatorId ∧
          ∃ unverified, jwt.unverifiedClaims token = some unverified ∧
            hasRole unverified = .ok true ∧ o.isGlobal = isGlobalOperator unverified

section
variable {jwt : JwtLibrary} {s : AuthSettings}

theorem production_modes (h : s.appEnv = .production) :
    s.authMode ≠ .localMode ∧ s.authTrustedHeaders = false := by
  have hproblems := s.productionFailClosed h
  simp only [SettingsFields.problems, List.append_eq_nil_iff, ite_eq_right_iff] at hproblems
  obtain ⟨⟨_, hmode⟩, htrusted⟩ := hproblems
  refine ⟨fun hlocal => ?_, ?_⟩
  · cases hmode hlocal
  · by_contra hheaders
    cases htrusted (by simpa using hheaders)

theorem firstClaim_some {claims : JsonObject} {names : List String} {text : String}
    (h : firstClaim claims names = some (.str text)) :
    text ≠ "" ∧ ∃ name ∈ names, claims.find name = some (.str text) := by
  obtain ⟨name, hname, hfilter⟩ := List.exists_of_findSome?_eq_some h
  obtain ⟨hfind, htruthy⟩ := Option.filter_eq_some_iff.mp hfilter
  exact ⟨of_decide_eq_true htruthy, name, hname, hfind⟩

theorem identityOfClaims_ok {claims : JsonObject} {i : Identity}
    (h : identityOfClaims claims = .ok i) : SaysIdentity claims i.tenantId i.principal := by
  unfold identityOfClaims at h
  split at h
  · cases h
  · cases h
  · rename_i htenant hprincipal
    obtain rfl := Except.ok.inj h
    obtain ⟨htenant_ne, htenant⟩ := firstClaim_some htenant
    obtain ⟨hprincipal_ne, hprincipal⟩ := firstClaim_some hprincipal
    exact ⟨htenant_ne, hprincipal_ne, htenant, hprincipal⟩
  · cases h

theorem bearerToken_some {authorization token : String}
    (h : bearerToken authorization = some token) : authorization = "Bearer " ++ token := by
  unfold bearerToken at h
  split at h
  · rename_i hprefix
    obtain ⟨rest, hrest⟩ := List.isPrefixOf_iff_prefix.mp hprefix
    obtain rfl := Option.some.inj h
    apply String.ext
    rw [← hrest]
    simp
  · cases h

theorem judgeToken_ok {token : String} {fetched : Except String (List Jwk)} {i : Identity}
    (h : judgeToken jwt s token fetched = .ok i) :
    ∃ keys, fetched = .ok keys ∧ (s.authJwksUrl.filter (· ≠ "")).isSome = true ∧
      ∃ key ∈ keys, jwt.unverifiedKid token = .ok key.kid ∧
        ∃ claims, jwt.decode token key s.authAudience s.authIssuer = .ok claims ∧
          SaysIdentity claims i.tenantId i.principal := by
  unfold judgeToken at h
  split at h
  · cases h
  · rename_i kid hkid
    split at h
    · cases h
    · rename_i jwksUrl hurl
      split at h
      · cases h
      · rename_i keys
        unfold verifyWith at h
        split at h
        · cases h
        · rename_i key hkey
          split at h
          · cases h
          · rename_i claims hclaims
            obtain ⟨hfind, -⟩ := Option.filter_eq_some_iff.mp hkey
            have hsame : key.kid = kid := by simpa using List.find?_some hfind
            exact ⟨keys, rfl, by rw [hurl]; rfl, key, List.mem_of_find?_eq_some hfind,
              by rw [hkid, hsame], claims, hclaims, identityOfClaims_ok h⟩

theorem operatorOf_ok {claims : JsonObject} {operatorId tenantId : String} {o : OperatorIdentity}
    (h : operatorOf claims operatorId tenantId = .ok o) :
    o = ⟨operatorId, tenantId, isGlobalOperator claims⟩ ∧ hasRole claims = .ok true := by
  unfold operatorOf at h
  split at h
  · cases h
  · cases h
  · rename_i hrole
    exact ⟨(Except.ok.inj h).symm, hrole⟩

theorem authorization_of_bearer {r : AuthRequest} {token : String}
    (h : r.authorization.bind bearerToken = some token) :
    r.authorization = some ("Bearer " ++ token) := by
  obtain ⟨authorization, hheader, htoken⟩ := Option.bind_eq_some_iff.mp h
  rw [hheader, bearerToken_some htoken]

theorem getIdentity_production (h : s.appEnv = .production) {r : AuthRequest} {i : Identity}
    (hok : (getIdentity jwt s [] r).2 = .ok i) :
    s.authMode = .oidcMode ∧ ∃ token, r.authorization.bind bearerToken = some token ∧
      judgeToken jwt s token r.fetched = .ok i := by
  obtain ⟨hmode, htrusted⟩ := production_modes h
  unfold getIdentity at hok
  cases hcases : s.authMode with
  | localMode => exact absurd hcases hmode
  | headerMode =>
    simp [hcases, headerIdentity, htrusted] at hok
  | oidcMode =>
    rw [hcases] at hok
    cases htoken : r.authorization.bind bearerToken with
    | none =>
      rw [htoken] at hok
      cases hok
    | some token =>
      rw [htoken] at hok
      simp only [identityFromJwt_snd keeps_nil] at hok
      exact ⟨rfl, token, rfl, hok⟩

theorem getOperatorIdentity_production (h : s.appEnv = .production) {r : AuthRequest}
    {o : OperatorIdentity} (hok : (getOperatorIdentity jwt s [] r).2 = .ok o) :
    ∃ token, r.authorization.bind bearerToken = some token ∧
      ∃ i, judgeToken jwt s token r.fetched = .ok i ∧
        operatorOf ((jwt.unverifiedClaims token).getD []) i.principal i.tenantId = .ok o := by
  obtain ⟨hmode, -⟩ := production_modes h
  unfold getOperatorIdentity at hok
  cases htoken : operatorToken r with
  | error e =>
    rw [htoken] at hok
    cases hok
  | ok token =>
    rw [htoken] at hok
    simp only [if_neg hmode, identityFromJwt_snd keeps_nil] at hok
    refine ⟨token, operatorToken_ok_iff.mp htoken, ?_⟩
    cases hjudge : judgeToken jwt s token (available none r.fetched) with
    | error e =>
      rw [hjudge] at hok
      cases hok
    | ok i =>
      rw [hjudge] at hok
      exact ⟨i, hjudge, hok⟩

theorem asksKeys_of_judged {r : AuthRequest} {token : String} {i : Identity}
    (hverifies : verifiesTokens s r = true)
    (htoken : r.authorization.bind bearerToken = some token)
    (hjudge : judgeToken jwt s token r.fetched = .ok i) : asksKeys jwt s r = true := by
  obtain ⟨_, -, hurl, key, -, hkid, -⟩ := judgeToken_ok hjudge
  rw [asksKeys, hverifies, htoken, hurl]
  simp [hkid, Except.isOk, Except.toBool]

/-- In production a grant takes a key set, and a token that it verifies. -/
theorem authenticate_production (h : s.appEnv = .production) {r : AuthRequest} {grant : Grant}
    (hok : (authenticate jwt s [] r).2 = .ok grant) :
    asksKeys jwt s r = true ∧ ∃ keys, r.fetched = .ok keys ∧ Verified jwt s keys r grant := by
  unfold authenticate at hok
  cases hendpoint : r.endpoint with
  | query =>
    rw [hendpoint] at hok
    cases hidentity : (getIdentity jwt s [] r).2 with
    | error e =>
      simp only [hidentity] at hok
      cases hok
    | ok i =>
      simp only [hidentity] at hok
      obtain rfl := Except.ok.inj hok
      obtain ⟨hmode, token, htoken, hjudge⟩ := getIdentity_production h hidentity
      obtain ⟨keys, hkeys, -, key, hkey, hkid, claims, hclaims, hsays⟩ := judgeToken_ok hjudge
      have hverifies : verifiesTokens s r = true := by simp [verifiesTokens, hendpoint, hmode]
      refine ⟨asksKeys_of_judged hverifies htoken hjudge, keys, hkeys, ?_⟩
      exact ⟨token, authorization_of_bearer htoken, key, hkey, hkid, claims, hclaims, hsays⟩
  | operator =>
    rw [hendpoint] at hok
    cases hidentity : (getOperatorIdentity jwt s [] r).2 with
    | error e =>
      simp only [hidentity] at hok
      cases hok
    | ok o =>
      simp only [hidentity] at hok
      obtain rfl := Except.ok.inj hok
      obtain ⟨token, htoken, i, hjudge, hrole⟩ := getOperatorIdentity_production h hidentity
      obtain ⟨keys, hkeys, -, key, hkey, hkid, claims, hclaims, hsays⟩ := judgeToken_ok hjudge
      have hlocal := (production_modes h).1
      have hverifies : verifiesTokens s r = true := by simp [verifiesTokens, hendpoint, hlocal]
      refine ⟨asksKeys_of_judged hverifies htoken hjudge, keys, hkeys, ?_⟩
      obtain ⟨rfl, hallowed⟩ := operatorOf_ok hrole
      refine ⟨token, authorization_of_bearer htoken, key, hkey, hkid, claims, hclaims, hsays, ?_⟩
      cases hunverified : jwt.unverifiedClaims token with
      | none =>
        rw [hunverified] at hallowed
        cases hallowed
      | some unverified =>
        rw [hunverified] at hallowed
        exact ⟨unverified, rfl, hallowed, rfl⟩

/-- The key set of a grant is the first one that was offered. -/
theorem judgedLog_production (h : s.appEnv = .production) {requests : List AuthRequest}
    {kept : Option (List Jwk)} {e : AuthRequest × Except AuthError Grant}
    (he : e ∈ judgedLog jwt s kept requests) {grant : Grant} (hok : e.2 = .ok grant) :
    ∃ keys, kept.or (requests.findSome? (offered jwt s)) = some keys ∧
      Verified jwt s keys e.1 grant := by
  induction requests generalizing kept with
  | nil => cases he
  | cons r rest ih =>
    rcases List.mem_cons.mp he with rfl | hrest
    · obtain ⟨hasks, keys, hkeys, hverified⟩ := authenticate_production h hok
      have hclaims : Verified jwt s keys r grant := ⟨hverified.claims⟩
      refine ⟨keys, ?_, hclaims⟩
      cases kept with
      | some kept => exact congrArg some (Except.ok.inj hkeys)
      | none =>
        have hsent : r.fetched = .ok keys := hkeys
        have hasked : asksKeys jwt s r = true := hasks
        simp [offered, hasked, hsent, Except.toOption]
    · obtain ⟨keys, hkeys, hverified⟩ := ih hrest
      refine ⟨keys, ?_, hverified⟩
      rw [← hkeys, List.findSome?_cons, Option.or_assoc]
      cases offered jwt s r <;> rfl

theorem judgedLog_append (kept : Option (List Jwk)) (before after : List AuthRequest) :
    judgedLog jwt s kept (before ++ after) = judgedLog jwt s kept before ++
      judgedLog jwt s (kept.or (before.findSome? (offered jwt s))) after := by
  induction before generalizing kept with
  | nil => simp [judgedLog]
  | cons r rest ih =>
    rw [List.cons_append, judgedLog, judgedLog, ih, List.findSome?_cons, Option.or_assoc]
    cases offered jwt s r <;> simp

theorem length_judgedLog (kept : Option (List Jwk)) (requests : List AuthRequest) :
    (judgedLog jwt s kept requests).length = requests.length := by
  induction requests generalizing kept with
  | nil => rfl
  | cons r rest ih => simp [judgedLog, ih]

end

def productionSettings : AuthSettings where
  appEnv := .production
  openaiApiKey := "k"
  postgresPassword := "p"
  neo4jPassword := "n"
  s3SecretKey := "s"
  otelExporterOtlpInsecure := false
  authMode := .oidcMode
  authJwksUrl := some "https://idp"
  productionFailClosed := by decide

/-- A token is the id of its key, and all tokens are of one operator. -/
def keyedTokens : JwtLibrary where
  unverifiedKid := fun token => .ok (some token)
  unverifiedClaims := fun _ => some [("role", .str "operator")]
  decode := fun token key _ _ =>
    if key.kid = some token then .ok [("sub", .str "ada"), ("tid", .str "t")]
    else .error "signature"
  str := fun _ => ""

def tokenRequest (endpoint : Endpoint) (token : String) (fetched : Except String (List Jwk)) :
    AuthRequest :=
  { endpoint := endpoint, authorization := some ("Bearer " ++ token), fetched := fetched }

/-- The provider is down, then has the key `a`, and then only the key `b`. -/
def rotation : List AuthRequest :=
  [tokenRequest .query "a" (.error "down"),
   tokenRequest .query "a" (.ok [⟨some "a", []⟩]),
   tokenRequest .operator "a" (.ok [⟨some "b", []⟩]),
   tokenRequest .query "b" (.ok [⟨some "b", []⟩])]

end GroundGraph.Api
