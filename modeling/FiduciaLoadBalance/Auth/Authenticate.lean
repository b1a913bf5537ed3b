import FiduciaLoadBalance.Auth.Verify
import FiduciaLoadBalance.Concurrency.Proc
import FiduciaLoadBalance.Reference
import FiduciaLoadBalance.Table.Basic

/-!
# Authentication

Who a request comes from, as a process: it reads the headers on its own, and asks its
caches, the auth service, the clocks and the revocation gate, all of which are calls
answered from outside.

* `requestIdentityWithSecret` — an edge's proof first, else the raw credential;
* `authenticateApiKey`, `authenticateJwt` — a credential decided by a cached decision, or
  by what the auth service says;
* `forged_headers_ignored` — without the proof, no identity header has any influence.
-/

namespace LoadBalance

open Http Text Conc

namespace Auth

open Revocation (Claims Authorization Unavailable)

/-! ## Calls -/

/-- What comes of a request to the auth service. -/
inductive Fetched : Type
  | failed
  /-- An answer; its body can break off. -/
  | response (status : StatusCode) (body : Option Bytes)

inductive Call : Type
  /-- The cached decision on a credential, if it has not expired. -/
  | cachedDecision (key : String)
  | insertDecision (key : String) (identity : Option VerifiedIdentity) (ttl : ℕ) (now : Instant)
  | introspect (apiKey : String)
  /-- The cached keys, if they are recent enough. -/
  | cachedJwks
  | fetchJwks
  | storeJwks (jwks : List Jwk) (now : Instant)
  | instantNow
  | unixSecs
  | authorizeRevocation (claims : Claims) (now : ℕ)

/-- The type of the answer to a call. -/
@[reducible] def Call.Answer : Call → Type
  | .cachedDecision _ => Option (Option VerifiedIdentity)
  | .insertDecision _ _ _ _ => Unit
  | .introspect _ => Fetched
  | .cachedJwks => Option (List Jwk)
  | .fetchJwks => Fetched
  | .storeJwks _ _ => Unit
  | .instantNow => Instant
  | .unixSecs => ℕ
  | .authorizeRevocation _ _ => Authorization

abbrev Task : Type → Type := Proc Call Call.Answer

abbrev TaskEvent : Type := Event Call Call.Answer

/-- The part of the configuration that decides. -/
structure AuthConfig where
  required : Bool
  allowApiKeys : Bool
  allowJwts : Bool
  jwtIssuer : String
  jwtAudience : String
  cacheTtl : ℕ
  negativeCacheTtl : ℕ

/-! ## Responses -/

def noStore : HeaderValue := ⟨utf8 "no-store", by decide⟩

def noCache : HeaderValue := ⟨utf8 "no-cache", by decide⟩

def authResponse (env : Env) (status : StatusCode) (error detail : String) : Response :=
  ((jsonResponse env status (.ofFields [("error", .string error), ("detail", .string detail)])
    ).withHeader "cache-control" noStore).withHeader "pragma" noCache

def invalidApiKey (env : Env) : Response :=
  authResponse env .unauthorized "invalid_api_key" "invalid api key"

def invalidJwt (env : Env) : Response :=
  authResponse env .unauthorized "invalid_jwt" "invalid or expired jwt"

/-! ## Credentials -/

def bearerToken (value : String) : Option String :=
  (splitOnceWhitespace (trim value)).bind fun parts =>
    let token := trim parts.2
    if eqIgnoreAsciiCase parts.1 "bearer" ∧ token ≠ "" then some token else none

/-- The credential of a request: a bearer token, or else an API key header. -/
def extractCredential (headers : HeaderMap) : Option String :=
  (((headers.get "authorization").bind HeaderValue.toStr).bind bearerToken).or
    ((((headers.get "x-api-key").bind HeaderValue.toStr).map trim).filter (· ≠ ""))

def isApiKey (value : String) : Bool :=
  startsWith value "fdc_" && value.toList.contains '.'

def looksLikeJwt (value : String) : Bool := (split '.' value).length = 3

def credentialCacheKey (env : Env) (kind credential : String) : String :=
  kind ++ ":" ++ toHex (env.sha256 (utf8 credential))

/-! ## The auth service -/

def maxIntrospectionResponseBytes : ℕ := 64 * 1024

def maxJwksResponseBytes : ℕ := 256 * 1024

/-- What an answer of the auth service says, or why it says nothing. -/
def readFetched {α : Type} (limit : ℕ) (kind : String) (parse : Bytes → Option α) :
    Fetched → Except AuthError α
  | .failed => .error .http
  | .response status body =>
    if 400 ≤ status.code ∧ status.code < 600 then .error .http
    else
      match body with
      | none => .error .http
      | some body =>
        if limit < body.length then .error (.oversizedResponse kind)
        else
          match parse body with
          | none => .error (.invalidResponse kind)
          | some value => .ok value

def fetchIntrospection (tokens : Tokens) (apiKey : String) :
    Task (Except AuthError Introspection) := do
  let fetched ← Proc.perform (Call.introspect apiKey)
  return readFetched maxIntrospectionResponseBytes "introspection" tokens.introspection fetched

def refreshJwks (tokens : Tokens) : Task (Except AuthError (List Jwk)) := do
  let fetched ← Proc.perform Call.fetchJwks
  match readFetched maxJwksResponseBytes "jwks" tokens.jwkSet fetched with
  | .error error => return .error error
  | .ok [] => return .error .emptyJwks
  | .ok jwks =>
    let now ← Proc.perform Call.instantNow
    Proc.perform (Call.storeJwks jwks now)
    return .ok jwks

def cachedJwks (tokens : Tokens) : Task (Except AuthError (List Jwk)) := do
  match ← Proc.perform Call.cachedJwks with
  | some jwks => return .ok jwks
  | none => refreshJwks tokens

/-- The published key of this ID. -/
def findJwk (jwks : List Jwk) (kid : String) : Option Jwk :=
  jwks.find? fun jwk => jwk.keyId == some kid

def jwkForKid (tokens : Tokens) (kid : String) : Task (Except AuthError Jwk) := do
  match ← cachedJwks tokens with
  | .error error => return .error error
  | .ok jwks =>
    match findJwk jwks kid with
    | some jwk => return .ok jwk
    | none =>
      match ← refreshJwks tokens with
      | .error error => return .error error
      | .ok jwks =>
        match findJwk jwks kid with
        | some jwk => return .ok jwk
        | none => return .error (.missingJwk kid)

def requiredSpecClaims : List String := ["exp", "iss", "aud", "sub", "org_id", "iat", "jti"]

/-- The claims of a token signed with this key. -/
def decodeWith (tokens : Tokens) (config : AuthConfig) (jwt : String) (alg : Algorithm)
    (jwk : Jwk) : Task (Except AuthError (VerifiedIdentity × Claims)) :=
  if jwk.octetKey then return .error .symmetricJwk
  else
    match tokens.decodingKey jwk with
    | none => return .error .jwt
    | some key => do
      let validation : Validation :=
        { algorithm := alg, issuer := config.jwtIssuer, audience := config.jwtAudience
          requiredClaims := requiredSpecClaims }
      let now ← Proc.perform Call.unixSecs
      match tokens.decode jwt key validation now with
      | none => return .error .jwt
      | some claims =>
        let now ← Proc.perform Call.unixSecs
        match validateClaimContract claims config.jwtIssuer config.jwtAudience now with
        | .error error => return .error error
        | .ok () => return .ok (identityFromClaims claims, claims)

def verifyJwt (tokens : Tokens) (config : AuthConfig) (jwt : String) :
    Task (Except AuthError (VerifiedIdentity × Claims)) :=
  match tokens.decodeHeader jwt with
  | none => return .error .jwt
  | some header =>
    if !isAsymmetricAlgorithm header.alg then return .error (.unsupportedAlgorithm header.alg)
    else
      match header.kid with
      | none => return .error .missingKid
      | some kid => do
        match ← jwkForKid tokens kid with
        | .error error => return .error error
        | .ok jwk => decodeWith tokens config jwt header.alg jwk

/-! ## Decisions -/

/-- Remember a decision, unless nothing is to be remembered.  When it expires is added up as it
is stored, which panics if the sum is no instant. -/
def cacheDecision (key : String) (identity : Option VerifiedIdentity) (ttl : ℕ) : Task Unit :=
  if ttl = 0 then return ()
  else do
    let now ← Proc.perform Call.instantNow
    Proc.perform (Call.insertDecision key identity ttl now)

def authenticateApiKey (env : Env) (tokens : Tokens) (config : AuthConfig) (apiKey : String) :
    Task (Except Response VerifiedIdentity) := do
  let cacheKey := credentialCacheKey env "api_key" apiKey
  match ← Proc.perform (Call.cachedDecision cacheKey) with
  | some (some identity) => return .ok identity
  | some none => return .error (invalidApiKey env)
  | none =>
    match ← fetchIntrospection tokens apiKey with
    | .error _ =>
      return .error (authResponse env .serviceUnavailable "auth_unavailable"
        "auth service is unavailable")
    | .ok introspection =>
      match identityFromIntrospection introspection with
      | none =>
        cacheDecision cacheKey none config.negativeCacheTtl
        return .error (invalidApiKey env)
      | some identity =>
        cacheDecision cacheKey (some identity) config.cacheTtl
        return .ok identity

def authorizedIdentity (env : Env) (identity : VerifiedIdentity) :
    Authorization → Except Response VerifiedIdentity
  | .allowed => .ok identity
  | .revoked => .error (authResponse env .unauthorized "revoked_jwt" "jwt has been revoked")
  | .unavailable _ =>
    .error (authResponse env .serviceUnavailable "revocation_unavailable"
      "jwt revocation state is unavailable")

def authenticateJwt (env : Env) (tokens : Tokens) (config : AuthConfig) (jwt : String) :
    Task (Except Response VerifiedIdentity) := do
  let cacheKey := credentialCacheKey env "invalid_jwt" jwt
  match ← Proc.perform (Call.cachedDecision cacheKey) with
  | some none => return .error (invalidJwt env)
  | _ =>
    match ← verifyJwt tokens config jwt with
    | .error _ =>
      cacheDecision cacheKey none config.negativeCacheTtl
      return .error (invalidJwt env)
    | .ok (identity, claims) =>
      -- an identity is never cached here: each use asks the gate
      let now ← Proc.perform Call.unixSecs
      let authorization ← Proc.perform (Call.authorizeRevocation claims now)
      return authorizedIdentity env identity authorization

def authenticate (env : Env) (tokens : Tokens) (config : AuthConfig) (headers : HeaderMap) :
    Task (Except Response (Option VerifiedIdentity)) :=
  match extractCredential headers with
  | none =>
    if config.required then
      return .error (authResponse env .unauthorized "missing_credentials"
        "send Authorization: Bearer <api-key-or-token>")
    else return .ok none
  | some credential =>
    if isApiKey credential then
      if !config.allowApiKeys then
        return .error (authResponse env .unauthorized "api_keys_disabled"
          "api key authentication is disabled")
      else do
        let result ← authenticateApiKey env tokens config credential
        return result.map some
    else if looksLikeJwt credential then
      if !config.allowJwts then
        return .error (authResponse env .unauthorized "jwt_disabled"
          "jwt authentication is disabled")
      else do
        let result ← authenticateJwt env tokens config credential
        return result.map some
    else
      return .error (authResponse env .unauthorized "unsupported_credentials"
        "credential must be a fiducia API key or fiducia JWT")

/-- The identity of a request: an edge's, with its proof, or that of its own credential. -/
def requestIdentityWithSecret (env : Env) (tokens : Tokens) (config : AuthConfig)
    (headers : HeaderMap) (expectedSecret : Option String) :
    Task (Except Response (Option VerifiedIdentity)) :=
  match trustedEdgeIdentity headers expectedSecret with
  | some identity => return .ok (some identity)
  | none => authenticate env tokens config headers

/-! ## Forged headers -/

/-- The credential depends on the two credential headers only. -/
theorem extractCredential_congr {headers headers' : HeaderMap}
    (hauth : headers.getAll "authorization" = headers'.getAll "authorization")
    (hkey : headers.getAll "x-api-key" = headers'.getAll "x-api-key") :
    extractCredential headers = extractCredential headers' := by
  unfold extractCredential
  simp only [HeaderMap.get_eq_head?, hauth, hkey]

/-- What a trusted identity is read from: each of its headers at most once, in visible
ASCII, with a tenant that is not blank, has no white space and is not too long. -/
structure WellFormed (headers : HeaderMap) (identity : VerifiedIdentity) : Prop where
  unique : ∀ name ∈ identityHeaderNames, Unique headers name
  orgId_ne : identity.orgId ≠ ""
  orgId_length : (utf8 identity.orgId).length ≤ 256
  orgId_plain : ∀ c ∈ identity.orgId.toList, isWhitespace c = false

/-- **Forged identity headers have no influence.**  Two requests with the same credential
headers and without the proof are the same process, whatever their other headers hold: so
they get the same identity from the same answers.  And where the proof is there, an edge's
identity is read from headers that say one thing. -/
theorem forged_headers_ignored (env : Env) (tokens : Tokens) (config : AuthConfig)
    (secret : Option String) {headers headers' : HeaderMap}
    (hauth : headers.getAll "authorization" = headers'.getAll "authorization")
    (hkey : headers.getAll "x-api-key" = headers'.getAll "x-api-key")
    (hproof : ¬Proven headers secret) (hproof' : ¬Proven headers' secret) :
    requestIdentityWithSecret env tokens config headers secret =
      requestIdentityWithSecret env tokens config headers' secret ∧
    ∀ edge identity, trustedEdgeIdentity edge secret = some identity →
      WellFormed edge identity := by
  constructor
  · unfold requestIdentityWithSecret authenticate
    rw [trustedEdgeIdentity_of_not_proven hproof, trustedEdgeIdentity_of_not_proven hproof',
      extractCredential_congr hauth hkey]
  · intro edge identity hidentity
    have hvouched := trustedEdgeIdentity_eq_some_iff.1 hidentity
    obtain ⟨hne, hlength, hplain⟩ := hvouched.orgId_plain
    exact ⟨hvouched.unique, hne, hlength, hplain⟩

namespace Sample

/-- The tenant `a` and its key may read keys. -/
def introspection : Introspection where
  valid := true
  orgId := some "a"
  keyId := some "k"
  scopes := ["kv:read"]
  requireIdempotency := none

/-- An auth service that knows any API key and publishes no keys of its own. -/
def tokens : Tokens where
  introspection _ := some introspection
  jwkSet _ := some []
  decodeHeader _ := none
  decodingKey _ := none
  decode _ _ _ _ := none

def config : AuthConfig where
  required := true
  allowApiKeys := true
  allowJwts := true
  jwtIssuer := "fiducia-auth"
  jwtAudience := "fiducia-api"
  cacheTtl := 60
  negativeCacheTtl := 5

def a : HeaderValue := ⟨utf8 "a", by decide⟩

def b : HeaderValue := ⟨utf8 "b", by decide⟩

/-- A request that claims to come from this tenant, with this proof. -/
def claiming (orgId proof : HeaderValue) : HeaderMap :=
  ⟨[(edgeAuthHeader, proof), ("x-fiducia-org-id", orgId)]⟩

end Sample

/-- Two forged tenants come to the same, and the proof makes one of them the identity. -/
theorem forged_headers_ignored_org :
    requestIdentityWithSecret Reference.env Sample.tokens Sample.config
        (Sample.claiming Sample.a Sample.a) (some "b") =
      requestIdentityWithSecret Reference.env Sample.tokens Sample.config
        (Sample.claiming Sample.b Sample.a) (some "b") ∧
    ∃ identity, WellFormed (Sample.claiming Sample.a Sample.b) identity := by
  have hforged : ∀ orgId, ¬Proven (Sample.claiming orgId Sample.a) (some "b") := by
    rintro orgId ⟨value, expected, hsecret, hvalue, hbytes⟩
    obtain rfl := Option.some.inj hsecret
    have hproof : (Sample.claiming orgId Sample.a).getAll edgeAuthHeader = [Sample.a] := by
      simp [Sample.claiming, HeaderMap.getAll, edgeAuthHeader]
    rw [hproof] at hvalue
    rw [← (List.cons.inj hvalue).1] at hbytes
    exact absurd hbytes (by decide)
  obtain ⟨hsame, hwell⟩ := forged_headers_ignored Reference.env Sample.tokens Sample.config
    (some "b") (show (Sample.claiming Sample.a Sample.a).getAll "authorization" =
      (Sample.claiming Sample.b Sample.a).getAll "authorization" from rfl) rfl
    (hforged _) (hforged _)
  refine ⟨hsame, { kind := .apiKey, orgId := "a", keyId := none, scopes := []
                   requireIdempotency := false }, hwell _ _ ?_⟩
  decide +kernel

end Auth

end LoadBalance
