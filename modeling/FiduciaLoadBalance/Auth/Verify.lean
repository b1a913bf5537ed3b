import FiduciaLoadBalance.Auth.Edge
import FiduciaLoadBalance.Revocation.Cache

/-!
# What the auth service says

API keys are introspected by the auth service; tokens are checked against the keys it
publishes.  Both end in an identity, after the same checks on what was said.

* `identityFromIntrospection`, `identityFromClaims` — the identity of a key, of a token;
* `validateClaimContract` — what a token has to claim;
* `Tokens` — the token library and the shared payloads, from outside the balancer.
-/

namespace LoadBalance

open Http Text

namespace Auth

open Revocation (Claims)

/-- What the auth service says of an API key. -/
structure Introspection where
  valid : Bool
  orgId : Option String
  keyId : Option String
  scopes : List String
  requireIdempotency : Option Bool
deriving DecidableEq

inductive Algorithm : Type
  | hs256
  | hs384
  | hs512
  | es256
  | es384
  | rs256
  | rs384
  | rs512
  | ps256
  | ps384
  | ps512
  | edDSA
deriving DecidableEq

def isAsymmetricAlgorithm (algorithm : Algorithm) : Bool :=
  [.es256, .es384, .rs256, .rs384, .rs512, .ps256, .ps384, .ps512, .edDSA].contains algorithm

inductive AuthError : Type
  | emptyJwks
  | http
  | invalidClaims (reason : String)
  | invalidResponse (kind : String)
  | jwt
  | missingJwk (kid : String)
  | missingKid
  | oversizedResponse (kind : String)
  | symmetricJwk
  | unsupportedAlgorithm (algorithm : Algorithm)
deriving DecidableEq

/-- A published key. -/
structure Jwk where
  keyId : Option String
  /-- Is it a shared secret? -/
  octetKey : Bool
  material : Bytes
deriving DecidableEq

/-- The header of a token. -/
structure TokenHeader where
  alg : Algorithm
  kid : Option String

/-- What a token is checked against. -/
structure Validation where
  algorithm : Algorithm
  issuer : String
  audience : String
  requiredClaims : List String

/-- The code outside the balancer that reads tokens and what the auth service sends. -/
structure Tokens where
  introspection : Bytes → Option Introspection
  jwkSet : Bytes → Option (List Jwk)
  decodeHeader : String → Option TokenHeader
  /-- The key to check signatures with. -/
  decodingKey : Jwk → Option Bytes
  /-- The claims of a token that passes the validation at a time. -/
  decode : String → Bytes → Validation → ℕ → Option Claims

/-! ## Identities -/

def identityFromIntrospection (introspection : Introspection) : Option VerifiedIdentity := do
  let orgId ← introspection.orgId
  if !introspection.valid || !validIdentifier orgId || !validScopes introspection.scopes then none
  else
    return {
      kind := .apiKey
      orgId
      keyId := introspection.keyId.filter validIdentifier
      scopes := introspection.scopes
      requireIdempotency := introspection.requireIdempotency.getD false }

def identityFromClaims (claims : Claims) : VerifiedIdentity where
  kind := .jwt
  orgId := claims.orgId
  keyId := none
  scopes := claims.scopes
  requireIdempotency := false

def maxAccessTokenTtlSecs : ℕ := 15 * 60

def jwtClockSkewSecs : ℕ := 30

/-- What a token has to claim at the second `now`. -/
def validateClaimContract (claims : Claims) (expectedIssuer expectedAudience : String)
    (now : ℕ) : Except AuthError Unit :=
  if claims.iss ≠ expectedIssuer ∨ claims.aud ≠ expectedAudience then
    .error (.invalidClaims "issuer or audience")
  else if !validIdentifier claims.sub || !validIdentifier claims.orgId ||
      !validIdentifier claims.jti then .error (.invalidClaims "identity")
  else if claims.sub ≠ claims.orgId then .error (.invalidClaims "subject/tenant mismatch")
  else if claims.exp.toNat ≤ claims.iat.toNat ∨
      maxAccessTokenTtlSecs < claims.exp.toNat - claims.iat.toNat then
    .error (.invalidClaims "lifetime")
  else if min (now + jwtClockSkewSecs) (2 ^ 64 - 1) < claims.iat.toNat then
    .error (.invalidClaims "issued in the future")
  else if !validScopes claims.scopes then .error (.invalidClaims "scopes")
  else .ok ()

/-! ## What the checks leave -/

/-- An identity whose parts passed the checks, as they were said. -/
structure Checked (identity : VerifiedIdentity) : Prop where
  orgId : validIdentifier identity.orgId = true
  keyId : identity.keyId.all validIdentifier = true
  scopes : validScopes identity.scopes = true

theorem all_filter (p : String → Bool) (value : Option String) :
    (value.filter p).all p = true := by
  cases value with
  | none => rfl
  | some text => by_cases h : p text <;> simp [Option.filter, h]

theorem Checked.of_introspection {introspection : Introspection} {identity : VerifiedIdentity}
    (h : identityFromIntrospection introspection = some identity) : Checked identity := by
  obtain ⟨orgId, -, h⟩ := Option.bind_eq_some_iff.1 h
  split at h
  · exact absurd h (by simp)
  · rename_i hvalid
    simp only [Bool.or_eq_true, Bool.not_eq_true', not_or, Bool.not_eq_false] at hvalid
    obtain rfl := Option.some.inj h
    exact ⟨hvalid.1.2, all_filter _ _, hvalid.2⟩

theorem Checked.of_claims {claims : Claims} {issuer audience : String} {now : ℕ}
    (h : validateClaimContract claims issuer audience now = .ok ()) :
    Checked (identityFromClaims claims) := by
  unfold validateClaimContract at h
  split at h
  · exact absurd h (by simp)
  split at h
  · exact absurd h (by simp)
  rename_i hidentity
  split at h
  · exact absurd h (by simp)
  split at h
  · exact absurd h (by simp)
  split at h
  · exact absurd h (by simp)
  split at h
  · exact absurd h (by simp)
  rename_i hscopes
  simp only [Bool.or_eq_true, Bool.not_eq_true', not_or, Bool.not_eq_false] at hidentity
  exact ⟨hidentity.1.2, rfl, by simpa [identityFromClaims] using hscopes⟩

theorem Checked.of_vouched {headers : HeaderMap} {secret : Option String}
    {identity : VerifiedIdentity} (h : Vouched headers secret identity) : Checked identity :=
  ⟨h.orgId_valid, h.keyId_valid, h.scopes_valid⟩

end Auth

end LoadBalance
