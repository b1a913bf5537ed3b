import FiduciaLoadBalance.Env

/-!
# Verified identities

Who a request was authenticated as, and how the balancer tells a node: the trusted
hop's header names, which are never taken over from a client.
-/

namespace LoadBalance

open Text

inductive AuthKind : Type
  | apiKey
  | jwt
deriving DecidableEq

/-- The identity a request was authenticated as. -/
structure VerifiedIdentity where
  kind : AuthKind
  orgId : String
  keyId : Option String
  scopes : List String
  requireIdempotency : Bool
deriving DecidableEq

namespace VerifiedIdentity

def kindHeader (identity : VerifiedIdentity) : String :=
  match identity.kind with
  | .apiKey => "api_key"
  | .jwt => "jwt"

def scopesHeader (identity : VerifiedIdentity) : String := " ".intercalate identity.scopes

end VerifiedIdentity

def edgeAuthHeader : String := "x-fiducia-edge-auth"

/-- The header carrying the internal secret of the trusted hop. -/
def internalAuthHeader : String := "x-fiducia-internal-auth"

/-- Client headers that carry credentials or claim an identity. -/
def shouldStripClientAuthHeader (name : String) : Bool :=
  ["authorization", "x-api-key", "cookie", "x-fiducia-auth-kind", "x-fiducia-org-id",
    "x-fiducia-key-id", "x-fiducia-scopes", edgeAuthHeader, "x-fiducia-internal-auth"].contains
    (toAsciiLowercase name)

end LoadBalance
