import FiduciaLoadBalance.Http

/-!
# What the load balancer is built on

`Env` gathers the code the balancer calls but does not contain: the URL and
request-target parsers, the JSON library, SHA-256, the cluster's shared routing
and error-payload crates, and the internal secret read from the process
environment.  Every definition of the model takes an `Env`; what a result needs
to know about one is a named hypothesis:

* `Env.JsonRoundTrips` — the JSON library reads back what it wrote;
* `Env.CollisionFree` — the digest is injective;
* `Env.ShardsInRange` — a shard number is below the number of shards;
* `Env.SpellsOrigins` — the URL parser spells out an origin in one way, and reads it back.
-/

namespace LoadBalance

open Http

/-- What a parsed URL is asked for. -/
structure Url where
  scheme : String
  username : String
  password : Option String
  host : Option String
  path : String
  query : Option String
  fragment : Option String
  /-- The URL spelled out again, in normal form. -/
  asStr : String
deriving DecidableEq

/-- Why a node did not propose a command. -/
inductive ProposeErrorReason : Type
  | notLeader
  | unavailable
deriving DecidableEq

/-- The error payload nodes and balancer share. -/
structure ProposeError where
  reason : ProposeErrorReason
  leader : Option String

/-- The code outside the load balancer that it calls. -/
structure Env where
  /-- Parse an absolute URL into normal form. -/
  parseUrl : String → Option Url
  /-- Parse a request target. -/
  parseUri : String → Option Uri
  /-- Write JSON. -/
  toVec : Json.Value → Bytes
  /-- Read JSON. -/
  fromSlice : Bytes → Option Json.Value
  /-- Read the shared error payload from JSON. -/
  proposeError : Json.Value → Option ProposeError
  sha256 : Bytes → Bytes
  /-- The shard of a routing key, among a number of shards. -/
  shardFor : String → ℕ → ℕ
  /-- The routing key of an org's own key. -/
  orgScopedKey : String → String → String
  lockCoordinationKey : String
  serviceDiscoveryKey : String
  /-- The secret of the trusted hop, if one is configured. -/
  internalSecret : Option String

namespace Env

/-- The JSON library reads back every integer, text, truth value, list and object
it wrote. -/
def JsonRoundTrips (env : Env) : Prop :=
  ∀ v : Json.Value, v.Regular → env.fromSlice (env.toVec v) = some v

/-- No two byte strings have the same digest. -/
def CollisionFree (env : Env) : Prop := Function.Injective env.sha256

/-- Shard numbers are below the number of shards. -/
def ShardsInRange (env : Env) : Prop := ∀ key n, 0 < n → env.shardFor key n < n

/-- An HTTP origin is spelled `scheme://authority/`, and reads the same without the
final slash. -/
def SpellsOrigins (env : Env) : Prop :=
  ∀ text url, env.parseUrl text = some url → url.scheme = "http" ∨ url.scheme = "https" →
    url.host.isSome → url.path = "/" → url.query = none → url.fragment = none →
      ∃ authority : String, authority ≠ "" ∧
        (∀ c ∈ authority.toList, c ≠ '/' ∧ Text.isWhitespace c = false) ∧
        url.asStr = url.scheme ++ "://" ++ authority ++ "/" ∧
        env.parseUrl (url.scheme ++ "://" ++ authority) = some url

end Env

def applicationJson : HeaderValue := ⟨Text.utf8 "application/json", by decide⟩

/-- A JSON response. -/
def jsonResponse (env : Env) (status : StatusCode) (value : Json.Value) : Response where
  status := status
  headers := ⟨[("content-type", applicationJson)]⟩
  body := .full (env.toVec value)

@[simp] theorem jsonResponse_status (env : Env) (status : StatusCode) (value : Json.Value) :
    (jsonResponse env status value).status = status := rfl

end LoadBalance
