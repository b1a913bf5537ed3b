import FiduciaLoadBalance.Routing

/-!
# The endpoints an org owns keys at

An org names its keys and primitives in a query, in a JSON body or in a path.  The three
tables here list where the router looks, and `RoutedKey` is the key it finds there, decoded.
The release of a claim names its key in the body as well, and is in none of them: `CallerKey`
is the key a request names at any endpoint.

* `routingKeyWithBody_of_routedKey` — whatever endpoint and surface carried it, the
  routing key is the caller's key, scoped to the org;
* `routingKeyWithBody_of_releases` — the release of a claim has no routing key.
-/

namespace LoadBalance

open Http Text

/-! ## Where a key is looked for -/

/-- The primitives that are inspected and written by `name`. -/
def namedFamilies : List String :=
  ["barriers", "tasks", "effects", "handoffs", "decisions", "budgets", "claims"]

/-- The paths with a key in the query, and the parameter it is. -/
inductive QueryEndpoint : List String → String → Prop
  | kv : QueryEndpoint ["v1", "kv"] "key"
  | idempotency : QueryEndpoint ["v1", "idempotency"] "key"
  | counters : QueryEndpoint ["v1", "counters"] "key"
  | named {family : String} (h : family ∈ namedFamilies) : QueryEndpoint ["v1", family] "name"

/-- The paths where the router looks for a key in the JSON body, and the field it is. -/
inductive BodyEndpoint : List String → String → Prop
  | claim : BodyEndpoint ["v1", "idempotency", "claim"] "key"
  | complete : BodyEndpoint ["v1", "idempotency", "complete"] "key"
  | counters (op : String) : BodyEndpoint ["v1", "counters", op] "key"
  | named {family : String} (h : family ∈ namedFamilies) (op : String) :
      BodyEndpoint ["v1", family, op] "name"

/-- The paths whose next segment is the key. -/
inductive PathEndpoint : List String → Prop
  | rateLimit (tenant : String) : PathEndpoint ["v1", "rate-limit", tenant]
  | ratelimit (tenant : String) : PathEndpoint ["v1", "ratelimit", tenant]
  | cron : PathEndpoint ["v1", "cron", "schedules"]
  | elections : PathEndpoint ["v1", "elections"]

/-- The key that a request names where the router looks for it, decoded. -/
inductive RoutedKey (env : Env) (uri : Uri) (body : Bytes) : String → Prop
  | query {path : List String} {parameter key : String} (hend : QueryEndpoint path parameter)
      (hpath : segments uri.path = path) (hkey : queryParam uri parameter = some key) :
      RoutedKey env uri body key
  | body {path : List String} {field key : String} (hend : BodyEndpoint path field)
      (hpath : segments uri.path = path) (hkey : jsonBodyField env body field = some key) :
      RoutedKey env uri body key
  | path {path rest : List String} {segment : String} (hend : PathEndpoint path)
      (hpath : segments uri.path = path ++ segment :: rest) :
      RoutedKey env uri body (percentDecodePath segment)

/-- The endpoint that releases a claim. -/
def Releases (uri : Uri) : Prop := segments uri.path = ["v1", "idempotency", "abandon"]

/-- The key that a request names at an endpoint of its org, decoded. -/
inductive CallerKey (env : Env) (uri : Uri) (body : Bytes) : String → Prop
  | routed {key : String} (h : RoutedKey env uri body key) : CallerKey env uri body key
  | release {key : String} (hpath : Releases uri) (hkey : jsonBodyField env body "key" = some key) :
      CallerKey env uri body key

/-! ## Routing keys -/

variable {env : Env} {uri : Uri} {body : Bytes} {key : String} {path : List String}

theorem routingKey_query {parameter : String} (hend : QueryEndpoint path parameter)
    (hpath : segments uri.path = path) (org : Option String) :
    routingKey env uri org = (queryParam uri parameter).map (scopedKey env org) := by
  rw [routingKey, routingSegments_eq, hpath]
  cases hend with
  | kv => rfl
  | idempotency => rfl
  | counters => rfl
  | named h =>
    unfold namedFamilies at h
    fin_cases h <;> rfl

theorem routingKeyWithBody_body {field : String} (hend : BodyEndpoint path field)
    (hpath : segments uri.path = path) (org : Option String) :
    routingKeyWithBody env uri body org =
      (jsonBodyField env body field).map (scopedKey env org) := by
  rw [routingKeyWithBody, routingKey, routingSegments_eq, hpath]
  cases hend with
  | claim => rfl
  | complete => rfl
  | counters op => rfl
  | named h op =>
    unfold namedFamilies at h
    fin_cases h <;> rfl

theorem routingKey_path {segment : String} {rest : List String} (hend : PathEndpoint path)
    (hpath : segments uri.path = path ++ segment :: rest) (org : Option String) :
    routingKey env uri org = some (scopedKey env org (percentDecodePath segment)) := by
  rw [routingKey, routingSegments_eq, hpath]
  cases hend with
  | rateLimit tenant => rfl
  | ratelimit tenant => rfl
  | cron => rfl
  | elections => rfl

theorem routingKeyWithBody_of_key {org : Option String} (h : routingKey env uri org = some key) :
    routingKeyWithBody env uri body org = some key := by
  rw [routingKeyWithBody, h, Option.some_or]

/-- **The routing key of a request that names a key** is that key, in the caller's org. -/
theorem routingKeyWithBody_of_routedKey (h : RoutedKey env uri body key) (org : Option String) :
    routingKeyWithBody env uri body org = some (scopedKey env org key) := by
  cases h with
  | query hend hpath hkey =>
    refine routingKeyWithBody_of_key ?_
    rw [routingKey_query hend hpath, hkey, Option.map_some]
  | body hend hpath hkey => rw [routingKeyWithBody_body hend hpath, hkey, Option.map_some]
  | path hend hpath => exact routingKeyWithBody_of_key (routingKey_path hend hpath org)

/-- The router looks for no key in the release of a claim. -/
theorem routingKeyWithBody_of_releases (h : Releases uri) (org : Option String) :
    routingKeyWithBody env uri body org = none := by
  rw [routingKeyWithBody, routingKey, routingSegments_eq, h]
  rfl

/-- A request has a routing key for the key it names, unless it releases a claim. -/
theorem CallerKey.routed_iff (h : CallerKey env uri body key) :
    RoutedKey env uri body key ↔ ¬Releases uri := by
  refine ⟨fun hrouted hreleases => ?_, fun hnot => ?_⟩
  · have hsome := routingKeyWithBody_of_routedKey hrouted none
    rw [routingKeyWithBody_of_releases hreleases] at hsome
    exact absurd hsome (by simp)
  · cases h with
    | routed h => exact h
    | release hpath _ => exact absurd hpath hnot

end LoadBalance
