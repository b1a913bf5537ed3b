import FiduciaLoadBalance.Env

/-!
# Request → routing key

Given a request, the key whose hash picks the shard: from the path, the query, or
the JSON body, namespaced by the caller's org exactly as the node will do it.
Requests that address no single shard have no key and may go to any node.
-/

namespace LoadBalance

open Http Text

/-! ## Percent decoding -/

/-- `%XX` to a byte and, in a form value, `+` to a space. -/
def percentDecodeBytes (plusAsSpace : Bool) : Bytes → Bytes
  | b :: hi :: lo :: rest =>
    if b = 0x2B ∧ plusAsSpace then
      0x20 :: percentDecodeBytes plusAsSpace (hi :: lo :: rest)
    else if b = 0x25 then
      match toDigit (Char.ofNat hi.toNat), toDigit (Char.ofNat lo.toNat) with
      | some h, some l => UInt8.ofNat (h * 16 + l) :: percentDecodeBytes plusAsSpace rest
      | _, _ => b :: percentDecodeBytes plusAsSpace (hi :: lo :: rest)
    else b :: percentDecodeBytes plusAsSpace (hi :: lo :: rest)
  -- too short to begin an escape
  | b :: rest =>
    (if b = 0x2B ∧ plusAsSpace then 0x20 else b) :: percentDecodeBytes plusAsSpace rest
  | [] => []

def percentDecode (s : String) (plusAsSpace : Bool) : String :=
  fromUtf8Lossy (percentDecodeBytes plusAsSpace (utf8 s))

/-- The decoding of a query value. -/
def percentDecodeQuery (s : String) : String := percentDecode s true

/-- The decoding of a path segment: a plus stays a plus. -/
def percentDecodePath (s : String) : String := percentDecode s false

/-! ## Keys in the query and in the body -/

/-- The decoded value of one `name=value` pair, if it is of this name. -/
def pairValue (name pair : String) : Option String :=
  (splitOnce '=' pair).bind fun kv => if kv.1 = name then some (percentDecodeQuery kv.2) else none

/-- The first query parameter of this name. -/
def queryParam (uri : Uri) (name : String) : Option String :=
  uri.query.bind fun query => (split '&' query).findSome? (pairValue name)

def jsonBodyField (env : Env) (body : Bytes) (field : String) : Option String := do
  let value ← env.fromSlice body
  let value ← value.get? field
  value.asStr

/-! ## Routing keys -/

/-- The nonempty segments of a path. -/
def segments (path : String) : List String := (split '/' path).filter (· ≠ "")

/-- The nonempty segments of a path, its outer slashes trimmed first. -/
def routingSegments (uri : Uri) : List String := segments (trimMatches (· == '/') uri.path)

/-- A key as the node will name it for this org. -/
def scopedKey (env : Env) (orgId : Option String) (key : String) : String :=
  match orgId with
  | some org => env.orgScopedKey org key
  | none => key

/-- The routing key a request's target gives. -/
def routingKey (env : Env) (uri : Uri) (orgId : Option String) : Option String :=
  match routingSegments uri with
  | ["v1", "kv"] => (queryParam uri "key").map (scopedKey env orgId)
  -- locks and semaphores share one coordinator, whatever their keys
  | "v1" :: "locks" :: _ => some env.lockCoordinationKey
  | "v1" :: "semaphores" :: _ => some env.lockCoordinationKey
  | ["v1", "idempotency"] => (queryParam uri "key").map (scopedKey env orgId)
  | "v1" :: "rate-limit" :: _ :: key :: _ => some (scopedKey env orgId (percentDecodePath key))
  | "v1" :: "ratelimit" :: _ :: key :: _ => some (scopedKey env orgId (percentDecodePath key))
  | "v1" :: "cron" :: "schedules" :: name :: _ =>
    some (scopedKey env orgId (percentDecodePath name))
  | "v1" :: "elections" :: name :: _ => some (scopedKey env orgId (percentDecodePath name))
  | "v1" :: "services" :: _ => some env.serviceDiscoveryKey
  | ["v1", "counters"] => (queryParam uri "key").map (scopedKey env orgId)
  | ["v1", "barriers"] => (queryParam uri "name").map (scopedKey env orgId)
  | ["v1", "tasks"] => (queryParam uri "name").map (scopedKey env orgId)
  | ["v1", "effects"] => (queryParam uri "name").map (scopedKey env orgId)
  | ["v1", "handoffs"] => (queryParam uri "name").map (scopedKey env orgId)
  | ["v1", "decisions"] => (queryParam uri "name").map (scopedKey env orgId)
  | ["v1", "budgets"] => (queryParam uri "name").map (scopedKey env orgId)
  | ["v1", "claims"] => (queryParam uri "name").map (scopedKey env orgId)
  | _ => none

/-- The routing key of a request, its JSON body included. -/
def routingKeyWithBody (env : Env) (uri : Uri) (body : Bytes) (orgId : Option String) :
    Option String :=
  (routingKey env uri orgId).or
    (match routingSegments uri with
    | ["v1", "idempotency", "claim"] => (jsonBodyField env body "key").map (scopedKey env orgId)
    | ["v1", "idempotency", "complete"] => (jsonBodyField env body "key").map (scopedKey env orgId)
    | ["v1", "counters", _] => (jsonBodyField env body "key").map (scopedKey env orgId)
    | ["v1", "barriers", _] => (jsonBodyField env body "name").map (scopedKey env orgId)
    | ["v1", "tasks", _] => (jsonBodyField env body "name").map (scopedKey env orgId)
    | ["v1", "effects", _] => (jsonBodyField env body "name").map (scopedKey env orgId)
    | ["v1", "handoffs", _] => (jsonBodyField env body "name").map (scopedKey env orgId)
    | ["v1", "decisions", _] => (jsonBodyField env body "name").map (scopedKey env orgId)
    | ["v1", "budgets", _] => (jsonBodyField env body "name").map (scopedKey env orgId)
    | ["v1", "claims", _] => (jsonBodyField env body "name").map (scopedKey env orgId)
    | _ => none)

/-! ## Lemmas -/

theorem pairValue_self {name value : String} (hname : '=' ∉ name.toList) :
    pairValue name (name ++ "=" ++ value) = some (percentDecodeQuery value) := by
  have hall : ∀ c ∈ name.toList, (c != '=') = true := fun c hc =>
    bne_iff_ne.2 fun h => hname (h ▸ hc)
  have htext : (name ++ "=" ++ value).toList = name.toList ++ '=' :: value.toList := by simp
  have hsplit : splitOnce '=' (name ++ "=" ++ value) = some (name, value) := by
    rw [splitOnce, htext, List.dropWhile_append_of_pos hall, List.takeWhile_append_of_pos hall]
    simp
  rw [pairValue, hsplit]
  exact if_pos rfl

/-- The router's view of a path and the authorizer's are one. -/
theorem routingSegments_eq (uri : Uri) : routingSegments uri = segments uri.path :=
  filter_split_trimMatches '/' uri.path

theorem segments_append (s t : String) : segments (s ++ "/" ++ t) = segments s ++ segments t := by
  have h := split_append '/' s t
  rw [show String.singleton '/' = "/" from rfl] at h
  rw [segments, h, List.filter_append, segments, segments]

/-- A query that is one parameter. -/
theorem queryParam_single {uri : Uri} {name value : String} (hname : '=' ∉ name.toList)
    (hamp : '&' ∉ (name ++ "=" ++ value).toList)
    (hquery : uri.query = some (name ++ "=" ++ value)) :
    queryParam uri name = some (percentDecodeQuery value) := by
  rw [queryParam, hquery, Option.bind_some, split, List.splitOn_eq_singleton hamp,
    List.map_singleton, String.ofList_toList, List.findSome?_cons, pairValue_self hname]

end LoadBalance
