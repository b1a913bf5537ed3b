import FiduciaLoadBalance.Proxy.Redirect
import FiduciaLoadBalance.Routing

/-!
# Customer idempotency: the data

What the balancer derives from a request that carries an `Idempotency-Key`, the
documents it exchanges with the node that keeps the key's record, and what it makes
of the record's stored response.  The steps of the protocol are in
`Proxy.Route`.
-/

namespace LoadBalance

open Http Text

namespace Proxy

def idempotencyReplayedHeader : String := "idempotent-replayed"

def fiduciaIdempotencyHeader : String := "x-fiducia-idempotency"

/-- How long a completed record can be replayed, in milliseconds. -/
def customerIdempotencyTtlMs : UInt64 := 24 * 60 * 60 * 1000

/-- How long a claimed but not completed key stays taken, in milliseconds. -/
def customerInflightLeaseMs : UInt64 := 120 * 1000

def maxIdempotencyKeyBytes : ℕ := 255

/-- The largest response body stored for replay. -/
def maxReplayBodyBytes : ℕ := 32 * 1024

/-- The largest response body buffered to make a request idempotent. -/
def maxCaptureBytes : ℕ := 8 * 1024 * 1024

/-! ## Error responses -/

def badIdempotencyKey (env : Env) (reason : String) : Response :=
  jsonResponse env .badRequest (.ofFields
    [("error", .string "bad_idempotency_key"), ("detail", .string reason)])

def idempotencyKeyRequired (env : Env) (method : Method) (uri : Uri) : Response :=
  jsonResponse env .badRequest (.ofFields
    [("error", .string "idempotency_key_required"),
      ("detail", .string "this API key requires an Idempotency-Key header on mutating requests"),
      ("method", .string method.name),
      ("path", .string uri.path)])

def idempotencyConflict (env : Env) (detail : String) : Response :=
  jsonResponse env .conflict (.ofFields
    [("error", .string "idempotency_key_conflict"), ("detail", .string detail)])

def idempotencyUnavailable (env : Env) (detail : String) : Response :=
  jsonResponse env .serviceUnavailable (.ofFields
    [("error", .string "idempotency_unavailable"), ("detail", .string detail)])

def idempotencyReplayUnavailable (env : Env) (detail : String) : Response :=
  jsonResponse env .conflict (.ofFields
    [("error", .string "idempotency_replay_unavailable"), ("detail", .string detail)])

def idempotencyKeyInProgress (env : Env) : Response :=
  (jsonResponse env .conflict (.ofFields
    [("error", .string "idempotency_key_in_progress"),
      ("detail", .string "a matching request is still in progress")])).withHeader
    "retry-after" ⟨utf8 "1", by decide⟩

/-! ## What a request claims -/

def methodSupportsCustomerIdempotency (method : Method) : Bool :=
  method = .post ∨ method = .put ∨ method = .patch ∨ method = .delete

def isIdempotencyPrimitive (uri : Uri) : Bool := startsWith uri.path "/v1/idempotency"

def sha256Hex (env : Env) (value : Bytes) : String := toHex (env.sha256 value)

/-- The text of a request's content type, if it is readable. -/
def contentTypeText (headers : HeaderMap) : Option String :=
  (headers.get "content-type").bind HeaderValue.toStr

/-- What the fingerprint of a request digests: method, target, content type and body,
joined by NUL bytes. -/
def fingerprintInput (method : Method) (target : String) (headers : HeaderMap) (body : Bytes) :
    Bytes :=
  utf8 method.name ++ [0] ++ utf8 target ++ [0] ++ utf8 ((contentTypeText headers).getD "") ++
    [0] ++ body

def requestFingerprint (env : Env) (method : Method) (target : String) (headers : HeaderMap)
    (body : Bytes) : String :=
  toHex (env.sha256 (fingerprintInput method target headers body))

/-- The idempotency data of a request. -/
structure CustomerIdempotency where
  keyHash : String
  internalKey : String
  owner : String
  fingerprint : String
  method : String
  target : String
  orgHash : String
deriving DecidableEq

/-- The key a request names, white space trimmed. -/
def idempotencyKeyText (headers : HeaderMap) : Option String :=
  ((headers.get idempotencyKeyHeader).bind HeaderValue.toStr).map trim

namespace CustomerIdempotency

/-- The scope a key lives in: its org, or the anonymous callers. -/
def orgScope (identity : Option VerifiedIdentity) : String :=
  match identity with
  | some identity => "org:" ++ identity.orgId
  | none => "anonymous"

/-- The idempotency data of a request whose trimmed key is `trimmed`. -/
def ofKey (env : Env) (identity : Option VerifiedIdentity) (method : Method) (uri : Uri)
    (headers : HeaderMap) (body : Bytes) (trimmed : String) : CustomerIdempotency :=
  let orgHash := sha256Hex env (utf8 (orgScope identity))
  let keyHash := sha256Hex env (utf8 trimmed)
  { keyHash
    internalKey := "customer/" ++ orgHash ++ "/" ++ keyHash
    owner := "customer/" ++ orgHash
    fingerprint := requestFingerprint env method uri.target headers body
    method := method.name
    target := uri.target
    orgHash }

/-- The idempotency data of a request: none for requests that take no part, an error
for a key that is present and not acceptable. -/
def fromRequest (env : Env) (identity : Option VerifiedIdentity) (method : Method) (uri : Uri)
    (headers : HeaderMap) (body : Bytes) : Except Response (Option CustomerIdempotency) :=
  if !methodSupportsCustomerIdempotency method || isIdempotencyPrimitive uri then .ok none
  else
    match headers.get idempotencyKeyHeader with
    | none => .ok none
    | some rawKey =>
      match rawKey.toStr with
      | none => .error (badIdempotencyKey env "idempotency key must be visible ASCII")
      | some rawKey =>
        let trimmed := trim rawKey
        if trimmed = "" then .error (badIdempotencyKey env "idempotency key must not be empty")
        else if maxIdempotencyKeyBytes < (utf8 trimmed).length then
          .error (badIdempotencyKey env "idempotency key is too long")
        else if (utf8 trimmed).any fun byte => byte.toNat < 32 || byte.toNat == 127 then
          .error (badIdempotencyKey env "idempotency key must not contain control characters")
        else .ok (some (ofKey env identity method uri headers body trimmed))

/-- What the record of a claim says about its request. -/
def metadata (idempotency : CustomerIdempotency) : Json.Value :=
  .ofFields
    [("scope", .string "customer"),
      ("org_hash", .string idempotency.orgHash),
      ("key_hash", .string idempotency.keyHash),
      ("fingerprint", .string idempotency.fingerprint),
      ("method", .string idempotency.method),
      ("target", .string idempotency.target)]

/-- A key that is accepted, trimmed. -/
def IsKey (trimmed : String) : Prop :=
  trimmed ≠ "" ∧ (utf8 trimmed).length ≤ maxIdempotencyKeyBytes ∧
    ((utf8 trimmed).any fun byte => byte.toNat < 32 || byte.toNat == 127) = false

/-- Which requests a key is derived from, and what is. -/
theorem fromRequest_eq_some_iff {env : Env} {identity : Option VerifiedIdentity} {method : Method}
    {uri : Uri} {headers : HeaderMap} {body : Bytes} {idempotency : CustomerIdempotency} :
    fromRequest env identity method uri headers body = .ok (some idempotency) ↔
      methodSupportsCustomerIdempotency method = true ∧ isIdempotencyPrimitive uri = false ∧
      ∃ trimmed, idempotencyKeyText headers = some trimmed ∧ IsKey trimmed ∧
        idempotency = .ofKey env identity method uri headers body trimmed := by
  constructor
  · intro h
    rw [fromRequest] at h
    split at h
    · exact absurd h (by simp)
    · rename_i hmutation
      split at h
      · exact absurd h (by simp)
      · rename_i value hvalue
        split at h
        · exact absurd h (by simp)
        · rename_i text htext
          dsimp only at h
          split at h
          · exact absurd h (by simp)
          · rename_i hne
            split at h
            · exact absurd h (by simp)
            · rename_i hlength
              split at h
              · exact absurd h (by simp)
              · rename_i hcontrol
                simp only [Bool.or_eq_true, Bool.not_eq_true', not_or, Bool.not_eq_false]
                  at hmutation
                refine ⟨hmutation.1, by simpa using hmutation.2, trim text, ?_,
                  ⟨hne, not_lt.1 hlength, by simpa using hcontrol⟩,
                  (Option.some.inj (Except.ok.inj h)).symm⟩
                rw [idempotencyKeyText, hvalue, Option.bind_some, htext, Option.map_some]
  · rintro ⟨hmethod, hprimitive, trimmed, hkey, ⟨hne, hlength, hcontrol⟩, rfl⟩
    obtain ⟨text, hbind, rfl⟩ := Option.map_eq_some_iff.1 hkey
    obtain ⟨value, hvalue, htext⟩ := Option.bind_eq_some_iff.1 hbind
    rw [fromRequest, if_neg (by simp [hmethod, hprimitive]), hvalue]
    dsimp only
    rw [htext]
    dsimp only
    rw [if_neg hne, if_neg (not_lt.2 hlength), if_neg (by simpa using hcontrol)]

theorem fromRequest_eq_some {env : Env} {identity : Option VerifiedIdentity} {method : Method}
    {uri : Uri} {headers : HeaderMap} {body : Bytes} {idempotency : CustomerIdempotency}
    (h : fromRequest env identity method uri headers body = .ok (some idempotency)) :
    ∃ trimmed, idempotencyKeyText headers = some trimmed ∧
      idempotency = .ofKey env identity method uri headers body trimmed := by
  obtain ⟨-, -, trimmed, hkey, -, hidem⟩ := fromRequest_eq_some_iff.1 h
  exact ⟨trimmed, hkey, hidem⟩

/-- A request that takes part and derives nothing names no key. -/
theorem idempotencyKeyText_of_fromRequest {env : Env} {identity : Option VerifiedIdentity}
    {method : Method} {uri : Uri} {headers : HeaderMap} {body : Bytes}
    (hmethod : methodSupportsCustomerIdempotency method = true)
    (hprimitive : isIdempotencyPrimitive uri = false)
    (h : fromRequest env identity method uri headers body = .ok none) :
    idempotencyKeyText headers = none := by
  rw [fromRequest, if_neg (by simp [hmethod, hprimitive])] at h
  split at h
  · rename_i hnone
    rw [idempotencyKeyText, hnone]
    rfl
  · split at h
    · exact absurd h (by simp)
    · dsimp only at h
      split at h
      · exact absurd h (by simp)
      · split at h
        · exact absurd h (by simp)
        · split at h
          · exact absurd h (by simp)
          · exact absurd h (by simp)

end CustomerIdempotency

/-! ## Captured and stored responses -/

/-- A response whose body has been read. -/
structure CapturedResponse where
  status : StatusCode
  headers : HeaderMap
  body : Bytes

namespace CapturedResponse

/-- Buffer a response, or give the error that says it cannot be buffered. -/
def fromResponse (env : Env) (response : Response) : Except Response CapturedResponse :=
  match toBytes maxCaptureBytes response.body with
  | some body => .ok { status := response.status, headers := response.headers, body }
  | none =>
    .error (jsonResponse env .badGateway (.ofFields
      [("error", .string "upstream_response_too_large"),
        ("detail", .string "upstream response exceeded the proxy capture limit and cannot be made idempotent")]))

def intoResponse (captured : CapturedResponse) : Response where
  status := captured.status
  headers := captured.headers
  body := .full captured.body

end CapturedResponse

/-- Is a response final, so that a duplicate may be answered with it? -/
def isCacheableIdempotentResponse (status : StatusCode) : Bool :=
  if status.isServerError then false
  else !(status = .requestTimeout || status = .tooManyRequests)

/-- The bytes spelled by a hexadecimal string. -/
def hexToBytes (value : String) : Option Bytes :=
  bytesOfHex ((utf8 value).map fun b => Char.ofNat b.toNat)

/-- A response as the record stores it. -/
structure StoredIdempotencyResponse where
  fingerprint : String
  status : UInt16
  contentType : Option String
  bodyHex : String
  truncated : Bool

namespace StoredIdempotencyResponse

def fromCaptured (idempotency : CustomerIdempotency) (captured : CapturedResponse) :
    StoredIdempotencyResponse where
  fingerprint := idempotency.fingerprint
  status := UInt16.ofNat captured.status.code
  contentType := contentTypeText captured.headers
  bodyHex := toHex
    (if captured.body.length ≤ maxReplayBodyBytes then captured.body
    else captured.body.take maxReplayBodyBytes)
  truncated := maxReplayBodyBytes < captured.body.length

/-- The response a duplicate is answered with. -/
def intoReplayResponse (env : Env) (stored : StoredIdempotencyResponse) : Response :=
  if stored.truncated then
    idempotencyReplayUnavailable env "stored response exceeded the replay body limit"
  else
    let status := (StatusCode.fromU16 stored.status.toNat).getD .ok
    match hexToBytes stored.bodyHex with
    | none => idempotencyReplayUnavailable env "stored response body failed to decode"
    | some body =>
      let headers := match stored.contentType.bind HeaderValue.fromStr with
        | some value => HeaderMap.empty.insert "content-type" value
        | none => HeaderMap.empty
      { status, body := .full body
        headers := (headers.insert idempotencyReplayedHeader ⟨utf8 "true", by decide⟩).insert
          fiduciaIdempotencyHeader ⟨utf8 "replayed", by decide⟩ }

/-- The stored response as JSON. -/
def toValue (stored : StoredIdempotencyResponse) : Json.Value :=
  .ofFields
    [("fingerprint", .string stored.fingerprint),
      ("status", .number (.posInt (UInt64.ofNat stored.status.toNat))),
      ("content_type", match stored.contentType with
        | some contentType => .string contentType
        | none => .null),
      ("body_hex", .string stored.bodyHex),
      ("truncated", .bool stored.truncated)]

/-- An unsigned 16-bit integer. -/
def u16FromValue (value : Json.Value) : Option UInt16 :=
  value.asU64.bind fun n => if n.toNat < 2 ^ 16 then some (UInt16.ofNat n.toNat) else none

/-- An optional text: `null` for none. -/
def textFromValue : Json.Value → Option (Option String)
  | .null => some none
  | .string s => some (some s)
  | _ => none

/-- The stored response read back from the values of its five fields. -/
def fromParts (fingerprint status contentType bodyHex truncated : Json.Value) :
    Option StoredIdempotencyResponse := do
  return {
    fingerprint := ← fingerprint.asStr
    status := ← u16FromValue status
    contentType := ← textFromValue contentType
    bodyHex := ← bodyHex.asStr
    truncated := ← truncated.asBool }

/-- The stored response read back from JSON: an object with these fields, or a list of
their values in order.  A missing content type is none. -/
def fromValue : Json.Value → Option StoredIdempotencyResponse
  | .object fields => do
    let object := Json.Value.object fields
    fromParts (← object.get? "fingerprint") (← object.get? "status")
      ((object.get? "content_type").getD .null) (← object.get? "body_hex")
      (← object.get? "truncated")
  | .array [fingerprint, status, contentType, bodyHex, truncated] =>
    fromParts fingerprint status contentType bodyHex truncated
  | _ => none

end StoredIdempotencyResponse

/-! ## Claims -/

/-- What the node answered to a claim. -/
structure IdempotencyClaim where
  claimed : Bool
  duplicate : Bool
  fencingToken : Option UInt64
  record : Option Json.Value

/-- The document that claims a key. -/
def claimBody (idempotency : CustomerIdempotency) : Json.Value :=
  .ofFields
    [("key", .string idempotency.internalKey),
      ("owner", .string idempotency.owner),
      ("ttl_ms", .number (.posInt customerInflightLeaseMs)),
      ("retention_ms", .number (.posInt customerIdempotencyTtlMs)),
      ("metadata", idempotency.metadata)]

/-- The document that completes a claimed key with a stored response. -/
def completeBody (idempotency : CustomerIdempotency) (fencingToken : UInt64)
    (stored : StoredIdempotencyResponse) : Json.Value :=
  .ofFields
    [("key", .string idempotency.internalKey),
      ("owner", .string idempotency.owner),
      ("fencing_token", .number (.posInt fencingToken)),
      ("result", stored.toValue)]

/-- The document that releases a claimed key. -/
def abandonBody (idempotency : CustomerIdempotency) (fencingToken : UInt64) : Json.Value :=
  .ofFields
    [("key", .string idempotency.internalKey),
      ("owner", .string idempotency.owner),
      ("fencing_token", .number (.posInt fencingToken))]

/-- The `result.output` of a node's answer. -/
def outputOf (value : Json.Value) : Option Json.Value :=
  (value.get? "result").bind (·.get? "output")

/-- The claim a node's answer reports. -/
def claimFromOutput (output : Json.Value) : IdempotencyClaim where
  claimed := ((output.get? "claimed").bind (·.asBool)).getD false
  duplicate := ((output.get? "duplicate").bind (·.asBool)).getD false
  fencingToken := (output.get? "fencing_token").bind (·.asU64)
  record := output.get? "record"

/-- The claim read from the response to a claim request, or the response that says it
could not be. -/
def readClaim (env : Env) (response : Response) : Except Response IdempotencyClaim :=
  match CapturedResponse.fromResponse env response with
  | .error _ => .error (idempotencyUnavailable env "claim response was too large")
  | .ok captured =>
    if !captured.status.isSuccess then .error (idempotencyUnavailable env "claim request failed")
    else
      match env.fromSlice captured.body with
      | none => .error (idempotencyUnavailable env "claim response was not valid json")
      | some value =>
        match outputOf value with
        | none => .error (idempotencyUnavailable env "claim response omitted output")
        | some output => .ok (claimFromOutput output)

/-- The text of the fingerprint a record was claimed with. -/
def recordedFingerprint (record : Json.Value) : Option String :=
  (((record.get? "metadata").bind (·.asObject)).bind fun metadata =>
    metadata.lookup "fingerprint").bind (·.asStr)

/-- The response to a request whose key was not granted to it; none where it was. -/
def responseForDuplicateClaim (env : Env) (idempotency : CustomerIdempotency)
    (claim : IdempotencyClaim) : Option Response :=
  if claim.claimed then none
  else if !claim.duplicate then some (idempotencyUnavailable env "claim was rejected")
  else
    match claim.record with
    | none => some (idempotencyUnavailable env "duplicate claim omitted record")
    | some record =>
      if recordedFingerprint record ≠ some idempotency.fingerprint then
        some (idempotencyConflict env "idempotency key was already used with a different request")
      else if (record.get? "status").bind (·.asStr) = some "completed" then
        match record.get? "result" with
        | none => some (idempotencyUnavailable env "completed record omitted result")
        | some result =>
          match StoredIdempotencyResponse.fromValue result with
          | some stored =>
            if stored.fingerprint = idempotency.fingerprint then
              some (stored.intoReplayResponse env)
            else some (idempotencyUnavailable env "stored response was not replayable")
          | none => some (idempotencyUnavailable env "stored response was not replayable")
      else some (idempotencyKeyInProgress env)

end Proxy

end LoadBalance
