import FiduciaLoadBalance.Auth.Identity

/-!
# One upstream attempt

Forwarding one request to one node: what is sent (`prepare`), what can come back
(`Reply`), and what the attempt told the balancer (`outcome`).  The network itself
is not computed: an attempt is a call that the outside answers with a `Reply`, and
timeouts are among the failures a `Reply` can report.
-/

namespace LoadBalance

open Http Text

namespace Proxy

def maxUpstreamResponseBytes : ℕ := 8 * 1024 * 1024

def idempotencyKeyHeader : String := "idempotency-key"

/-- What a single upstream attempt told us. -/
inductive Upstream : Type
  /-- The node served the request. -/
  | served (response : Response)
  /-- The node is a follower; retry against the leader if it named one. -/
  | notLeader (leader : Option String)
  /-- Nothing reached a node. -/
  | notSent
  /-- The request may have reached the node, and no answer came back. -/
  | ambiguousTransport
  /-- The answer exceeded the ceiling on response bodies. -/
  | responseTooLarge
deriving DecidableEq

/-- One call of `forward_once`. -/
structure Attempt where
  nodeUrl : String
  identity : Option VerifiedIdentity
  method : Method
  uri : Uri
  headers : HeaderMap
  body : Bytes
deriving DecidableEq

/-- What the network makes of a request that was sent. -/
inductive Reply : Type
  /-- No connection could be made. -/
  | connectError
  /-- The connection was made and no response came back. -/
  | transportError
  /-- A response, its body in chunks that end or break off. -/
  | response (status : StatusCode) (headers : HeaderMap) (chunks : List Bytes) (ending : Ending)
deriving DecidableEq

/-! ## The request -/

def isHopByHop (name : String) : Bool :=
  ["connection", "keep-alive", "proxy-authenticate", "proxy-authorization", "te", "trailer",
    "transfer-encoding", "upgrade", "host"].contains (toAsciiLowercase name)

/-- The URL a request goes to at this node: its own path and query, and only if the
URL parser sees the same path. -/
def upstreamUrl (env : Env) (nodeUrl : String) (uri : Uri) : Option String :=
  if !(startsWith nodeUrl "http://" || startsWith nodeUrl "https://") then none
  else
    let url := trimEndMatches (· == '/') nodeUrl ++ uri.pathAndQuery.getD "/"
    (env.parseUrl url).bind fun parsed => if parsed.path ≠ uri.path then none else some url

/-- Does the client ask for an event stream? -/
def isStreamingRequest (method : Method) (uri : Uri) (headers : HeaderMap) : Bool :=
  if method ≠ .get then false
  else
    let acceptsEvents := ((headers.get "accept").bind HeaderValue.toStr).any fun value =>
      (split ',' value).any fun part => eqIgnoreAsciiCase (trim part) "text/event-stream"
    let watchQuery := uri.query.any fun query =>
      (split '&' query).any fun pair => splitOnce '=' pair == some ("watch", "true")
    acceptsEvents || watchQuery

/-- A request as it goes to the node. -/
structure WireRequest where
  method : Method
  url : String
  headers : HeaderMap
  body : Bytes
  /-- Sent by the client without a total timeout. -/
  streaming : Bool
deriving DecidableEq

/-- What becomes of an attempt before the network has any part in it. -/
inductive Prepared : Type
  | notSent
  /-- A header the balancer adds is not a valid one; the client reports it when sending. -/
  | builderError
  | send (request : WireRequest)
deriving DecidableEq

/-- The client's headers that are passed on. -/
def forwardedHeaders (headers : HeaderMap) : HeaderMap :=
  ⟨headers.entries.filter fun entry =>
    !(isHopByHop entry.1 || shouldStripClientAuthHeader entry.1 ||
      eqIgnoreAsciiCase entry.1 idempotencyKeyHeader)⟩

/-- The headers that tell the node who is asking. -/
def identityHeaders (identity : Option VerifiedIdentity) : List (String × String) :=
  match identity with
  | none => []
  | some identity =>
    [("x-fiducia-auth-kind", identity.kindHeader),
      ("x-fiducia-org-id", identity.orgId),
      ("x-fiducia-scopes", identity.scopesHeader)] ++
    (match identity.keyId with
    | some keyId => [("x-fiducia-key-id", keyId)]
    | none => [])

/-- The headers the balancer adds: the identity and the internal secret. -/
def trustedHeaders (env : Env) (identity : Option VerifiedIdentity) : List (String × String) :=
  identityHeaders identity ++
    (match env.internalSecret with
    | some secret => [(internalAuthHeader, secret)]
    | none => [])

/-- Add headers, as long as each is valid. -/
def appendHeaders : HeaderMap → List (String × String) → Option HeaderMap
  | headers, [] => some headers
  | headers, (name, text) :: rest =>
    (HeaderValue.fromStr text).bind fun value => appendHeaders (headers.append name value) rest

/-- The request an attempt sends. -/
def prepare (env : Env) (a : Attempt) : Prepared :=
  match upstreamUrl env a.nodeUrl a.uri with
  | none => .notSent
  | some url =>
    match Method.fromBytes a.method.name with
    | none => .notSent
    | some method =>
      match appendHeaders (forwardedHeaders a.headers) (trustedHeaders env a.identity) with
      | none => .builderError
      | some headers =>
        .send
          { method, url, headers, body := a.body
            streaming := isStreamingRequest a.method a.uri a.headers }

/-! ## The response -/

/-- The response headers kept: one value for each name, the last. -/
def responseHeaders (headers : HeaderMap) : HeaderMap :=
  headers.entries.foldl
    (fun acc entry => if isHopByHop entry.1 then acc else acc.insert entry.1 entry.2)
    HeaderMap.empty

def isEventStreamResponse (status : StatusCode) (headers : HeaderMap) : Bool :=
  status.isSuccess &&
    (((headers.get "content-type").bind HeaderValue.toStr).bind
      fun value => (split ';' value).head?).any
      fun value => eqIgnoreAsciiCase (trim value) "text/event-stream"

/-- The sum of two lengths, at most the largest machine word. -/
def saturatingAdd (m n : ℕ) : ℕ := min (m + n) (2 ^ 64 - 1)

/-- Put a chunk behind `acc`, if it fits. -/
def drainChunk (acc chunk : Bytes) : Except Upstream Bytes :=
  if saturatingAdd acc.length chunk.length ≤ maxUpstreamResponseBytes then .ok (acc ++ chunk)
  else .error .responseTooLarge

/-- Buffer a body after `acc`, or say why that failed. -/
def drainUpstreamBody : Bytes → List Bytes → Ending → Except Upstream Bytes
  | acc, [], .eof => .ok acc
  | _, [], .error => .error .ambiguousTransport
  | acc, chunk :: chunks, ending =>
    match drainChunk acc chunk with
    | .error failure => .error failure
    | .ok acc => drainUpstreamBody acc chunks ending

def headerValue (headers : HeaderMap) (name : String) : Option String :=
  ((headers.get name).bind HeaderValue.toStr).filter (· ≠ "")

/-- Scheme and authority of a `Location`. -/
def leaderBaseUrl (env : Env) (location : String) : Option String := do
  let uri ← env.parseUri location
  let scheme ← uri.scheme
  let authority ← uri.authority
  return scheme ++ "://" ++ authority

/-- A body that says its node is not the leader, and which one is if it knows. -/
def jsonNotLeader (env : Env) (body : Bytes) : Option (Option String) := do
  let value ← env.fromSlice body
  let parsed ← env.proposeError ((value.get? "error").getD value)
  match parsed.reason with
  | .notLeader => some parsed.leader
  | .unavailable => none

/-- One value for each name, the first. -/
def firstValues (headers : HeaderMap) : HeaderMap :=
  headers.entries.foldl
    (fun acc entry => if (acc.get entry.1).isSome then acc else acc.insert entry.1 entry.2)
    HeaderMap.empty

def classifyUpstreamResponse (env : Env) (status : StatusCode) (headers : HeaderMap)
    (body : Bytes) : Upstream :=
  let markedNotLeader := (headerValue headers "x-fiducia-not-leader").any
    fun value => eqIgnoreAsciiCase value "true"
  if status = .temporaryRedirect ∨ status = .misdirectedRequest ∨
      (status = .serviceUnavailable ∧ markedNotLeader) then
    .notLeader ((headerValue headers "x-fiducia-leader").or
      ((headerValue headers "location").bind (leaderBaseUrl env)))
  else
    match jsonNotLeader env body with
    | some leader => .notLeader leader
    | none => .served { status, headers := firstValues headers, body := .full body }

/-- What a response told us. -/
def readResponse (env : Env) (status : StatusCode) (headers : HeaderMap) (chunks : List Bytes)
    (ending : Ending) : Upstream :=
  let headers := responseHeaders headers
  if isEventStreamResponse status headers then
    .served { status, headers, body := .stream chunks ending }
  else
    match drainUpstreamBody [] chunks ending with
    | .error upstream => upstream
    | .ok body => classifyUpstreamResponse env status headers body

/-- What an attempt told us, given what the network makes of what it sends. -/
def outcome (env : Env) (a : Attempt) (reply : Reply) : Upstream :=
  match prepare env a with
  | .notSent => .notSent
  | .builderError => .ambiguousTransport
  | .send _ =>
    match reply with
    | .connectError => .notSent
    | .transportError => .ambiguousTransport
    | .response status headers chunks ending => readResponse env status headers chunks ending

/-! ## Lemmas -/

/-- What is sent has the method of the request, and a URL on which the parser sees
exactly the path of the request. -/
theorem prepare_send {env : Env} {a : Attempt} {request : WireRequest}
    (h : prepare env a = .send request) :
    request.method = a.method ∧ request.body = a.body ∧
      ∃ parsed, env.parseUrl request.url = some parsed ∧ parsed.path = a.uri.path := by
  rw [prepare] at h
  cases hurl : upstreamUrl env a.nodeUrl a.uri with
  | none => simp [hurl] at h
  | some url =>
    rw [hurl, Method.fromBytes_name] at h
    cases hheaders : appendHeaders (forwardedHeaders a.headers) (trustedHeaders env a.identity) with
    | none => simp [hheaders] at h
    | some headers =>
      simp only [hheaders, Prepared.send.injEq] at h
      rw [← h]
      refine ⟨rfl, rfl, ?_⟩
      rw [upstreamUrl] at hurl
      split at hurl
      · exact absurd hurl (by simp)
      · obtain ⟨parsed, hparsed, hpath⟩ := Option.bind_eq_some_iff.1 hurl
        split at hpath
        · exact absurd hpath (by simp)
        · rename_i heq
          obtain rfl := Option.some.inj hpath
          exact ⟨parsed, hparsed, not_not.1 heq⟩

end Proxy

end LoadBalance
