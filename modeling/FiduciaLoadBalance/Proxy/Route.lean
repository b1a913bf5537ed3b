import FiduciaLoadBalance.Proxy.Idempotency
import FiduciaLoadBalance.Proxy.Scopes
import FiduciaLoadBalance.Reference

/-!
# Routing a request

The entry point `route`: refuse dot segments, check scopes, and forward — directly,
or, for a mutation with an `Idempotency-Key`, between claiming the key and
completing or releasing the claim.

* `wp_routeWithoutCustomerIdempotency` — the rule for sending one request on its
  way, from the obligations of the retry loop and of the choice of the first target.
-/

namespace LoadBalance

open Http Text Conc

namespace Proxy

/-- A request as a route task receives it. -/
structure Request where
  identity : Option VerifiedIdentity
  method : Method
  uri : Uri
  headers : HeaderMap
  body : Bytes
deriving DecidableEq

namespace Request

def orgId (request : Request) : Option String := request.identity.map (·.orgId)

/-- The shard of a request that addresses one.  Irreducible, so that no elaboration
step reads a path to find out what a task does first. -/
@[irreducible] def shard (env : Env) (shardCount : ℕ) (request : Request) : Option ShardId :=
  (routingKeyWithBody env request.uri request.body request.orgId).map fun key =>
    env.shardFor key shardCount

/-- The request on its way to a first target. -/
def forward (env : Env) (shardCount : ℕ) (request : Request) (target : String) :
    ForwardRequest where
  identity := request.identity
  target := target
  shard := request.shard env shardCount
  method := request.method
  uri := request.uri
  headers := request.headers
  body := request.body

/-- The attempt to forward a request to a node. -/
def attempt (request : Request) (nodeUrl : String) : Attempt where
  nodeUrl := nodeUrl
  identity := request.identity
  method := request.method
  uri := request.uri
  headers := request.headers
  body := request.body

end Request

def noRouteResponse (env : Env) (shard : Option ShardId) : Response :=
  jsonResponse env .serviceUnavailable (.ofFields
    [("error", .string "no_route"),
      ("detail", .string "no known node for this request"),
      ("shard", match shard with
        | some shard => .number (.posInt (UInt64.ofNat shard))
        | none => .null)])

/-- The first target of a request: its shard's leader, or any node. -/
def firstTarget (env : Env) (shardCount : ℕ) (request : Request) : Task (Option String) :=
  match request.shard env shardCount with
  | some shard => leaderFor shard
  | none => anyNode

def routeWithoutCustomerIdempotency (env : Env) (shardCount : ℕ) (request : Request) :
    Task Response := do
  match ← firstTarget env shardCount request with
  | none => return noRouteResponse env (request.shard env shardCount)
  | some target => forwardWithRedirect env (request.forward env shardCount target)

/-! ## The steps of the idempotency protocol -/

def claimUri : Uri := ⟨none, none, "/v1/idempotency/claim", none, by decide⟩

def completeUri : Uri := ⟨none, none, "/v1/idempotency/complete", none, by decide⟩

def abandonUri : Uri := ⟨none, none, "/v1/idempotency/abandon", none, by decide⟩

def jsonHeaders : HeaderMap :=
  HeaderMap.empty.insert "content-type" applicationJson

/-- A request of the balancer's own to the node that keeps a key's record. -/
def internalRequest (env : Env) (identity : Option VerifiedIdentity) (uri : Uri)
    (body : Json.Value) : Request where
  identity := identity
  method := .post
  uri := uri
  headers := jsonHeaders
  body := env.toVec body

def claimCustomerIdempotency (env : Env) (shardCount : ℕ) (identity : Option VerifiedIdentity)
    (idempotency : CustomerIdempotency) : Task (Except Response IdempotencyClaim) := do
  let response ← routeWithoutCustomerIdempotency env shardCount
    (internalRequest env identity claimUri (claimBody idempotency))
  return readClaim env response

/-- Did the response to a complete request say that the record was completed? -/
def readCompleted (env : Env) (response : Response) : Bool :=
  match CapturedResponse.fromResponse env response with
  | .error _ => false
  | .ok captured =>
    captured.status.isSuccess &&
      ((((env.fromSlice captured.body).bind outputOf).bind (·.get? "completed")).bind
        (·.asBool)).getD false

def completeCustomerIdempotency (env : Env) (shardCount : ℕ)
    (identity : Option VerifiedIdentity) (idempotency : CustomerIdempotency)
    (fencingToken : UInt64) (stored : StoredIdempotencyResponse) : Task Bool := do
  let response ← routeWithoutCustomerIdempotency env shardCount
    (internalRequest env identity completeUri (completeBody idempotency fencingToken stored))
  return readCompleted env response

/-- Release a claim.  A release that fails is only logged. -/
def abandonCustomerIdempotency (env : Env) (shardCount : ℕ)
    (identity : Option VerifiedIdentity) (idempotency : CustomerIdempotency)
    (fencingToken : UInt64) : Task Unit := do
  let _ ← routeWithoutCustomerIdempotency env shardCount
    (internalRequest env identity abandonUri (abandonBody idempotency fencingToken))
  return ()

def storedHeader : HeaderValue := ⟨utf8 "stored", by decide⟩

def notStoredHeader : HeaderValue := ⟨utf8 "not_stored", by decide⟩

def storeFailedHeader : HeaderValue := ⟨utf8 "store_failed", by decide⟩

/-- What follows the mutation: complete the record with a final response, or release
the claim. -/
def settleCustomerIdempotency (env : Env) (shardCount : ℕ) (request : Request)
    (idempotency : CustomerIdempotency) (fencingToken : UInt64) (response : Response) :
    Task Response :=
  match CapturedResponse.fromResponse env response with
  | .error response => do
    abandonCustomerIdempotency env shardCount request.identity idempotency fencingToken
    return response
  | .ok captured =>
    if !isCacheableIdempotentResponse captured.status then do
      abandonCustomerIdempotency env shardCount request.identity idempotency fencingToken
      return captured.intoResponse.withHeader fiduciaIdempotencyHeader notStoredHeader
    else do
      let stored := StoredIdempotencyResponse.fromCaptured idempotency captured
      let completed ← completeCustomerIdempotency env shardCount request.identity idempotency
        fencingToken stored
      return captured.intoResponse.withHeader fiduciaIdempotencyHeader
        (if completed then storedHeader else storeFailedHeader)

def routeWithCustomerIdempotency (env : Env) (shardCount : ℕ) (request : Request)
    (idempotency : CustomerIdempotency) : Task Response := do
  match ← claimCustomerIdempotency env shardCount request.identity idempotency with
  | .error response => return response
  | .ok claim =>
    match responseForDuplicateClaim env idempotency claim with
    | some response => return response
    | none =>
      match claim.fencingToken with
      | none => return idempotencyUnavailable env "claim did not return a fencing token"
      | some fencingToken => do
        let response ← routeWithoutCustomerIdempotency env shardCount request
        settleCustomerIdempotency env shardCount request idempotency fencingToken response

/-- The entry point: check, then forward. -/
def route (env : Env) (shardCount : ℕ) (request : Request) : Task Response :=
  if pathHasDotSegment request.uri.path then return dotSegmentResponse env request.uri
  else
    match authorizeRoute request.identity request.method request.uri with
    | some required =>
      return insufficientScopeResponse env request.method request.uri required
    | none =>
      match CustomerIdempotency.fromRequest env request.identity request.method request.uri
          request.headers request.body with
      | .error response => return response
      | .ok none =>
        if request.identity.any (·.requireIdempotency) &&
            methodSupportsCustomerIdempotency request.method &&
            !isIdempotencyPrimitive request.uri then
          return idempotencyKeyRequired env request.method request.uri
        else routeWithoutCustomerIdempotency env shardCount request
      | .ok (some idempotency) => routeWithCustomerIdempotency env shardCount request idempotency

/-! ## Reasoning about one request -/

section

variable {env : Env} {shardCount : ℕ} {c : Contract Call Call.Answer} {request : Request}
  {Q : History → Response → Prop}

@[simp] theorem forward_attempt (request : Request) (target nodeUrl : String) :
    (request.forward env shardCount target).attempt nodeUrl = request.attempt nodeUrl := rfl

/-- **The rule for one request**, from the obligations of the retry loop and of the
choice of the first target. -/
theorem wp_routeWithoutCustomerIdempotency {I : List String → String → History → Prop}
    {J : List String → History → Prop} {h : History}
    (hops : ∀ target, Hops env c (request.forward env shardCount target) I J Q)
    (hkeyed : ∀ shard, request.shard env shardCount = some shard →
      c.guarantee h (.leaderFor shard) ∧ ∀ answer : Option String,
        c.rely h (.leaderFor shard) answer →
          (∀ target, answer = some target → I [] target (h ++ [⟨.leaderFor shard, answer⟩])) ∧
          (answer = none → Q (h ++ [⟨.leaderFor shard, answer⟩])
            (noRouteResponse env (request.shard env shardCount))))
    (hkeyless : request.shard env shardCount = none →
      c.guarantee h (.anyNodeExcluding []) ∧ ∀ answer : Option String,
        c.rely h (.anyNodeExcluding []) answer →
          (∀ target, answer = some target → I [] target (h ++ [⟨.anyNodeExcluding [], answer⟩])) ∧
          (answer = none → Q (h ++ [⟨.anyNodeExcluding [], answer⟩])
            (noRouteResponse env (request.shard env shardCount)))) :
    (routeWithoutCustomerIdempotency env shardCount request).wp c Q h := by
  have hfound : ∀ {h' : History} {answer : Option String},
      (∀ target, answer = some target → I [] target h') →
      (answer = none → Q h' (noRouteResponse env (request.shard env shardCount))) →
      (match answer with
        | none => pure (noRouteResponse env (request.shard env shardCount))
        | some target => forwardWithRedirect env (request.forward env shardCount target)).wp
        c Q h' := by
    intro h' answer hsome hnone
    cases answer with
    | none => exact hnone rfl
    | some target =>
      exact wp_forwardWithRedirect (hops target) (hsome target rfl)
  rw [routeWithoutCustomerIdempotency]
  unfold firstTarget
  split
  · rename_i shard hshard
    obtain ⟨hg, hk⟩ := hkeyed shard hshard
    exact ⟨hg, fun answer hr => hfound (hk answer hr).1 (hk answer hr).2⟩
  · rename_i hshard
    obtain ⟨hg, hk⟩ := hkeyless hshard
    exact ⟨hg, fun answer hr => hfound (hk answer hr).1 (hk answer hr).2⟩

/-- The obligations of one request where nothing depends on the targets: `K` is an
invariant of the history, kept by the table's answers and by attempts that do not end
the request. -/
structure Sending (env : Env) (c : Contract Call Call.Answer) (request : Request)
    (K : History → Prop) (Q : History → Response → Prop) : Prop where
  table : ∀ {h e}, K h → e.IsTable → c.guarantee h e ∧
    ∀ r : e.Answer, c.rely h e r → K (h ++ [⟨e, r⟩])
  attempt : ∀ {h}, K h → ∀ nodeUrl, c.guarantee h (.forwardOnce (request.attempt nodeUrl)) ∧
    ∀ reply : Reply, c.rely h (.forwardOnce (request.attempt nodeUrl)) reply →
      AfterAttempt env request.method K Q
        (h ++ [⟨.forwardOnce (request.attempt nodeUrl), reply⟩])
        (outcome env (request.attempt nodeUrl) reply)
  noRoute : ∀ {h}, K h → ∀ shard, Q h (noRouteResponse env shard)
  noLeader : ∀ {h}, K h → Q h (noLeaderResponse env)

/-- **The rule for one request** whose targets do not matter. -/
theorem wp_of_sending {K : History → Prop} (hs : Sending env c request K Q)
    (hrecord : ∀ h nodeUrl, c.rely h (.recordRegionRequest nodeUrl) ()) {h : History} (hK : K h) :
    (routeWithoutCustomerIdempotency env shardCount request).wp c Q h := by
  have hops : ∀ target, Hops env c (request.forward env shardCount target)
      (fun _ _ => K) (fun _ => K) Q := by
    intro target
    refine ⟨fun hK => ?_, fun hK _ => hs.attempt hK _,
      fun hK leader => ⟨fun shard _ => ?_, fun _ => ?_⟩, fun hK => ?_,
      fun hK _ => hs.noLeader hK⟩
    · obtain ⟨hg, hk⟩ := hs.table (e := .recordRegionRequest _) hK trivial
      exact ⟨hg, hk () (hrecord _ _)⟩
    · obtain ⟨hg, hk⟩ := hs.table (e := .acceptLeaderHint shard leader) hK trivial
      exact ⟨hg, fun answer hr => ⟨hk answer hr, fun _ _ _ => hk answer hr⟩⟩
    · obtain ⟨hg, hk⟩ := hs.table (e := .validateNodeHint leader) hK trivial
      exact ⟨hg, fun answer hr => ⟨hk answer hr, fun _ _ _ => hk answer hr⟩⟩
    · obtain ⟨hg, hk⟩ := hs.table (e := .anyNodeExcluding _) hK trivial
      exact ⟨hg, fun answer hr => ⟨fun _ _ => hk answer hr, fun _ => hs.noLeader (hk answer hr)⟩⟩
  apply wp_routeWithoutCustomerIdempotency hops
  · intro shard _
    obtain ⟨hg, hk⟩ := hs.table (e := .leaderFor shard) hK trivial
    exact ⟨hg, fun answer hr => ⟨fun _ _ => hk answer hr, fun _ => hs.noRoute (hk answer hr) _⟩⟩
  · intro _
    obtain ⟨hg, hk⟩ := hs.table (e := .anyNodeExcluding []) hK trivial
    exact ⟨hg, fun answer hr => ⟨fun _ _ => hk answer hr, fun _ => hs.noRoute (hk answer hr) _⟩⟩

end

/-! ## Reasoning about the protocol -/

/-- What a response to a claim comes to: the token the key was granted with, or the
response the request is answered with instead. -/
def grantedToken (env : Env) (idempotency : CustomerIdempotency) (response : Response) :
    Except Response UInt64 :=
  match readClaim env response with
  | .error response => .error response
  | .ok claim =>
    match responseForDuplicateClaim env idempotency claim with
    | some response => .error response
    | none =>
      match claim.fencingToken with
      | none => .error (idempotencyUnavailable env "claim did not return a fencing token")
      | some fencingToken => .ok fencingToken

/-- What the response to a mutation comes to: the capture to complete the record with,
or the response the request is answered with once the claim is released. -/
def finalCapture (env : Env) (response : Response) : Except Response CapturedResponse :=
  match CapturedResponse.fromResponse env response with
  | .error response => .error response
  | .ok captured =>
    if !isCacheableIdempotentResponse captured.status then
      .error (captured.intoResponse.withHeader fiduciaIdempotencyHeader notStoredHeader)
    else .ok captured

section

variable {env : Env} {shardCount : ℕ} {c : Contract Call Call.Answer} {request : Request}
  {idempotency : CustomerIdempotency} {Q : History → Response → Prop} {h : History}

/-- The request that claims the key. -/
def claimRequest (env : Env) (request : Request) (idempotency : CustomerIdempotency) : Request :=
  internalRequest env request.identity claimUri (claimBody idempotency)

/-- The request that completes the record. -/
def completeRequest (env : Env) (request : Request) (idempotency : CustomerIdempotency)
    (fencingToken : UInt64) (stored : StoredIdempotencyResponse) : Request :=
  internalRequest env request.identity completeUri (completeBody idempotency fencingToken stored)

/-- The request that releases the claim. -/
def abandonRequest (env : Env) (request : Request) (idempotency : CustomerIdempotency)
    (fencingToken : UInt64) : Request :=
  internalRequest env request.identity abandonUri (abandonBody idempotency fencingToken)

/-- The steps after the mutation, as one request each. -/
theorem wp_settleCustomerIdempotency {fencingToken : UInt64} {response : Response} :
    (settleCustomerIdempotency env shardCount request idempotency fencingToken response).wp c Q h ↔
      match finalCapture env response with
      | .error response =>
        (routeWithoutCustomerIdempotency env shardCount
          (abandonRequest env request idempotency fencingToken)).wp c
          (fun h' _ => Q h' response) h
      | .ok captured =>
        (routeWithoutCustomerIdempotency env shardCount
          (completeRequest env request idempotency fencingToken
            (.fromCaptured idempotency captured))).wp c
          (fun h' response => Q h' (captured.intoResponse.withHeader fiduciaIdempotencyHeader
            (if readCompleted env response then storedHeader else storeFailedHeader))) h := by
  rw [settleCustomerIdempotency, finalCapture]
  cases CapturedResponse.fromResponse env response with
  | error response =>
    dsimp only
    rw [Proc.wp_bind, abandonCustomerIdempotency, Proc.wp_bind]
    exact Iff.rfl
  | ok captured =>
    dsimp only
    split
    · rw [Proc.wp_bind, abandonCustomerIdempotency, Proc.wp_bind]
      exact Iff.rfl
    · rw [Proc.wp_bind, completeCustomerIdempotency, Proc.wp_bind]
      exact Iff.rfl

/-- What is left to show once a claim came to a token or a response: the response is the
task's, or the request is sent under the token and settled. -/
def AfterClaim (env : Env) (shardCount : ℕ) (c : Contract Call Call.Answer) (request : Request)
    (idempotency : CustomerIdempotency) (Q : History → Response → Prop) (h : History) :
    Except Response UInt64 → Prop
  | .error response => Q h response
  | .ok fencingToken =>
    (routeWithoutCustomerIdempotency env shardCount request).wp c
      (fun h' response => (settleCustomerIdempotency env shardCount request idempotency
        fencingToken response).wp c Q h') h

/-- The protocol, as one request after the other. -/
theorem wp_routeWithCustomerIdempotency :
    (routeWithCustomerIdempotency env shardCount request idempotency).wp c Q h ↔
      (routeWithoutCustomerIdempotency env shardCount
        (claimRequest env request idempotency)).wp c
        (fun h' response => AfterClaim env shardCount c request idempotency Q h'
          (grantedToken env idempotency response)) h := by
  rw [routeWithCustomerIdempotency, Proc.wp_bind, claimCustomerIdempotency, Proc.wp_bind]
  have hstep : ∀ (h' : History) (response : Response),
      (match readClaim env response with
        | .error response => (pure response : Task Response)
        | .ok claim =>
          match responseForDuplicateClaim env idempotency claim with
          | some response => pure response
          | none =>
            match claim.fencingToken with
            | none => pure (idempotencyUnavailable env "claim did not return a fencing token")
            | some fencingToken => do
              let response ← routeWithoutCustomerIdempotency env shardCount request
              settleCustomerIdempotency env shardCount request idempotency fencingToken
                response).wp c Q h' ↔
      AfterClaim env shardCount c request idempotency Q h'
        (grantedToken env idempotency response) := by
    intro h' response
    rw [grantedToken]
    cases readClaim env response with
    | error response => exact Iff.rfl
    | ok claim =>
      dsimp only
      cases responseForDuplicateClaim env idempotency claim with
      | some response => exact Iff.rfl
      | none =>
        dsimp only
        cases claim.fencingToken with
        | none => exact Iff.rfl
        | some fencingToken => exact Proc.wp_bind
  exact ⟨fun h => Proc.wp_mono h fun h' r => (hstep h' r).1,
    fun h => Proc.wp_mono h fun h' r => (hstep h' r).2⟩

end

/-! ## A request to play with -/

namespace Sample

def identity : VerifiedIdentity where
  kind := .apiKey
  orgId := "o"
  keyId := none
  scopes := ["*"]
  requireIdempotency := false

def uri : Uri := ⟨none, none, "/v1/kv/a", none, by decide⟩

/-- A path whose second segment only begins like the protocol's routes. -/
def lookalike : Uri := ⟨none, none, "/v1/idempotency-keys", none, by decide⟩

def key : HeaderValue := ⟨utf8 "k", by decide⟩

def headers : HeaderMap := ⟨[(idempotencyKeyHeader, key)]⟩

/-- A mutation with a key. -/
def put (body : Bytes) : Request := { identity := some identity, method := .put, uri, headers, body }

/-- What it claims. -/
def claimed (body : Bytes) : CustomerIdempotency :=
  .ofKey Reference.env (some identity) .put uri headers body "k"

theorem fromRequest_put (body : Bytes) : CustomerIdempotency.fromRequest Reference.env
    (put body).identity (put body).method (put body).uri (put body).headers (put body).body =
      .ok (some (claimed body)) := by
  have hmutation : (!methodSupportsCustomerIdempotency .put || isIdempotencyPrimitive uri) = false := by
    decide +kernel
  have hkey : headers.get idempotencyKeyHeader = some key := by decide +kernel
  have htext : key.toStr = some "k" := by decide +kernel
  have htrim : trim "k" = "k" := by decide +kernel
  show CustomerIdempotency.fromRequest Reference.env (some identity) .put uri headers body = _
  rw [CustomerIdempotency.fromRequest, hmutation, if_neg (by simp), hkey]
  dsimp only
  rw [htext]
  dsimp only
  rw [htrim, if_neg (by decide), if_neg (by decide +kernel), if_neg (by decide +kernel), claimed]

/-- A table of two nodes and one shard. -/
def table : RouteTable := RouteTable.new Reference.env 1 ["http://a:1", "http://b:1"]

def accepted : Reply := .response .ok .empty [utf8 "done"] .eof

/-- An outside in which the first node cannot be reached and the second accepts
everything. -/
def oracle (_ : History) : (e : Call) → e.Answer
  | .leaderFor shard => table.leaderFor shard
  | .anyNodeExcluding excluded => (table.anyNodeExcluding excluded).1
  | .acceptLeaderHint shard nodeUrl => (table.acceptLeaderHint Reference.env shard nodeUrl 0).1
  | .validateNodeHint nodeUrl => table.validateNodeHint Reference.env nodeUrl
  | .recordRegionRequest _ => ()
  | .forwardOnce a => if a.nodeUrl = "http://a:1" then .connectError else accepted

/-- What it answers of the table is the table's answer. -/
theorem tableStep_oracle (h : History) {e : Call} (he : e.IsTable) :
    ∃ t', TableStep Reference.env table e (oracle h e) t' := by
  cases e with
  | leaderFor shard => exact ⟨_, .leaderFor table shard⟩
  | anyNodeExcluding excluded => exact ⟨_, .anyNodeExcluding table excluded⟩
  | acceptLeaderHint shard nodeUrl => exact ⟨_, .acceptLeaderHint table shard nodeUrl 0⟩
  | validateNodeHint nodeUrl => exact ⟨_, .validateNodeHint table nodeUrl⟩
  | recordRegionRequest nodeUrl => exact ⟨_, .recordRegionRequest table nodeUrl⟩
  | forwardOnce a => exact he.elim

end Sample

end Proxy

end LoadBalance
