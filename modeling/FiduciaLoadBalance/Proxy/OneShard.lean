import FiduciaLoadBalance.Proxy.Documents
import FiduciaLoadBalance.Proxy.Route
import FiduciaLoadBalance.Routing.Endpoints

/-!
# One record, and the shards its operations go to

The record of an idempotency key is reached by four requests: the protocol's claim,
complete and abandon, and the client's inspection.  `OneRoutingKey` says that they
share a routing key.  Three of them do; the abandon request has none, and goes to any
node.
-/

namespace LoadBalance

open Http Text Json

namespace Proxy

/-- Every one of these requests has the routing key of `key` in the org. -/
def OneRoutingKey (env : Env) (org : Option String) (key : String) (requests : List Request) :
    Prop :=
  ∀ request ∈ requests, routingKeyWithBody env request.uri request.body request.orgId =
    some (scopedKey env org key)

/-- A caller's question for the record of a key, spelled in the query. -/
structure Inspects (request : Request) (identity : Option VerifiedIdentity) (key : String) :
    Prop where
  identity : request.identity = identity
  method : request.method = .get
  path : request.uri.path = "/v1/idempotency"
  query : ∃ spelled, request.uri.query = some ("key=" ++ spelled) ∧ '&' ∉ spelled.toList ∧
    percentDecodeQuery spelled = key

section

variable {env : Env} {identity : Option VerifiedIdentity} {key : String}

/-- A document with a `key`, read back as the routing rules read it. -/
theorem jsonBodyField_toVec (hjson : env.JsonRoundTrips) {body : Value} (hbody : body.Regular)
    (hkey : body.get? "key" = some (.string key)) :
    jsonBodyField env (env.toVec body) "key" = some key := by
  rw [jsonBodyField, hjson body hbody]
  simp [hkey]

theorem routingKeyWithBody_claim (hjson : env.JsonRoundTrips) {body : Value}
    (hbody : body.Regular) (hkey : body.get? "key" = some (.string key)) (org : Option String) :
    routingKeyWithBody env claimUri (env.toVec body) org = some (scopedKey env org key) := by
  have hpath : segments claimUri.path = ["v1", "idempotency", "claim"] := by decide +kernel
  exact routingKeyWithBody_of_routedKey
    (.body .claim hpath (jsonBodyField_toVec hjson hbody hkey)) org

theorem routingKeyWithBody_complete (hjson : env.JsonRoundTrips) {body : Value}
    (hbody : body.Regular) (hkey : body.get? "key" = some (.string key)) (org : Option String) :
    routingKeyWithBody env completeUri (env.toVec body) org = some (scopedKey env org key) := by
  have hpath : segments completeUri.path = ["v1", "idempotency", "complete"] := by decide +kernel
  exact routingKeyWithBody_of_routedKey
    (.body .complete hpath (jsonBodyField_toVec hjson hbody hkey)) org

/-- No routing rule is about the abandon request. -/
theorem routingKeyWithBody_abandon (body : Bytes) (org : Option String) :
    routingKeyWithBody env abandonUri body org = none := by
  have hpath : segments abandonUri.path = ["v1", "idempotency", "abandon"] := by decide +kernel
  exact routingKeyWithBody_of_releases hpath org

theorem routingKeyWithBody_inspect {request : Request} (h : Inspects request identity key) :
    routingKeyWithBody env request.uri request.body request.orgId =
      some (scopedKey env (identity.map (·.orgId)) key) := by
  obtain ⟨spelled, hquery, hamp, hspelled⟩ := h.query
  have hpath : segments request.uri.path = ["v1", "idempotency"] := by
    rw [h.path]
    decide +kernel
  have hparam : queryParam request.uri "key" = some key := by
    rw [← hspelled]
    exact queryParam_single (by decide) (by simpa using hamp) hquery
  rw [Request.orgId, h.identity]
  exact routingKeyWithBody_of_routedKey (.query .idempotency hpath hparam) _

/-- A request without a routing key goes to any node. -/
theorem firstTarget_of_none {shardCount : ℕ} {request : Request}
    (h : routingKeyWithBody env request.uri request.body request.orgId = none) :
    firstTarget env shardCount request = anyNode := by
  have hshard : request.shard env shardCount = none := by
    unfold Request.shard
    rw [h]
    rfl
  rw [firstTarget, hshard]

end

/-- **One record, two shards.**  For every org and every key, claim, complete and
inspection have the key's routing key, and the abandon request has none: it goes to
whichever node the round-robin scan yields.  So the four never share a routing key. -/
theorem abandon_not_oneRoutingKey (env : Env) (hjson : env.JsonRoundTrips) (shardCount : ℕ)
    (request : Request) (idempotency : CustomerIdempotency) (fencingToken : UInt64)
    (stored : StoredIdempotencyResponse) {inspection : Request}
    (hinspect : Inspects inspection request.identity idempotency.internalKey) :
    OneRoutingKey env request.orgId idempotency.internalKey
        [claimRequest env request idempotency,
          completeRequest env request idempotency fencingToken stored, inspection] ∧
      firstTarget env shardCount (abandonRequest env request idempotency fencingToken) = anyNode ∧
      ¬OneRoutingKey env request.orgId idempotency.internalKey
        [claimRequest env request idempotency,
          completeRequest env request idempotency fencingToken stored,
          abandonRequest env request idempotency fencingToken, inspection] := by
  have hnone : routingKeyWithBody env
      (abandonRequest env request idempotency fencingToken).uri
      (abandonRequest env request idempotency fencingToken).body
      (abandonRequest env request idempotency fencingToken).orgId = none :=
    routingKeyWithBody_abandon _ _
  refine ⟨fun r hr => ?_, ?_, fun h => ?_⟩
  · simp only [List.mem_cons, List.not_mem_nil, or_false] at hr
    rcases hr with rfl | rfl | rfl
    · exact routingKeyWithBody_claim hjson (regular_claimBody _) (claimBody_key _) _
    · exact routingKeyWithBody_complete hjson (regular_completeBody _ _ _)
        (completeBody_key _ _ _) _
    · exact routingKeyWithBody_inspect hinspect
  · exact firstTarget_of_none hnone
  · have habandon := h (abandonRequest env request idempotency fencingToken) (by simp)
    rw [hnone] at habandon
    exact absurd habandon (by simp)

/-- The question for the record of the sample's key. -/
def Sample.inspection : Request where
  identity := some Sample.identity
  method := .get
  uri := ⟨none, none, "/v1/idempotency", some "key=customer/6f72673a6f/6b", by decide⟩
  headers := .empty
  body := []

theorem Sample.inspects : Inspects Sample.inspection (Sample.put []).identity
    (Sample.claimed []).internalKey where
  identity := rfl
  method := rfl
  path := by decide +kernel
  query := ⟨"customer/6f72673a6f/6b", rfl, by decide, by decide +kernel⟩

def Sample.stored : StoredIdempotencyResponse :=
  .fromCaptured (Sample.claimed []) ⟨.ok, .empty, utf8 "done"⟩

/-- The sample's claim is released at whichever node comes next. -/
theorem abandon_not_oneRoutingKey_put :
    firstTarget Reference.env 1 (abandonRequest Reference.env (Sample.put []) (Sample.claimed []) 1) =
      anyNode :=
  (abandon_not_oneRoutingKey Reference.env Reference.jsonRoundTrips 1 (Sample.put [])
    (Sample.claimed []) 1 Sample.stored Sample.inspects).2.1

/-- **The four requests do not share a routing key**: the abandon request has none. -/
theorem requests_of_put_not_oneRoutingKey :
    ¬OneRoutingKey Reference.env (Sample.put []).orgId (Sample.claimed []).internalKey
      [claimRequest Reference.env (Sample.put []) (Sample.claimed []),
        completeRequest Reference.env (Sample.put []) (Sample.claimed []) 1 Sample.stored,
        abandonRequest Reference.env (Sample.put []) (Sample.claimed []) 1, Sample.inspection] := by
  intro h
  have habandon := h (abandonRequest Reference.env (Sample.put []) (Sample.claimed []) 1) (by simp)
  exact absurd (habandon.symm.trans (routingKeyWithBody_abandon _ _)) (by simp)

end Proxy

end LoadBalance
