import FiduciaLoadBalance.Proxy.Route

/-!
# What the authorizer and the router take for a lock

Two tables classify paths.  The authorizer's asks for a lock scope on the families
`locks`, `semaphores` and `rw`; the router's sends `locks` and `semaphores` to the
one coordinator shard.

* `requiredScopesForRoute_lockPrimitive` — the lock-primitive paths are those of the
  authorizer's lock arms.
* `routingKeyWithBody_locks`, `routingKeyWithBody_rw` — what the router makes of them.
* `coordinated_iff` — the two agree on every family but `rw`, which has no routing
  key at all.
-/

namespace LoadBalance

open Http Text

namespace Proxy

variable {env : Env}

/-- The paths under the authorizer's lock-primitive arms, by family. -/
def LockPrimitive (path family : String) : Prop :=
  ∃ rest, segments path = "v1" :: family :: rest ∧ family ∈ ["locks", "semaphores", "rw"]

theorem requiredScopesForRoute_lockPrimitive {uri : Uri} {family : String}
    (h : LockPrimitive uri.path family) (method : Method) :
    requiredScopesForRoute method uri =
      if isReadMethod method then locksReadScopes else locksWriteScopes := by
  obtain ⟨rest, hsegments, hfamily⟩ := h
  rw [requiredScopesForRoute, hsegments]
  simp only [List.mem_cons, List.not_mem_nil, or_false] at hfamily
  rcases hfamily with rfl | rfl | rfl <;> rfl

/-! ## The router's side -/

/-- Locks and semaphores are routed by the coordinator's key, whatever they name. -/
theorem routingKeyWithBody_locks {uri : Uri} {family : String}
    (h : LockPrimitive uri.path family) (hfamily : family ≠ "rw") (body : Bytes)
    (org : Option String) :
    routingKeyWithBody env uri body org = some env.lockCoordinationKey := by
  obtain ⟨rest, hsegments, hmem⟩ := h
  have hkey : routingKey env uri org = some env.lockCoordinationKey := by
    rw [routingKey, routingSegments_eq, hsegments]
    simp only [List.mem_cons, List.not_mem_nil, or_false] at hmem
    rcases hmem with rfl | rfl | rfl
    · rfl
    · rfl
    · exact absurd rfl hfamily
  rw [routingKeyWithBody, hkey, Option.some_or]

/-- Read-write locks have no routing key, in the target or in the body. -/
theorem routingKeyWithBody_rw {uri : Uri} (h : LockPrimitive uri.path "rw") (body : Bytes)
    (org : Option String) : routingKeyWithBody env uri body org = none := by
  obtain ⟨rest, hsegments, -⟩ := h
  rw [routingKeyWithBody, routingKey, routingSegments_eq, hsegments]
  rfl

/-! ## One coordinator -/

/-- The leader that a table knows for the shard of a request. -/
def Request.leader (env : Env) (t : RouteTable) (request : Request) : Option String :=
  (request.shard env t.shardCount).bind t.leaderFor

/-- A lock-primitive request is coordinated: its key is the coordinator's, whatever its
query, its body and its tenant, so that it resolves to the coordinator's shard and, in any
table state, to the leader of that shard. -/
structure Coordinated (env : Env) (request : Request) : Prop where
  key : routingKeyWithBody env request.uri request.body request.orgId =
    some env.lockCoordinationKey
  shard : ∀ shardCount, request.shard env shardCount =
    some (env.shardFor env.lockCoordinationKey shardCount)
  leader : ∀ t : RouteTable, request.leader env t =
    t.leaderFor (env.shardFor env.lockCoordinationKey t.shardCount)

theorem coordinated_of_key {request : Request}
    (h : routingKeyWithBody env request.uri request.body request.orgId =
      some env.lockCoordinationKey) : Coordinated env request := by
  have hshard : ∀ shardCount, request.shard env shardCount =
      some (env.shardFor env.lockCoordinationKey shardCount) := by
    intro shardCount
    unfold Request.shard
    rw [h, Option.map_some]
  refine ⟨h, hshard, ?_⟩
  intro t
  unfold Request.leader
  rw [hshard, Option.bind_some]

/-- **A lock-primitive request is coordinated exactly when its family is not `rw`**,
and any two that are resolve to one shard and, in any given table state, to one leader. -/
theorem coordinated_iff {request : Request} {family : String}
    (h : LockPrimitive request.uri.path family) :
    (Coordinated env request ↔ family ≠ "rw") ∧
    ∀ {other : Request} {family' : String}, LockPrimitive other.uri.path family' →
      family ≠ "rw" → family' ≠ "rw" →
        (∀ shardCount, request.shard env shardCount = other.shard env shardCount) ∧
        ∀ t : RouteTable, request.leader env t = other.leader env t := by
  refine ⟨⟨?_, ?_⟩, ?_⟩
  · intro hcoord hrw
    subst hrw
    have hkey := hcoord.key
    rw [routingKeyWithBody_rw h] at hkey
    exact absurd hkey (by simp)
  · intro hfamily
    exact coordinated_of_key (routingKeyWithBody_locks h hfamily _ _)
  · intro other family' h' hfamily hfamily'
    have hone : Coordinated env request :=
      coordinated_of_key (routingKeyWithBody_locks h hfamily _ _)
    have hother : Coordinated env other :=
      coordinated_of_key (routingKeyWithBody_locks h' hfamily' _ _)
    constructor
    · intro shardCount
      rw [hone.shard, hother.shard]
    · intro t
      rw [hone.leader, hother.leader]

namespace Sample

/-- Acquire a read-write lock. -/
def acquire : Request where
  identity := some identity
  method := .post
  uri := ⟨none, none, "/v1/rw/acquire", none, by decide⟩
  headers := .empty
  body := []

/-- Acquire a permit of a semaphore. -/
def permit : Request where
  identity := none
  method := .post
  uri := ⟨none, none, "//v1/semaphores/acquire/", none, by decide⟩
  headers := .empty
  body := []

theorem lockPrimitive_acquire : LockPrimitive acquire.uri.path "rw" :=
  ⟨["acquire"], by decide +kernel, by decide⟩

theorem lockPrimitive_permit : LockPrimitive permit.uri.path "semaphores" :=
  ⟨["acquire"], by decide +kernel, by decide⟩

end Sample

theorem coordinated_permit : Coordinated Reference.env Sample.permit :=
  (coordinated_iff Sample.lockPrimitive_permit).1.2 (by decide)

/-- **A read-write lock is sent to any node**: it has no routing key, so it has no shard. -/
theorem not_coordinated :
    LockPrimitive Sample.acquire.uri.path "rw" ∧
      routingKeyWithBody Reference.env Sample.acquire.uri Sample.acquire.body
        Sample.acquire.orgId = none ∧
      ¬Coordinated Reference.env Sample.acquire := by
  refine ⟨Sample.lockPrimitive_acquire, ?_, ?_⟩
  · exact routingKeyWithBody_rw Sample.lockPrimitive_acquire _ _
  · intro h
    have hkey := h.key
    rw [routingKeyWithBody_rw Sample.lockPrimitive_acquire] at hkey
    exact absurd hkey (by simp)

end Proxy

end LoadBalance
