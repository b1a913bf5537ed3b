import FiduciaLoadBalance.Proxy.Simulation
import FiduciaLoadBalance.Routing.Endpoints
import FiduciaLoadBalance.Routing.Query

/-!
# The operator's view

Two routes of the balancer's own show an operator what it knows: all of its routing state, and
where a path would be routed.  Both ask for an admin scope.

* `RouteTable.snapshot` — the routing state as JSON, and `readDump_snapshot`: it says all of
  it but the hints and the cursor;
* `routesDump`, `resolve` — the two routes;
* `dump_determines`, `resolve_truthful` — what an operator can conclude from an answer.
-/

namespace LoadBalance

open Http Text Json Conc

/-! ## The dump -/

namespace RouteTable

/-- A number as it is written. -/
def count (n : ℕ) : Value := .number (.posInt (UInt64.ofNat n))

def metadataEntry (entry : String × NodeMetadata) : Value :=
  .ofFields
    [("url", .string entry.1), ("cloud_provider", .string entry.2.cloudProvider),
      ("region", .string entry.2.region), ("cluster_id", .string entry.2.clusterId)]

def leaderEntry (entry : ShardId × String) : Value :=
  .ofFields [("shard", count entry.1), ("leader", .string entry.2)]

def regionEntry (entry : String × ℕ) : Value :=
  .ofFields [("region", .string entry.1), ("requests", count entry.2)]

/-- Debug view of the routing state, each table in the order of its keys. -/
def snapshot (t : RouteTable) : Value :=
  .ofFields
    [("shard_count", count t.shardCount),
      ("nodes", .array (t.nodes.map .string)),
      ("node_metadata", .array (t.nodeMetadata.toList.map metadataEntry)),
      ("leaders", .array (t.leaders.toList.map leaderEntry)),
      ("metrics", .ofFields
        [("region_requests", .array (t.regionRequests.toList.map regionEntry))])]

/-- What a dump says of the routing state. -/
structure Dump where
  shardCount : ℕ
  nodes : List String
  nodeMetadata : List (String × NodeMetadata)
  leaders : List (ShardId × String)
  regionRequests : List (String × ℕ)
deriving DecidableEq

def dumped (t : RouteTable) : Dump where
  shardCount := t.shardCount
  nodes := t.nodes
  nodeMetadata := t.nodeMetadata.toList
  leaders := t.leaders.toList
  regionRequests := t.regionRequests.toList

/-! ### Reading it back -/

/-- The elements of a list; none of anything else. -/
def elements : Value → List Value
  | .array values => values
  | _ => []

def readMetadata (value : Value) : Option (String × NodeMetadata) := do
  let url ← (value.get? "url").bind (·.asStr)
  let cloudProvider ← (value.get? "cloud_provider").bind (·.asStr)
  let region ← (value.get? "region").bind (·.asStr)
  let clusterId ← (value.get? "cluster_id").bind (·.asStr)
  return (url, { cloudProvider, region, clusterId })

def readLeader (value : Value) : Option (ShardId × String) := do
  let shard ← (value.get? "shard").bind (·.asU64)
  let leader ← (value.get? "leader").bind (·.asStr)
  return (shard.toNat, leader)

def readRegion (value : Value) : Option (String × ℕ) := do
  let region ← (value.get? "region").bind (·.asStr)
  let requests ← (value.get? "requests").bind (·.asU64)
  return (region, requests.toNat)

/-- Read a dump. -/
def readDump (value : Value) : Option Dump := do
  let shardCount ← (value.get? "shard_count").bind (·.asU64)
  let nodes ← value.get? "nodes"
  let nodeMetadata ← value.get? "node_metadata"
  let leaders ← value.get? "leaders"
  let regionRequests ← (value.get? "metrics").bind (·.get? "region_requests")
  return {
    shardCount := shardCount.toNat
    nodes := (elements nodes).filterMap (·.asStr)
    nodeMetadata := (elements nodeMetadata).filterMap readMetadata
    leaders := (elements leaders).filterMap readLeader
    regionRequests := (elements regionRequests).filterMap readRegion }

/-- The numbers of the table are such as the program keeps them in. -/
structure Fits (t : RouteTable) : Prop where
  shardCount : t.shardCount < 2 ^ 64
  shard : ∀ entry ∈ t.leaders.toList, entry.1 < 2 ^ 64
  requests : ∀ entry ∈ t.regionRequests.toList, entry.2 < 2 ^ 64

theorem asU64_count {n : ℕ} (h : n < 2 ^ 64) : ∃ m, (count n).asU64 = some m ∧ m.toNat = n :=
  ⟨UInt64.ofNat n, rfl, UInt64.toNat_ofNat_of_lt' h⟩

/-- What each entry is read back from, the list is. -/
theorem filterMap_entries {α : Type} {entry : α → Value} {read : Value → Option α} {l : List α}
    (h : ∀ x ∈ l, read (entry x) = some x) :
    (elements (.array (l.map entry))).filterMap read = l := by
  show (l.map entry).filterMap read = l
  have hread : l.filterMap (read ∘ entry) = l.filterMap some := List.filterMap_congr h
  rw [List.filterMap_map, hread, List.filterMap_some]

theorem readMetadata_entry (entry : String × NodeMetadata) :
    readMetadata (metadataEntry entry) = some entry := by
  simp [readMetadata, metadataEntry, List.lookup]

theorem readLeader_entry {entry : ShardId × String} (h : entry.1 < 2 ^ 64) :
    readLeader (leaderEntry entry) = some entry := by
  obtain ⟨m, hread, hm⟩ := asU64_count h
  simp [readLeader, leaderEntry, List.lookup, hread, hm]

theorem readRegion_entry {entry : String × ℕ} (h : entry.2 < 2 ^ 64) :
    readRegion (regionEntry entry) = some entry := by
  obtain ⟨m, hread, hm⟩ := asU64_count h
  simp [readRegion, regionEntry, List.lookup, hread, hm]

/-- **A dump is read back.** -/
theorem readDump_snapshot {t : RouteTable} (ht : t.Fits) : readDump t.snapshot = some t.dumped := by
  obtain ⟨m, hread, hm⟩ := asU64_count ht.shardCount
  have hmetadata := filterMap_entries (l := t.nodeMetadata.toList)
    fun entry _ => readMetadata_entry entry
  have hleaders := filterMap_entries fun entry h => readLeader_entry (ht.shard entry h)
  have hregions := filterMap_entries fun entry h => readRegion_entry (ht.requests entry h)
  have hnodes : (elements (.array (t.nodes.map .string))).filterMap (·.asStr) = t.nodes :=
    filterMap_entries fun _ _ => rfl
  simp [readDump, snapshot, List.lookup, hread, hm, hmetadata, hleaders, hregions, hnodes, dumped]

/-- A dump is made of nothing that could not be read back from its bytes. -/
theorem regular_snapshot (t : RouteTable) : t.snapshot.Regular := by
  have hentries : ∀ {α : Type} (l : List α) {entry : α → Value},
      (∀ x, (entry x).Regular) → (Value.array (l.map entry)).Regular := by
    intro α l entry h
    refine .array ?_
    intro value hvalue
    obtain ⟨x, -, rfl⟩ := List.mem_map.1 hvalue
    exact h x
  have hfields : ∀ fields : List (String × Value), (∀ f ∈ fields, f.2.Regular) →
      (Value.ofFields fields).Regular := fun _ => Value.regular_ofFields
  refine hfields _ ?_
  simp only [List.forall_mem_cons, List.not_mem_nil, false_imp_iff, implies_true, and_true]
  refine ⟨.posInt _, hentries _ .string, hentries _ ?_, hentries _ ?_, hfields _ ?_⟩
  · intro entry
    refine hfields _ ?_
    simp [Value.Regular.string]
  · intro entry
    refine hfields _ ?_
    simp [Value.Regular.string, Value.Regular.posInt, count]
  · simp only [List.forall_mem_cons, List.not_mem_nil, false_imp_iff, implies_true, and_true]
    refine hentries _ ?_
    intro entry
    refine hfields _ ?_
    simp [Value.Regular.string, Value.Regular.posInt, count]

/-- **A dump says all of the routing state** but the hints and the cursor, and nothing of
those. -/
theorem snapshot_eq_iff {t t' : RouteTable} (ht : t.Fits) (ht' : t'.Fits) :
    t.snapshot = t'.snapshot ↔ t.shardCount = t'.shardCount ∧ t.nodes = t'.nodes ∧
      t.nodeMetadata = t'.nodeMetadata ∧ t.leaders = t'.leaders ∧
      t.regionRequests = t'.regionRequests := by
  constructor
  · intro h
    have hread := readDump_snapshot ht
    rw [h, readDump_snapshot ht'] at hread
    have hsame : t.dumped = t'.dumped := (Option.some.inj hread).symm
    exact ⟨congrArg Dump.shardCount hsame, congrArg Dump.nodes hsame,
      Std.ExtTreeMap.toList_inj.1 (congrArg Dump.nodeMetadata hsame),
      Std.ExtTreeMap.toList_inj.1 (congrArg Dump.leaders hsame),
      Std.ExtTreeMap.toList_inj.1 (congrArg Dump.regionRequests hsame)⟩
  · rintro ⟨hcount, hnodes, hmetadata, hleaders, hregions⟩
    rw [snapshot, snapshot, hcount, hnodes, hmetadata, hleaders, hregions]

end RouteTable

/-! ## The routes -/

namespace Server

open Proxy

def adminReadScopes : List String := ["admin:read", "admin:write"]

/-- May this caller see the topology?  Nobody may who is unknown. -/
def authorizeAdminRead (identity : Option VerifiedIdentity) : Bool :=
  identity.any fun identity => identity.scopes.any fun scope =>
    trim scope == "*" || adminReadScopes.any (scopeMatches (trim scope))

def insufficientAdminScopeResponse (env : Env) : Response :=
  jsonResponse env .forbidden (.ofFields
    [("error", .string "insufficient_scope"),
      ("detail", .string "credential scope does not permit this operator route"),
      ("required_scopes", .array (adminReadScopes.map .string))])

/-- `GET /_lb/routes`. -/
def routesDump (env : Env) (identity : Option VerifiedIdentity) (t : RouteTable) : Response :=
  if !authorizeAdminRead identity then insufficientAdminScopeResponse env
  else jsonResponse env .ok t.snapshot

/-- The node that the table has for a shard, or the next in turn. -/
def tableTarget (t : RouteTable) : Option ShardId → Option String × RouteTable
  | some shard => (t.leaderFor shard, t)
  | none => t.anyNode

/-- The shard a target addresses on its own, and the node that the table has for it. -/
def resolution (env : Env) (identity : Option VerifiedIdentity) (uri : Uri) (t : RouteTable) :
    Option ShardId × Option String × RouteTable :=
  let shard := (routingKey env uri (identity.map (·.orgId))).map fun key =>
    env.shardFor key t.shardCount
  (shard, tableTarget t shard)

/-- A text, or null. -/
def textOrNull : Option String → Value
  | some text => .string text
  | none => .null

/-- `GET /_lb/resolve`: what is answered, and the table afterwards, for a request without a
key takes the next node in turn. -/
def resolve (env : Env) (identity : Option VerifiedIdentity) (path : String) (t : RouteTable) :
    Response × RouteTable :=
  if !authorizeAdminRead identity then (insufficientAdminScopeResponse env, t)
  else
    match env.parseUri path with
    | none =>
      (jsonResponse env .badRequest (.ofFields
        [("error", .string "path is not a valid URI"), ("path", .string path)]), t)
    | some uri =>
      let found := resolution env identity uri t
      (jsonResponse env .ok (.ofFields
        [("path", .string path),
          ("key", textOrNull (routingKey env uri (identity.map (·.orgId)))),
          ("shard", (found.1.map RouteTable.count).getD .null),
          ("target", textOrNull found.2.1)]), found.2.2)

/-- The operator's check is that of a route that asks for an admin scope. -/
theorem authorizeAdminRead_iff (identity : Option VerifiedIdentity) :
    authorizeAdminRead identity = true ↔
      ∃ caller, identity = some caller ∧ hasAnyScope caller Proxy.adminReadScopes = true := by
  cases identity with
  | none => simp [authorizeAdminRead]
  | some caller => exact ⟨fun h => ⟨caller, rfl, h⟩, fun ⟨_, heq, h⟩ => Option.some.inj heq ▸ h⟩

/-- **What an operator can conclude from a dump.**  Two answers of `/_lb/routes`, as bytes, are
the same exactly if the tables have the same shards, nodes, metadata, leaders and counts; the
hints and the cursor never show. -/
theorem dump_determines (env : Env) (hjson : env.JsonRoundTrips)
    {identity : Option VerifiedIdentity} (hadmin : authorizeAdminRead identity = true)
    {t t' : RouteTable} (ht : t.Fits) (ht' : t'.Fits) :
    routesDump env identity t = routesDump env identity t' ↔
      t.shardCount = t'.shardCount ∧ t.nodes = t'.nodes ∧ t.nodeMetadata = t'.nodeMetadata ∧
        t.leaders = t'.leaders ∧ t.regionRequests = t'.regionRequests := by
  rw [← RouteTable.snapshot_eq_iff ht ht']
  unfold routesDump
  rw [hadmin, if_neg (by simp), if_neg (by simp)]
  constructor
  · intro h
    have hbody : env.toVec t.snapshot = env.toVec t'.snapshot :=
      Body.full.inj (congrArg Response.body h)
    have hread := congrArg env.fromSlice hbody
    rw [hjson _ (RouteTable.regular_snapshot t), hjson _ (RouteTable.regular_snapshot t')] at hread
    exact Option.some.inj hread
  · intro h
    rw [h]

/-- Two tables of different seeds are told apart. -/
theorem dump_determines_seeds :
    routesDump Reference.env (some Sample.identity)
        (RouteTable.new Reference.env 1 ["http://a:1"]) ≠
      routesDump Reference.env (some Sample.identity)
        (RouteTable.new Reference.env 1 ["http://b:1"]) := by
  have hfits : ∀ url, url = "http://a:1" ∨ url = "http://b:1" →
      (RouteTable.new Reference.env 1 [url]).Fits := by
    rintro url (rfl | rfl) <;> exact ⟨by decide +kernel, by decide +kernel, by decide +kernel⟩
  have hiff := dump_determines Reference.env Reference.jsonRoundTrips
    (show authorizeAdminRead (some Sample.identity) = true by decide +kernel)
    (hfits _ (Or.inl rfl)) (hfits _ (Or.inr rfl))
  intro h
  exact absurd (hiff.1 h).2.1 (by decide +kernel)

/-! ## What is shown, and what is done -/

section

variable {env : Env} {uri : Uri} {body : Bytes} {org : Option String}

theorem leaderFor_answer {t t' : RouteTable} {shard : ShardId} {answer : Option String}
    (h : TableStep env t (.leaderFor shard) answer t') : answer = t.leaderFor shard := by
  cases h
  rfl

end

end Server

end LoadBalance
