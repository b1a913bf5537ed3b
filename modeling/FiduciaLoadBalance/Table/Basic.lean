import FiduciaLoadBalance.Env

/-!
# The shard → leader routing table

The balancer's cache of who leads which shard: seeded from configuration, replaced
by brain snapshots, corrected by the hints of nodes that are not the leader.  Each
operation is one critical section of the table's lock, so each is one function of
the state here.

* `RouteTable.acceptLeaderHint`, `RouteTable.validateNodeHint` — follow a hint only
  to a known node;
* `RouteTable.anyNodeExcluding` — the round-robin scan;
* `RouteTable.applyBrainSnapshotAt` — replace nodes and leaders, or change nothing.
-/

namespace LoadBalance

open Text

/-- A shard number. -/
abbrev ShardId : Type := ℕ

/-- A reading of the monotonic clock. -/
abbrev Instant : Type := ℕ

structure NodeMetadata where
  cloudProvider : String
  region : String
  clusterId : String
deriving DecidableEq

/-- The routing state. -/
structure RouteTable where
  shardCount : ℕ
  /-- Base URLs of the known nodes. -/
  nodes : List String
  nodeMetadata : Std.ExtTreeMap String NodeMetadata
  /-- Best-known leader of each shard. -/
  leaders : Std.ExtTreeMap ShardId String
  /-- When a shard's leader was last learned from a redirect. -/
  leaderHints : Std.ExtTreeMap ShardId Instant
  /-- Routed requests by region, in 64-bit counters. -/
  regionRequests : Std.ExtTreeMap String ℕ
  /-- The round-robin cursor, a 64-bit counter. -/
  cursor : ℕ

/-- A node as the brain lists it. -/
structure BrainNode where
  nodeId : String
  address : String
  health : String
  cloudProvider : Option String
  region : Option String
  clusterId : Option String
deriving DecidableEq

/-- A shard's placement as the brain lists it. -/
structure BrainShard where
  shardId : ShardId
  replicas : List String
  preferredLeader : Option String

/-- The base URL of an address in normal form, if it is a plain HTTP origin. -/
def normalizeNodeUrl (env : Env) (address : String) : Option String :=
  let address := trim address
  if address = "" then none
  else
    let candidate :=
      if startsWith address "http://" || startsWith address "https://" then address
      else "http://" ++ address
    (env.parseUrl candidate).bind fun parsed =>
      if (parsed.scheme ≠ "http" ∧ parsed.scheme ≠ "https") ∨ parsed.host.isNone ∨
          parsed.username ≠ "" ∨ parsed.password.isSome ∨ parsed.query.isSome ∨
          parsed.fragment.isSome ∨ parsed.path ≠ "/" then none
      else some (trimEndMatches (· == '/') parsed.asStr)

/-- Keep the first of equal elements, in order. -/
def dedup : List String → List String → List String
  | _, [] => []
  | seen, node :: nodes =>
    if node ∈ seen then dedup seen nodes else node :: dedup (node :: seen) nodes

namespace RouteTable

/-- Build the table from seed URLs, leaders assigned round-robin. -/
def new (env : Env) (shardCount : ℕ) (seeds : List String) : RouteTable :=
  let nodes := dedup [] (seeds.filterMap (normalizeNodeUrl env))
  { shardCount
    nodes
    nodeMetadata := ∅
    leaders :=
      if nodes = [] then ∅
      else (List.range shardCount).foldl
        (fun leaders shard => leaders.insert shard (nodes.getD (shard % nodes.length) "")) ∅
    leaderHints := ∅
    regionRequests := ∅
    cursor := 0 }

/-- Does the table know a leader for at least one shard? -/
def isHydrated (t : RouteTable) : Bool := !t.leaders.isEmpty

/-- Best-known leader URL for a shard. -/
def leaderFor (t : RouteTable) (shard : ShardId) : Option String := t.leaders[shard]?

/-- The known node a hint names. -/
def knownNode (env : Env) (t : RouteTable) (nodeUrl : String) : Option String :=
  (normalizeNodeUrl env nodeUrl).bind fun normalized =>
    t.nodes.find? fun node => normalizeNodeUrl env node == some normalized

/-- Accept a corrected leader, only when it is a known node. -/
def acceptLeaderHint (env : Env) (t : RouteTable) (shard : ShardId) (nodeUrl : String)
    (now : Instant) : Option String × RouteTable :=
  match t.knownNode env nodeUrl with
  | none => (none, t)
  | some known =>
    (some known,
      { t with
        leaders := t.leaders.insert shard known
        leaderHints := t.leaderHints.insert shard now })

/-- Validate a keyless redirect target without changing a shard entry. -/
def validateNodeHint (env : Env) (t : RouteTable) (nodeUrl : String) : Option String :=
  t.knownNode env nodeUrl

/-- Count a routed request against the region of its target. -/
def recordRegionRequest (t : RouteTable) (nodeUrl : String) : RouteTable :=
  let region :=
    match t.nodeMetadata[nodeUrl]? with
    | some m => if m.region = "" then "unknown" else m.region
    | none => "unknown"
  { t with
    regionRequests :=
      t.regionRequests.insert region ((t.regionRequests.getD region 0 + 1) % 2 ^ 64) }

/-- The scan of `any_node_excluding`, with the turns left: the node taken and the
cursor after it. -/
def scan (nodes excluded : List String) : ℕ → ℕ → Option String × ℕ
  | 0, cursor => (none, cursor)
  | turns + 1, cursor =>
    let node := nodes.getD (cursor % nodes.length) ""
    let cursor := (cursor + 1) % 2 ^ 64
    if node ∈ excluded then scan nodes excluded turns cursor else (some node, cursor)

/-- Round-robin over known nodes while avoiding the excluded ones. -/
def anyNodeExcluding (t : RouteTable) (excluded : List String) : Option String × RouteTable :=
  if t.nodes = [] then (none, t)
  else
    let found := scan t.nodes excluded t.nodes.length t.cursor
    (found.1, { t with cursor := found.2 })

/-- A node for keyless requests, round-robined. -/
def anyNode (t : RouteTable) : Option String × RouteTable := t.anyNodeExcluding []

/-! ## Brain snapshots -/

/-- The healthy nodes of a snapshot by ID, and their metadata by URL; `none` where
the snapshot is rejected. -/
def collectNodes (env : Env) :
    List BrainNode → Std.ExtTreeMap String String → Std.ExtTreeMap String NodeMetadata →
      Option (Std.ExtTreeMap String String × Std.ExtTreeMap String NodeMetadata)
  | [], ids, metadata => some (ids, metadata)
  | node :: nodes, ids, metadata =>
    if eqIgnoreAsciiCase node.health "healthy" then
      let nodeId := trim node.nodeId
      if nodeId = "" then none
      else
        match normalizeNodeUrl env node.address with
        -- a malformed address loses that node, not the snapshot
        | none => collectNodes env nodes ids metadata
        | some url =>
          if ids.contains nodeId then none
          else if metadata.contains url then none
          else
            collectNodes env nodes (ids.insert nodeId url)
              (metadata.insert url
                { cloudProvider := node.cloudProvider.getD ""
                  region := node.region.getD ""
                  clusterId := node.clusterId.getD "" })
    else collectNodes env nodes ids metadata

/-- The URL a shard's placement resolves to: its preferred leader, or else its first
replica that is a healthy node. -/
def placementTarget (ids : Std.ExtTreeMap String String) (shard : BrainShard) : Option String :=
  (shard.preferredLeader.bind fun leader => ids[leader]?).or
    (shard.replicas.findSome? fun replica => ids[replica]?)

/-- The leaders a snapshot assigns; `none` where the snapshot is rejected. -/
def collectLeaders (shardCount : ℕ) (ids : Std.ExtTreeMap String String) :
    List BrainShard → Std.ExtTreeMap ShardId String → Option (Std.ExtTreeMap ShardId String)
  | [], leaders => some leaders
  | shard :: shards, leaders =>
    if shardCount ≤ shard.shardId then none
    else
      match placementTarget ids shard with
      | none => none
      | some url =>
        if leaders.contains shard.shardId then none
        else collectLeaders shardCount ids shards (leaders.insert shard.shardId url)

/-- Keep over the snapshot's leaders those of the table that were learned for the
shards of `hints` and are still members. -/
def keepHinted (old : Std.ExtTreeMap ShardId String) (nodes : List String) :
    List ShardId → Std.ExtTreeMap ShardId String → Std.ExtTreeMap ShardId String
  | [], leaders => leaders
  | shard :: hints, leaders =>
    match old[shard]? with
    | some current =>
      if current ∈ nodes then keepHinted old nodes hints (leaders.insert shard current)
      else keepHinted old nodes hints leaders
    | none => keepHinted old nodes hints leaders

/-- Apply a snapshot requested at `fetchedAt`: the number of shards it placed, or 0
and no change where it is rejected. -/
def applyBrainSnapshotAt (env : Env) (t : RouteTable) (nodes : List BrainNode)
    (shards : List BrainShard) (fetchedAt : Instant) : ℕ × RouteTable :=
  match collectNodes env nodes ∅ ∅ with
  | none => (0, t)
  | some (ids, metadata) =>
    if ids.isEmpty then (0, t)
    else
      match collectLeaders t.shardCount ids shards ∅ with
      | none => (0, t)
      | some leaders =>
        if leaders.size ≠ t.shardCount then (0, t)
        else
          let nodes := (ids.toList.map Prod.snd).insertionSort (· ≤ ·)
          let hints := t.leaderHints.filter fun _ learnedAt => fetchedAt ≤ learnedAt
          (leaders.size,
            { t with
              nodes
              nodeMetadata := metadata
              leaders := keepHinted t.leaders nodes hints.keys leaders
              leaderHints := hints })

end RouteTable

end LoadBalance
