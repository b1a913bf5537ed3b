import FiduciaLoadBalance.Table.Invariant

/-!
# What a brain snapshot says

A snapshot is read before the table is touched: its healthy members, their metadata and
a leader for each shard, or nothing if it is rejected.  What it does to the table is
then one merge, with the redirects learned since it was requested.

* `readSnapshot`, `merge`, and `applyBrainSnapshotAt_eq`: applying a snapshot is reading
  it and merging what was read;
* `leaderFor_merge_of_hint`, `leaderFor_merge_of_stale` — who leads a shard afterwards.
-/

namespace LoadBalance

open Text TreeMap

namespace RouteTable

/-- What a snapshot says: the URL of each healthy member by its ID, their metadata by URL,
and the leader of each shard. -/
structure Snapshot where
  ids : Std.ExtTreeMap String String
  metadata : Std.ExtTreeMap String NodeMetadata
  leaders : Std.ExtTreeMap ShardId String

/-- The URLs of its members, sorted. -/
def Snapshot.members (snapshot : Snapshot) : List String :=
  (snapshot.ids.toList.map Prod.snd).insertionSort (· ≤ ·)

/-- Read a snapshot for a number of shards; `none` where it is rejected. -/
def readSnapshot (env : Env) (shardCount : ℕ) (nodes : List BrainNode)
    (shards : List BrainShard) : Option Snapshot :=
  (collectNodes env nodes ∅ ∅).bind fun found =>
    if found.1.isEmpty then none
    else
      (collectLeaders shardCount found.1 shards ∅).bind fun leaders =>
        if leaders.size ≠ shardCount then none
        else some { ids := found.1, metadata := found.2, leaders }

/-- The hints learned since `fetchedAt`. -/
def freshHints (t : RouteTable) (fetchedAt : Instant) : Std.ExtTreeMap ShardId Instant :=
  t.leaderHints.filter fun _ learnedAt => fetchedAt ≤ learnedAt

/-- The table with a snapshot requested at `fetchedAt` merged in. -/
def merge (t : RouteTable) (snapshot : Snapshot) (fetchedAt : Instant) : RouteTable :=
  { t with
    nodes := snapshot.members
    nodeMetadata := snapshot.metadata
    leaders := keepHinted t.leaders snapshot.members (t.freshHints fetchedAt).keys snapshot.leaders
    leaderHints := t.freshHints fetchedAt }

variable {env : Env} {t : RouteTable} {nodes : List BrainNode} {shards : List BrainShard}
  {fetchedAt : Instant} {snapshot : Snapshot} {shardCount : ℕ} {shard : ShardId}

/-- **Applying a snapshot** is reading it, and merging what was read. -/
theorem applyBrainSnapshotAt_eq : t.applyBrainSnapshotAt env nodes shards fetchedAt =
    (readSnapshot env t.shardCount nodes shards).elim (0, t)
      fun snapshot => (t.shardCount, t.merge snapshot fetchedAt) := by
  rw [applyBrainSnapshotAt, readSnapshot]
  cases hnodes : collectNodes env nodes ∅ ∅ with
  | none => rfl
  | some found =>
    obtain ⟨ids, metadata⟩ := found
    rw [Option.bind_some]
    dsimp only
    by_cases hids : ids.isEmpty = true
    · rw [if_pos hids, if_pos hids]
      rfl
    · rw [if_neg hids, if_neg hids]
      cases hleaders : collectLeaders t.shardCount ids shards ∅ with
      | none => rfl
      | some leaders =>
        rw [Option.bind_some]
        dsimp only
        by_cases hsize : leaders.size = t.shardCount
        · rw [if_neg (by simp [hsize]), if_neg (by simp [hsize]), hsize]
          rfl
        · rw [if_pos hsize, if_pos hsize]
          rfl

theorem readSnapshot_eq_some : readSnapshot env shardCount nodes shards = some snapshot ↔
    collectNodes env nodes ∅ ∅ = some (snapshot.ids, snapshot.metadata) ∧
      snapshot.ids.isEmpty = false ∧
      collectLeaders shardCount snapshot.ids shards ∅ = some snapshot.leaders ∧
      snapshot.leaders.size = shardCount := by
  rw [readSnapshot, Option.bind_eq_some_iff]
  constructor
  · rintro ⟨⟨ids, metadata⟩, hnodes, hrest⟩
    split at hrest
    · exact absurd hrest (by simp)
    · rename_i hids
      obtain ⟨leaders, hleaders, hrest⟩ := Option.bind_eq_some_iff.1 hrest
      split at hrest
      · exact absurd hrest (by simp)
      · rename_i hsize
        obtain rfl := Option.some.inj hrest
        exact ⟨hnodes, by simpa using hids, hleaders, not_not.1 hsize⟩
  · rintro ⟨hnodes, hids, hleaders, hsize⟩
    refine ⟨(snapshot.ids, snapshot.metadata), hnodes, ?_⟩
    rw [if_neg (by simp [hids])]
    refine Option.bind_eq_some_iff.2 ⟨snapshot.leaders, hleaders, ?_⟩
    rw [if_neg (by simp [hsize])]

/-- A snapshot that was read places each shard, and no other. -/
theorem mem_leaders_of_readSnapshot (h : readSnapshot env shardCount nodes shards = some snapshot) :
    shard ∈ snapshot.leaders ↔ shard < shardCount := by
  obtain ⟨-, -, hleaders, hsize⟩ := readSnapshot_eq_some.1 h
  have hplaced : Placed shardCount snapshot.ids snapshot.leaders :=
    collectLeaders_spec (fun s u hs => absurd hs (by simp)) hleaders
  refine mem_of_size_eq (fun s hs => ?_) hsize
  obtain ⟨url, hurl⟩ := Option.isSome_iff_exists.1 (Std.ExtTreeMap.mem_iff_isSome_getElem?.1 hs)
  exact (hplaced s url hurl).1

/-! ## Who leads a shard -/

theorem getElem?_freshHints : (t.freshHints fetchedAt)[shard]? =
    t.leaderHints[shard]?.filter (fetchedAt ≤ ·) := by
  rw [freshHints, Std.ExtTreeMap.getElem?_filter']

theorem leaderFor_merge : (t.merge snapshot fetchedAt).leaderFor shard =
    (hintedLeader t.leaders snapshot.members (t.freshHints fetchedAt).keys shard).or
      snapshot.leaders[shard]? := getElem?_keepHinted _ _ _ _ _

/-- A redirect learned since the snapshot was requested is kept, if it is to a member. -/
theorem leaderFor_merge_of_hint {learnedAt : Instant} {node : String}
    (hhint : t.leaderHints[shard]? = some learnedAt) (hle : fetchedAt ≤ learnedAt)
    (hnode : t.leaderFor shard = some node) :
    (t.merge snapshot fetchedAt).leaderFor shard =
      if node ∈ snapshot.members then some node else snapshot.leaders[shard]? := by
  have hkey : shard ∈ (t.freshHints fetchedAt).keys := by
    rw [Std.ExtTreeMap.mem_keys, Std.ExtTreeMap.mem_iff_isSome_getElem?, getElem?_freshHints, hhint]
    simp [Option.filter_some, hle]
  have hold : t.leaders[shard]? = some node := hnode
  rw [leaderFor_merge, hintedLeader, if_pos hkey, hold]
  by_cases hmem : node ∈ snapshot.members <;> simp [Option.filter_some, hmem]

/-- One learned before is not. -/
theorem leaderFor_merge_of_stale
    (hstale : ∀ learnedAt ∈ t.leaderHints[shard]?, learnedAt < fetchedAt) :
    (t.merge snapshot fetchedAt).leaderFor shard = snapshot.leaders[shard]? := by
  have hkey : shard ∉ (t.freshHints fetchedAt).keys := by
    rw [Std.ExtTreeMap.mem_keys, Std.ExtTreeMap.mem_iff_isSome_getElem?, getElem?_freshHints]
    cases hhint : t.leaderHints[shard]? with
    | none => simp
    | some learnedAt => simpa [Option.filter_some] using hstale learnedAt (by simp [hhint])
  rw [leaderFor_merge, hintedLeader, if_neg hkey, Option.none_or]

/-! ## A cluster to play with -/

namespace Sample

/-- A healthy member. -/
def node (nodeId address : String) : BrainNode where
  nodeId := nodeId
  address := address
  health := "healthy"
  cloudProvider := none
  region := none
  clusterId := none

/-- Shard 0, placed. -/
def placement (preferredLeader : Option String) (replicas : List String) : BrainShard where
  shardId := 0
  replicas := replicas
  preferredLeader := preferredLeader

end Sample

end RouteTable

end LoadBalance
