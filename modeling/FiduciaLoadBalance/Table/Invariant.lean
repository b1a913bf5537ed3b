import FiduciaLoadBalance.Data.TreeMap
import FiduciaLoadBalance.Reference
import FiduciaLoadBalance.Table.Basic

/-!
# The invariant of the routing table

What holds of the table at every moment, whatever seeds it was built from and
whatever hints, snapshots and requests it has seen since: `RouteTable.Inv`.  Each
operation has one lemma that says what it can do to the state, and the invariant
is kept by all of them (`RouteTable.Inv.apply`), hence by every sequence of
operations (`RouteTable.Inv.run`).
-/

namespace LoadBalance

open Text TreeMap

namespace RouteTable

/-- **The invariant.**  Nodes are listed once; leaders are nodes; without nodes there
are no leaders, and with nodes each shard has one; metadata, once there is any, is
about exactly the nodes; hints are about shards. -/
structure Inv (t : RouteTable) : Prop where
  nodes_nodup : t.nodes.Nodup
  leader_mem : ∀ (shard : ShardId) (url : String), t.leaders[shard]? = some url → url ∈ t.nodes
  leaders_empty : t.nodes = [] → t.leaders = ∅
  leaders_total : t.nodes ≠ [] → ∀ shard : ShardId, shard ∈ t.leaders ↔ shard < t.shardCount
  metadata : t.nodeMetadata = ∅ ∨ ∀ url : String, url ∈ t.nodeMetadata ↔ url ∈ t.nodes
  hint_lt : ∀ shard ∈ t.leaderHints, shard < t.shardCount

/-! ## Seeds -/

theorem mem_dedup {seen nodes : List String} {node : String} :
    node ∈ dedup seen nodes ↔ node ∈ nodes ∧ node ∉ seen := by
  induction nodes generalizing seen with
  | nil => simp [dedup]
  | cons n nodes ih =>
    rw [dedup]
    by_cases hn : n ∈ seen
    · rw [if_pos hn, ih, List.mem_cons]
      constructor
      · exact fun h => ⟨Or.inr h.1, h.2⟩
      · rintro ⟨rfl | h, hs⟩
        · exact absurd hn hs
        · exact ⟨h, hs⟩
    · rw [if_neg hn, List.mem_cons, ih, List.mem_cons, List.mem_cons]
      constructor
      · rintro (rfl | ⟨h, hs⟩)
        · exact ⟨Or.inl rfl, hn⟩
        · exact ⟨Or.inr h, fun hs' => hs (Or.inr hs')⟩
      · rintro ⟨h, hs⟩
        by_cases hnode : node = n
        · exact Or.inl hnode
        · exact Or.inr ⟨h.resolve_left hnode, fun h => h.elim hnode hs⟩

theorem nodup_dedup (seen nodes : List String) : (dedup seen nodes).Nodup := by
  induction nodes generalizing seen with
  | nil => exact List.nodup_nil
  | cons n nodes ih =>
    rw [dedup]
    split
    · exact ih seen
    · refine List.nodup_cons.2 ⟨fun h => ?_, ih _⟩
      exact (mem_dedup.1 h).2 List.mem_cons_self

theorem getD_mod_mem {nodes : List String} (h : nodes ≠ []) (i : ℕ) :
    nodes.getD (i % nodes.length) "" ∈ nodes := by
  have hlt : i % nodes.length < nodes.length := Nat.mod_lt _ (List.length_pos_iff.2 h)
  rw [List.getD_eq_getElem _ _ hlt]
  exact List.getElem_mem hlt

/-- What a loop of inserts leaves under a key. -/
theorem getElem?_foldl_insert {f : ShardId → String} (shards : List ShardId)
    (acc : Std.ExtTreeMap ShardId String) (shard : ShardId) :
    (shards.foldl (fun leaders shard => leaders.insert shard (f shard)) acc)[shard]? =
      if shard ∈ shards then some (f shard) else acc[shard]? := by
  induction shards generalizing acc with
  | nil => simp
  | cons s shards ih =>
    rw [List.foldl_cons, ih, getElem?_insert_eq]
    by_cases hmem : shard ∈ shards
    · simp [hmem]
    · by_cases heq : shard = s <;> simp [hmem, heq]

theorem Inv.new (env : Env) (shardCount : ℕ) (seeds : List String) :
    (RouteTable.new env shardCount seeds).Inv := by
  set nodes := dedup [] (seeds.filterMap (normalizeNodeUrl env)) with hnodes
  have hleaders : ∀ shard, (RouteTable.new env shardCount seeds).leaders[shard]? =
      if nodes ≠ [] ∧ shard < shardCount then some (nodes.getD (shard % nodes.length) "")
      else none := by
    intro shard
    rw [RouteTable.new]
    by_cases hempty : nodes = []
    · simp [hempty, ← hnodes]
    · simp [hempty, ← hnodes, getElem?_foldl_insert]
  refine ⟨nodup_dedup _ _, fun shard url h => ?_, fun h => ?_, fun h shard => ?_, Or.inl rfl, ?_⟩
  · rw [hleaders] at h
    split at h
    · rename_i hne
      exact Option.some.inj h ▸ getD_mod_mem hne.1 shard
    · exact absurd h (by simp)
  · exact if_pos h
  · have hne : nodes ≠ [] := h
    rw [Std.ExtTreeMap.mem_iff_isSome_getElem?, hleaders]
    show _ ↔ shard < shardCount
    by_cases hlt : shard < shardCount <;> simp [hne, hlt]
  · intro shard h
    exact absurd h (by simp [RouteTable.new])

/-! ## Hints -/

theorem knownNode_mem {env : Env} {t : RouteTable} {hint known : String}
    (h : t.knownNode env hint = some known) : known ∈ t.nodes := by
  obtain ⟨normalized, -, hfind⟩ := Option.bind_eq_some_iff.1 h
  exact List.mem_of_find?_eq_some hfind

/-- What accepting a hint does: nothing, or the named shard gets a known node. -/
theorem acceptLeaderHint_cases (env : Env) (t : RouteTable) (shard : ShardId) (hint : String)
    (now : Instant) :
    t.acceptLeaderHint env shard hint now = (none, t) ∨
      ∃ known ∈ t.nodes, t.acceptLeaderHint env shard hint now =
        (some known, { t with
          leaders := t.leaders.insert shard known
          leaderHints := t.leaderHints.insert shard now }) := by
  rw [acceptLeaderHint]
  cases h : t.knownNode env hint with
  | none => exact Or.inl rfl
  | some known => exact Or.inr ⟨known, knownNode_mem h, rfl⟩

theorem Inv.acceptLeaderHint {t : RouteTable} (ht : t.Inv) (env : Env) {shard : ShardId}
    (hshard : shard < t.shardCount) (hint : String) (now : Instant) :
    (t.acceptLeaderHint env shard hint now).2.Inv := by
  rcases acceptLeaderHint_cases env t shard hint now with h | ⟨known, hknown, h⟩
  · rw [h]
    exact ht
  · have hne : t.nodes ≠ [] := List.ne_nil_of_mem hknown
    rw [h]
    refine ⟨ht.nodes_nodup, fun s url hs => ?_, fun h => absurd h hne, fun _ s => ?_,
      ht.metadata, fun s hs => ?_⟩
    · rw [getElem?_insert_eq] at hs
      split at hs
      · exact Option.some.inj hs ▸ hknown
      · exact ht.leader_mem s url hs
    · rw [mem_insert_iff, ht.leaders_total hne]
      constructor
      · rintro (rfl | hlt)
        · exact hshard
        · exact hlt
      · exact Or.inr
    · rcases (mem_insert_iff ..).1 hs with rfl | hs
      · exact hshard
      · exact ht.hint_lt s hs

/-! ## Requests -/

theorem Inv.recordRegionRequest {t : RouteTable} (ht : t.Inv) (url : String) :
    (t.recordRegionRequest url).Inv :=
  ⟨ht.nodes_nodup, ht.leader_mem, ht.leaders_empty, ht.leaders_total, ht.metadata, ht.hint_lt⟩

theorem scan_some {nodes excluded : List String} (hne : nodes ≠ []) {turns cursor c : ℕ}
    {node : String} (h : scan nodes excluded turns cursor = (some node, c)) :
    node ∈ nodes ∧ node ∉ excluded := by
  induction turns generalizing cursor with
  | zero => exact absurd (congrArg Prod.fst h) (by simp [scan])
  | succ turns ih =>
    rw [scan] at h
    split at h
    · exact ih h
    · rename_i hex
      obtain rfl := Option.some.inj (congrArg Prod.fst h)
      exact ⟨getD_mod_mem hne cursor, hex⟩

/-- What the round-robin scan does: the cursor moves, and the answer is a known node
that was not excluded. -/
theorem anyNodeExcluding_cases (t : RouteTable) (excluded : List String) :
    ∃ c, (t.anyNodeExcluding excluded).2 = { t with cursor := c } ∧
      ∀ node, (t.anyNodeExcluding excluded).1 = some node → node ∈ t.nodes ∧ node ∉ excluded := by
  by_cases hne : t.nodes = []
  · refine ⟨t.cursor, ?_, fun node h => ?_⟩
    · rw [anyNodeExcluding, if_pos hne]
    · rw [anyNodeExcluding, if_pos hne] at h
      exact absurd h (by simp)
  · refine ⟨(scan t.nodes excluded t.nodes.length t.cursor).2, ?_, fun node h => ?_⟩
    · rw [anyNodeExcluding, if_neg hne]
    · rw [anyNodeExcluding, if_neg hne] at h
      exact scan_some hne (Prod.ext h rfl)

theorem Inv.anyNodeExcluding {t : RouteTable} (ht : t.Inv) (excluded : List String) :
    (t.anyNodeExcluding excluded).2.Inv := by
  obtain ⟨c, h, -⟩ := anyNodeExcluding_cases t excluded
  rw [h]
  exact ⟨ht.nodes_nodup, ht.leader_mem, ht.leaders_empty, ht.leaders_total, ht.metadata,
    ht.hint_lt⟩

/-- With a node known and none excluded the first turn of the scan takes one. -/
theorem anyNode_isSome {t : RouteTable} (hne : t.nodes ≠ []) : t.anyNode.1.isSome := by
  obtain ⟨n, hn⟩ := Nat.exists_eq_succ_of_ne_zero (mt List.length_eq_zero_iff.1 hne)
  rw [anyNode, RouteTable.anyNodeExcluding, if_neg hne, hn, scan, if_neg (by simp)]
  rfl

/-! ## Snapshots -/

/-- A node the brain reports healthy. -/
def BrainNode.Healthy (node : BrainNode) : Prop :=
  eqIgnoreAsciiCase node.health "healthy" = true

instance : DecidablePred BrainNode.Healthy := fun node =>
  inferInstanceAs (Decidable (eqIgnoreAsciiCase node.health "healthy" = true))

/-- What the maps built from the nodes of a snapshot know: IDs name different URLs,
there is metadata for exactly these URLs, and each is the normalized address of a
healthy node. -/
structure Collected (env : Env) (seen : List BrainNode) (ids : Std.ExtTreeMap String String)
    (metadata : Std.ExtTreeMap String NodeMetadata) : Prop where
  injective : ∀ {i j url : String}, ids[i]? = some url → ids[j]? = some url → i = j
  keys : ∀ url : String, url ∈ metadata ↔ ∃ id : String, ids[id]? = some url
  healthy : ∀ {id url : String}, ids[id]? = some url →
    ∃ node ∈ seen, BrainNode.Healthy node ∧ normalizeNodeUrl env node.address = some url

theorem Collected.mono {env : Env} {seen seen' : List BrainNode}
    {ids : Std.ExtTreeMap String String} {metadata : Std.ExtTreeMap String NodeMetadata}
    (h : Collected env seen ids metadata) (hsub : seen ⊆ seen') :
    Collected env seen' ids metadata := by
  refine ⟨h.injective, h.keys, fun hid => ?_⟩
  obtain ⟨node, hnode, hrest⟩ := h.healthy hid
  exact ⟨node, hsub hnode, hrest⟩

theorem Collected.insert {env : Env} {seen : List BrainNode}
    {ids : Std.ExtTreeMap String String} {metadata : Std.ExtTreeMap String NodeMetadata}
    (h : Collected env seen ids metadata) {node : BrainNode} (hnode : node ∈ seen)
    (hhealthy : BrainNode.Healthy node) {id url : String}
    (hurl : normalizeNodeUrl env node.address = some url) (hid : id ∉ ids)
    (hfresh : url ∉ metadata) (data : NodeMetadata) :
    Collected env seen (ids.insert id url) (metadata.insert url data) := by
  have hold : ∀ {i : String}, ids[i]? ≠ some url := fun hi => hfresh ((h.keys url).2 ⟨_, hi⟩)
  have hget : ∀ {i u : String}, (ids.insert id url)[i]? = some u ↔
      (i = id ∧ u = url) ∨ ids[i]? = some u := by
    intro i u
    rw [getElem?_insert_eq]
    by_cases heq : i = id
    · subst heq
      simp [Std.ExtTreeMap.getElem?_eq_none hid, eq_comm]
    · simp [heq]
  refine ⟨fun {i j u} hi hj => ?_, fun u => ?_, fun {i u} hi => ?_⟩
  · rcases hget.1 hi with ⟨rfl, rfl⟩ | hi'
    · exact (hget.1 hj).elim (fun h => h.1.symm) fun hj' => absurd hj' hold
    · rcases hget.1 hj with ⟨rfl, rfl⟩ | hj'
      · exact absurd hi' hold
      · exact h.injective hi' hj'
  · simp only [mem_insert_iff, h.keys u, hget, exists_or, exists_eq_left]
  · rcases hget.1 hi with ⟨-, rfl⟩ | hi'
    · exact ⟨node, hnode, hhealthy, hurl⟩
    · exact h.healthy hi'

/-- The loop over the nodes of a snapshot. -/
theorem collectNodes_spec {env : Env} {nodes seen : List BrainNode}
    {ids ids' : Std.ExtTreeMap String String}
    {metadata metadata' : Std.ExtTreeMap String NodeMetadata}
    (h : Collected env seen ids metadata)
    (hc : collectNodes env nodes ids metadata = some (ids', metadata')) :
    Collected env (seen ++ nodes) ids' metadata' := by
  induction nodes generalizing seen ids metadata with
  | nil =>
    obtain ⟨rfl, rfl⟩ := Prod.mk.inj (Option.some.inj hc)
    simpa using h
  | cons node nodes ih =>
    have hmono : Collected env (seen ++ [node]) ids metadata :=
      h.mono (List.subset_append_left _ _)
    have happ : seen ++ node :: nodes = (seen ++ [node]) ++ nodes := by simp
    rw [happ]
    rw [collectNodes] at hc
    dsimp only at hc
    split at hc
    · rename_i hhealthy
      split at hc
      · exact absurd hc (by simp)
      · split at hc
        · exact ih hmono hc
        · rename_i url hurl
          split at hc
          · exact absurd hc (by simp)
          · split at hc
            · exact absurd hc (by simp)
            · rename_i hid hfresh
              exact ih (hmono.insert (by simp) hhealthy hurl (by simpa using hid)
                (by simpa using hfresh) _) hc
    · exact ih hmono hc

theorem placementTarget_some {ids : Std.ExtTreeMap String String} {shard : BrainShard}
    {url : String} (h : placementTarget ids shard = some url) :
    ∃ id : String, ids[id]? = some url := by
  rcases Option.or_eq_some_iff.1 h with h | ⟨-, h⟩
  · obtain ⟨id, -, hid⟩ := Option.bind_eq_some_iff.1 h
    exact ⟨id, hid⟩
  · obtain ⟨id, -, hid⟩ := List.exists_of_findSome?_eq_some h
    exact ⟨id, hid⟩

/-- Every leader of a map is one of the URLs of `ids`, for a shard below the count. -/
def Placed (shardCount : ℕ) (ids : Std.ExtTreeMap String String)
    (leaders : Std.ExtTreeMap ShardId String) : Prop :=
  ∀ (shard : ShardId) (url : String), leaders[shard]? = some url →
    shard < shardCount ∧ ∃ id : String, ids[id]? = some url

/-- The loop over the shards of a snapshot. -/
theorem collectLeaders_spec {shardCount : ℕ} {ids : Std.ExtTreeMap String String}
    {shards : List BrainShard} {leaders leaders' : Std.ExtTreeMap ShardId String}
    (h : Placed shardCount ids leaders)
    (hc : collectLeaders shardCount ids shards leaders = some leaders') :
    Placed shardCount ids leaders' := by
  induction shards generalizing leaders with
  | nil => exact Option.some.inj hc ▸ h
  | cons shard shards ih =>
    rw [collectLeaders] at hc
    split at hc
    · exact absurd hc (by simp)
    · rename_i hlt
      split at hc
      · exact absurd hc (by simp)
      · rename_i url hurl
        split at hc
        · exact absurd hc (by simp)
        · refine ih (fun s u hs => ?_) hc
          rw [getElem?_insert_eq] at hs
          split at hs
          · rename_i heq
            obtain rfl := Option.some.inj hs
            exact ⟨heq ▸ not_le.1 hlt, placementTarget_some hurl⟩
          · exact h s u hs

/-- As many leaders as shards, all for shards below the count: one for each. -/
theorem mem_of_size_eq {n : ℕ} {leaders : Std.ExtTreeMap ShardId String}
    (hlt : ∀ shard ∈ leaders, shard < n) (hsize : leaders.size = n) {shard : ShardId} :
    shard ∈ leaders ↔ shard < n := by
  have hcard : leaders.keys.toFinset.card = n := by
    rw [List.toFinset_card_of_nodup Std.ExtTreeMap.nodup_keys, Std.ExtTreeMap.length_keys, hsize]
  have hsub : leaders.keys.toFinset ⊆ Finset.range n := fun s hs =>
    Finset.mem_range.2 (hlt s (Std.ExtTreeMap.mem_keys.1 (List.mem_toFinset.1 hs)))
  have heq := Finset.eq_of_subset_of_card_le hsub (by rw [hcard, Finset.card_range])
  rw [← Finset.mem_range, ← heq, List.mem_toFinset, Std.ExtTreeMap.mem_keys]

/-- The leader kept for a shard over the snapshot's, if any. -/
def hintedLeader (old : Std.ExtTreeMap ShardId String) (nodes : List String)
    (hints : List ShardId) (shard : ShardId) : Option String :=
  if shard ∈ hints then old[shard]?.filter (· ∈ nodes) else none

theorem getElem?_keepHinted (old : Std.ExtTreeMap ShardId String) (nodes : List String)
    (hints : List ShardId) (leaders : Std.ExtTreeMap ShardId String) (shard : ShardId) :
    (keepHinted old nodes hints leaders)[shard]? =
      (hintedLeader old nodes hints shard).or leaders[shard]? := by
  induction hints generalizing leaders with
  | nil => simp [keepHinted, hintedLeader]
  | cons s hints ih =>
    rw [keepHinted]
    by_cases hs : shard = s
    · subst hs
      cases hold : old[shard]? with
      | none => simp [ih, hintedLeader, hold]
      | some current =>
        by_cases hmem : current ∈ nodes
        · by_cases hin : shard ∈ hints <;>
            simp [ih, hintedLeader, hold, hmem, hin, Option.filter_some]
        · simp [ih, hintedLeader, hold, hmem, Option.filter_some]
    · have hsame :
          hintedLeader old nodes (s :: hints) shard = hintedLeader old nodes hints shard := by
        simp [hintedLeader, hs]
      rw [hsame]
      cases hold : old[s]? with
      | none => exact ih leaders
      | some current =>
        by_cases hmem : current ∈ nodes
        · simp [ih, hmem, getElem?_insert_eq, hs]
        · simp [ih, hmem]

/-- What applying a snapshot does: nothing, or the state of the snapshot with the
leaders learned since it was requested kept. -/
theorem applyBrainSnapshotAt_cases (env : Env) (t : RouteTable) (nodes : List BrainNode)
    (shards : List BrainShard) (fetchedAt : Instant) :
    t.applyBrainSnapshotAt env nodes shards fetchedAt = (0, t) ∨
      ∃ ids metadata leaders, Collected env nodes ids metadata ∧
        ids.isEmpty = false ∧ Placed t.shardCount ids leaders ∧ leaders.size = t.shardCount ∧
        t.applyBrainSnapshotAt env nodes shards fetchedAt =
          (t.shardCount, { t with
            nodes := (ids.toList.map Prod.snd).insertionSort (· ≤ ·)
            nodeMetadata := metadata
            leaders := keepHinted t.leaders ((ids.toList.map Prod.snd).insertionSort (· ≤ ·))
              (t.leaderHints.filter fun _ learnedAt => fetchedAt ≤ learnedAt).keys leaders
            leaderHints := t.leaderHints.filter fun _ learnedAt => fetchedAt ≤ learnedAt }) := by
  rw [applyBrainSnapshotAt]
  cases hnodes : collectNodes env nodes ∅ ∅ with
  | none => exact Or.inl rfl
  | some found =>
    obtain ⟨ids, metadata⟩ := found
    have hcollected : Collected env nodes ids metadata := by
      have hempty : Collected env [] ∅ ∅ :=
        ⟨by simp, by simp, by simp⟩
      simpa using collectNodes_spec hempty hnodes
    cases hids : ids.isEmpty with
    | true =>
      left
      simp [hids]
    | false =>
      cases hleaders : collectLeaders t.shardCount ids shards ∅ with
      | none =>
        left
        simp [hids, hleaders]
      | some leaders =>
        have hplaced : Placed t.shardCount ids leaders :=
          collectLeaders_spec (fun s u hs => absurd hs (by simp)) hleaders
        by_cases hsize : leaders.size = t.shardCount
        · exact Or.inr ⟨ids, metadata, leaders, hcollected, hids, hplaced, hsize, by
            simp [hids, hleaders, hsize]⟩
        · left
          simp [hids, hleaders, hsize]

theorem mem_snapshot_nodes {ids : Std.ExtTreeMap String String} {url : String} :
    url ∈ (ids.toList.map Prod.snd).insertionSort (· ≤ ·) ↔
      ∃ id : String, ids[id]? = some url := by
  rw [List.mem_insertionSort, List.mem_map]
  constructor
  · rintro ⟨⟨id, u⟩, hmem, rfl⟩
    exact ⟨id, Std.ExtTreeMap.mem_toList_iff_getElem?_eq_some.1 hmem⟩
  · rintro ⟨id, hid⟩
    exact ⟨(id, url), Std.ExtTreeMap.mem_toList_iff_getElem?_eq_some.2 hid, rfl⟩

theorem snapshot_nodes_ne_nil {ids : Std.ExtTreeMap String String} (hids : ids.isEmpty = false) :
    (ids.toList.map Prod.snd).insertionSort (· ≤ ·) ≠ [] := by
  intro hnil
  have hnone : ∀ id : String, ids[id]? = none := fun id =>
    Option.eq_none_iff_forall_ne_some.2 fun url hid => by
      simpa [hnil] using mem_snapshot_nodes.2 ⟨id, hid⟩
  have hempty : ids = ∅ := Std.ExtTreeMap.ext_getElem? fun id => by simp [hnone id]
  simp [hempty] at hids

theorem nodup_snapshot_nodes {env : Env} {nodes : List BrainNode}
    {ids : Std.ExtTreeMap String String} {metadata : Std.ExtTreeMap String NodeMetadata}
    (h : Collected env nodes ids metadata) :
    ((ids.toList.map Prod.snd).insertionSort (· ≤ ·)).Nodup := by
  rw [(List.perm_insertionSort _ _).nodup_iff]
  have hkeys : (ids.toList.map Prod.fst).Nodup := by
    rw [Std.ExtTreeMap.map_fst_toList_eq_keys]
    exact Std.ExtTreeMap.nodup_keys
  refine List.Nodup.map_on ?_ (List.Nodup.of_map _ hkeys)
  rintro ⟨i, u⟩ hi ⟨j, u'⟩ hj heq
  obtain rfl : u = u' := heq
  rw [Std.ExtTreeMap.mem_toList_iff_getElem?_eq_some] at hi hj
  rw [h.injective hi hj]

theorem hintedLeader_some {old : Std.ExtTreeMap ShardId String} {nodes : List String}
    {hints : List ShardId} {shard : ShardId} {url : String}
    (h : hintedLeader old nodes hints shard = some url) :
    shard ∈ hints ∧ old[shard]? = some url ∧ url ∈ nodes := by
  rw [hintedLeader] at h
  split at h
  · rename_i hmem
    obtain ⟨hold, hnode⟩ := Option.filter_eq_some_iff.1 h
    exact ⟨hmem, hold, by simpa using hnode⟩
  · exact absurd h (by simp)

theorem Inv.applyBrainSnapshotAt {t : RouteTable} (ht : t.Inv) (env : Env)
    (nodes : List BrainNode) (shards : List BrainShard) (fetchedAt : Instant) :
    (t.applyBrainSnapshotAt env nodes shards fetchedAt).2.Inv := by
  rcases applyBrainSnapshotAt_cases env t nodes shards fetchedAt with
    h | ⟨ids, metadata, leaders, hcollected, hids, hplaced, hsize, h⟩
  · rw [h]
    exact ht
  · rw [h]
    set members := (ids.toList.map Prod.snd).insertionSort (· ≤ ·) with hmembers
    have hmem : ∀ url, url ∈ members ↔ ∃ id : String, ids[id]? = some url :=
      fun url => mem_snapshot_nodes
    have hhint : ∀ shard ∈ t.leaderHints.filter fun _ learnedAt => fetchedAt ≤ learnedAt,
        shard < t.shardCount := by
      intro shard hs
      exact ht.hint_lt shard (Std.ExtTreeMap.mem_of_mem_filter hs)
    have hne : members ≠ [] := snapshot_nodes_ne_nil hids
    refine ⟨nodup_snapshot_nodes hcollected, fun shard url hs => ?_, fun h => absurd h hne,
      fun _ shard => ?_, Or.inr fun url => ?_, hhint⟩
    · rw [getElem?_keepHinted] at hs
      rcases Option.or_eq_some_iff.1 hs with hs | ⟨-, hs⟩
      · exact (hintedLeader_some hs).2.2
      · exact (hmem url).2 (hplaced shard url hs).2
    · have hlt : ∀ shard ∈ leaders, shard < t.shardCount := by
        intro s hs
        obtain ⟨u, hu⟩ := Option.isSome_iff_exists.1 (Std.ExtTreeMap.mem_iff_isSome_getElem?.1 hs)
        exact (hplaced s u hu).1
      rw [Std.ExtTreeMap.mem_iff_isSome_getElem?, getElem?_keepHinted, Option.isSome_or,
        Bool.or_eq_true, ← Std.ExtTreeMap.mem_iff_isSome_getElem?, mem_of_size_eq hlt hsize]
      refine or_iff_right_of_imp fun hs => ?_
      obtain ⟨u, hu⟩ := Option.isSome_iff_exists.1 hs
      exact hhint shard (Std.ExtTreeMap.mem_keys.1 (hintedLeader_some hu).1)
    · rw [hcollected.keys, hmem]

/-! ## Runs -/

/-- The operations that change the table. -/
inductive Op : Type
  | acceptLeaderHint (shard : ShardId) (nodeUrl : String) (now : Instant)
  | applyBrainSnapshotAt (nodes : List BrainNode) (shards : List BrainShard) (fetchedAt : Instant)
  | anyNodeExcluding (excluded : List String)
  | recordRegionRequest (nodeUrl : String)

/-- The state after one operation. -/
def apply (env : Env) (t : RouteTable) : Op → RouteTable
  | .acceptLeaderHint shard nodeUrl now => (t.acceptLeaderHint env shard nodeUrl now).2
  | .applyBrainSnapshotAt nodes shards fetchedAt =>
    (t.applyBrainSnapshotAt env nodes shards fetchedAt).2
  | .anyNodeExcluding excluded => (t.anyNodeExcluding excluded).2
  | .recordRegionRequest nodeUrl => t.recordRegionRequest nodeUrl

/-- The state after a sequence of operations. -/
def run (env : Env) (t : RouteTable) (ops : List Op) : RouteTable := ops.foldl (apply env) t

/-- A hint for a shard names one of the `shardCount` shards. -/
def Op.InRange (shardCount : ℕ) : Op → Prop
  | .acceptLeaderHint shard _ _ => shard < shardCount
  | _ => True

theorem shardCount_apply (env : Env) (t : RouteTable) (op : Op) :
    (t.apply env op).shardCount = t.shardCount := by
  cases op with
  | acceptLeaderHint shard nodeUrl now =>
    rcases acceptLeaderHint_cases env t shard nodeUrl now with h | ⟨known, -, h⟩ <;>
      rw [apply, h]
  | applyBrainSnapshotAt nodes shards fetchedAt =>
    rcases applyBrainSnapshotAt_cases env t nodes shards fetchedAt with h | ⟨_, _, _, -, -, -, -, h⟩
      <;> rw [apply, h]
  | anyNodeExcluding excluded =>
    obtain ⟨c, h, -⟩ := anyNodeExcluding_cases t excluded
    rw [apply, h]
  | recordRegionRequest nodeUrl => rfl

/-- Every operation keeps the invariant. -/
theorem Inv.apply {env : Env} {t : RouteTable} (ht : t.Inv) {op : Op}
    (hop : op.InRange t.shardCount) : (t.apply env op).Inv := by
  cases op with
  | acceptLeaderHint shard nodeUrl now => exact ht.acceptLeaderHint env hop nodeUrl now
  | applyBrainSnapshotAt nodes shards fetchedAt =>
    exact ht.applyBrainSnapshotAt env nodes shards fetchedAt
  | anyNodeExcluding excluded => exact ht.anyNodeExcluding excluded
  | recordRegionRequest nodeUrl => exact ht.recordRegionRequest nodeUrl

/-- Every sequence of operations keeps the invariant, and the number of shards. -/
theorem Inv.run (env : Env) {ops : List Op} {t : RouteTable} (ht : t.Inv)
    (hops : ∀ op ∈ ops, op.InRange t.shardCount) :
    (t.run env ops).Inv ∧ (t.run env ops).shardCount = t.shardCount := by
  induction ops generalizing t with
  | nil => exact ⟨ht, rfl⟩
  | cons op ops ih =>
    have hcount := shardCount_apply env t op
    have hrest : ∀ op' ∈ ops, op'.InRange (t.apply env op).shardCount := fun op' h => by
      rw [hcount]
      exact hops op' (by simp [h])
    obtain ⟨hinv, hsame⟩ := ih (ht.apply (hops op (by simp))) hrest
    exact ⟨hinv, hsame.trans hcount⟩

/-! ## Hydration -/

theorem isHydrated_iff {t : RouteTable} : t.isHydrated ↔ t.leaders ≠ ∅ := by
  rw [isHydrated, Bool.not_eq_true', Std.ExtTreeMap.isEmpty_eq_false_iff]

/-- A table that knows a leader knows nodes. -/
theorem Inv.nodes_ne_nil {t : RouteTable} (ht : t.Inv) (h : t.isHydrated) : t.nodes ≠ [] :=
  fun hnil => isHydrated_iff.1 h (ht.leaders_empty hnil)

theorem Inv.leaderFor_isSome {t : RouteTable} (ht : t.Inv) (h : t.isHydrated) {shard : ShardId}
    (hshard : shard < t.shardCount) : (t.leaderFor shard).isSome :=
  Std.ExtTreeMap.mem_iff_isSome_getElem?.1 ((ht.leaders_total (ht.nodes_ne_nil h) shard).2 hshard)

/-- A table is hydrated exactly when every shard has a leader. -/
theorem Inv.isHydrated_iff_forall {t : RouteTable} (ht : t.Inv) (hpos : 0 < t.shardCount) :
    t.isHydrated ↔ ∀ shard < t.shardCount, (t.leaderFor shard).isSome := by
  refine ⟨fun h shard hshard => ht.leaderFor_isSome h hshard, fun h => ?_⟩
  have hzero := h 0 hpos
  refine isHydrated_iff.2 fun hempty => ?_
  rw [leaderFor, hempty] at hzero
  exact absurd hzero (by simp)

/-- Nodes, once known, are never all forgotten. -/
theorem nodes_apply_ne_nil {env : Env} {t : RouteTable} (h : t.nodes ≠ []) (op : Op) :
    (t.apply env op).nodes ≠ [] := by
  cases op with
  | acceptLeaderHint shard nodeUrl now =>
    rcases acceptLeaderHint_cases env t shard nodeUrl now with he | ⟨known, -, he⟩ <;>
      · rw [apply, he]
        exact h
  | applyBrainSnapshotAt nodes shards fetchedAt =>
    rcases applyBrainSnapshotAt_cases env t nodes shards fetchedAt with
      he | ⟨ids, _, _, -, hids, -, -, he⟩
    · rw [apply, he]
      exact h
    · rw [apply, he]
      exact snapshot_nodes_ne_nil hids
  | anyNodeExcluding excluded =>
    obtain ⟨c, he, -⟩ := anyNodeExcluding_cases t excluded
    rw [apply, he]
    exact h
  | recordRegionRequest nodeUrl => exact h

theorem nodes_run_ne_nil (env : Env) (ops : List Op) {t : RouteTable} (h : t.nodes ≠ []) :
    (t.run env ops).nodes ≠ [] := by
  induction ops generalizing t with
  | nil => exact h
  | cons op ops ih => exact ih (nodes_apply_ne_nil h op)

/-- A table with nodes knows every leader. -/
theorem Inv.isHydrated_of_nodes {t : RouteTable} (ht : t.Inv) (hpos : 0 < t.shardCount)
    (h : t.nodes ≠ []) : t.isHydrated := by
  refine isHydrated_iff.2 fun hempty => ?_
  have hzero := (ht.leaders_total h 0).2 hpos
  rw [hempty] at hzero
  exact absurd hzero (by simp)

/-- **The routing table keeps its invariant, and hydration is for good.**  From any
seeds and through any sequence of operations: the invariant holds; the table is
hydrated exactly when every shard has a leader; and once it is, it stays so, and
neither a shard's leader nor a node for a keyless request is ever missing. -/
theorem run_inv_and_hydrated (env : Env) (shardCount : ℕ) (hpos : 1 ≤ shardCount)
    (seeds : List String) (ops : List Op) (hops : ∀ op ∈ ops, op.InRange shardCount) :
    let t := (RouteTable.new env shardCount seeds).run env ops
    t.Inv ∧ t.shardCount = shardCount ∧
      (t.isHydrated ↔ ∀ shard < shardCount, (t.leaderFor shard).isSome) ∧
      (t.isHydrated → ∀ later : List Op, (∀ op ∈ later, op.InRange shardCount) →
        (t.run env later).isHydrated ∧ (t.run env later).anyNode.1.isSome ∧
          ∀ shard < shardCount, ((t.run env later).leaderFor shard).isSome) := by
  intro t
  obtain ⟨hinv, hcount⟩ : t.Inv ∧ t.shardCount = shardCount :=
    (Inv.new env shardCount seeds).run env hops
  refine ⟨hinv, hcount, ?_, fun hyd later hlater => ?_⟩
  · have h := hinv.isHydrated_iff_forall (hcount.symm ▸ hpos)
    rwa [hcount] at h
  · obtain ⟨hinv', hcount'⟩ := hinv.run env (by rwa [hcount])
    have hne := nodes_run_ne_nil env later (hinv.nodes_ne_nil hyd)
    have hyd' := hinv'.isHydrated_of_nodes (by rw [hcount', hcount]; exact hpos) hne
    refine ⟨hyd', anyNode_isSome hne, fun shard hshard => hinv'.leaderFor_isSome hyd' ?_⟩
    rw [hcount', hcount]
    exact hshard

/-- One node and one shard: the shard has a leader. -/
theorem run_inv_and_hydrated_one :
    ((RouteTable.new Reference.env 1 ["http://a:1"]).run Reference.env
      [.acceptLeaderHint 0 "http://a:1/" 3]).anyNode.1.isSome :=
  ((run_inv_and_hydrated Reference.env 1 le_rfl ["http://a:1"] [] (by simp)).2.2.2
    (by decide +kernel) [.acceptLeaderHint 0 "http://a:1/" 3] (by simp [Op.InRange])).2.1

end RouteTable

end LoadBalance
