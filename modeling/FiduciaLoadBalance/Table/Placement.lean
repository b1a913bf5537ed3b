import FiduciaLoadBalance.Table.Snapshot

/-!
# What counts in a snapshot

The loops over a snapshot's nodes and shards keep the first of everything and give up
at the first fault; what they compute does not depend on the order.  `collectNodes_eq_some`
and `collectLeaders_eq_some` say so: they fail on a fault anywhere, and otherwise build the
map of the list.

* `applyBrainSnapshotAt_meaning` — a snapshot is applied all or nothing, and only its
  meaning counts.
-/

namespace LoadBalance

open Text TreeMap

namespace RouteTable

/-! ## Members -/

/-- A member of the cluster, as the table keeps it. -/
structure Member where
  nodeId : String
  url : String
  metadata : NodeMetadata

/-- The member a node is, if it is healthy and has a usable address. -/
def member (env : Env) (node : BrainNode) : Option Member :=
  if eqIgnoreAsciiCase node.health "healthy" then
    (normalizeNodeUrl env node.address).map fun url =>
      { nodeId := trim node.nodeId
        url
        metadata :=
          { cloudProvider := node.cloudProvider.getD ""
            region := node.region.getD ""
            clusterId := node.clusterId.getD "" } }
  else none

/-- What a list of members puts in the maps of `collectNodes`. -/
def idPairs (members : List Member) : List (String × String) :=
  members.map fun m => (m.nodeId, m.url)

def metadataPairs (members : List Member) : List (String × NodeMetadata) :=
  members.map fun m => (m.url, m.metadata)

@[simp] theorem map_fst_idPairs (members : List Member) :
    (idPairs members).map Prod.fst = members.map Member.nodeId := by
  simp [idPairs]

@[simp] theorem map_fst_metadataPairs (members : List Member) :
    (metadataPairs members).map Prod.fst = members.map Member.url := by
  simp [metadataPairs]

/-- No healthy node is without an ID. -/
def Named (nodes : List BrainNode) : Prop :=
  ∀ node ∈ nodes, BrainNode.Healthy node → trim node.nodeId ≠ ""

instance : DecidablePred Named := fun nodes =>
  inferInstanceAs (Decidable (∀ node ∈ nodes, BrainNode.Healthy node → trim node.nodeId ≠ ""))

/-- Members have different IDs and different URLs. -/
structure Distinct (members : List Member) : Prop where
  ids : (members.map Member.nodeId).Nodup
  urls : (members.map Member.url).Nodup

theorem Distinct.perm {members members' : List Member} (h : members.Perm members')
    (hdistinct : Distinct members) : Distinct members' :=
  ⟨(h.map _).nodup_iff.1 hdistinct.ids, (h.map _).nodup_iff.1 hdistinct.urls⟩

/-- No member is in the maps yet. -/
def Fresh (members : List Member) (ids : Std.ExtTreeMap String String)
    (metadata : Std.ExtTreeMap String NodeMetadata) : Prop :=
  ∀ m ∈ members, m.nodeId ∉ ids ∧ m.url ∉ metadata

section

variable {env : Env} {nodes : List BrainNode} {node : BrainNode} {m : Member}
  {members : List Member} {ids : Std.ExtTreeMap String String}
  {metadata : Std.ExtTreeMap String NodeMetadata}
  {found : Std.ExtTreeMap String String × Std.ExtTreeMap String NodeMetadata}

theorem distinct_and_fresh_cons :
    Distinct (m :: members) ∧ Fresh (m :: members) ids metadata ↔
      (m.nodeId ∉ ids ∧ m.url ∉ metadata) ∧ Distinct members ∧
        Fresh members (ids.insert m.nodeId m.url) (metadata.insert m.url m.metadata) := by
  constructor
  · rintro ⟨⟨hids, hurls⟩, hfresh⟩
    rw [List.map_cons, List.nodup_cons] at hids hurls
    refine ⟨hfresh m (by simp), ⟨hids.2, hurls.2⟩, fun m' hm' => ?_⟩
    obtain ⟨hid, hurl⟩ := hfresh m' (by simp [hm'])
    rw [mem_insert_iff, mem_insert_iff, not_or, not_or]
    exact ⟨⟨fun heq => hids.1 (heq ▸ List.mem_map_of_mem hm'), hid⟩,
      fun heq => hurls.1 (heq ▸ List.mem_map_of_mem hm'), hurl⟩
  · rintro ⟨hnew, ⟨hids, hurls⟩, hfresh⟩
    have hrest : ∀ m' ∈ members, m'.nodeId ≠ m.nodeId ∧ m'.nodeId ∉ ids ∧ m'.url ≠ m.url ∧
        m'.url ∉ metadata := by
      intro m' hm'
      obtain ⟨hid, hurl⟩ := hfresh m' hm'
      rw [mem_insert_iff, not_or] at hid hurl
      exact ⟨hid.1, hid.2, hurl.1, hurl.2⟩
    refine ⟨⟨?_, ?_⟩, fun m' hm' => ?_⟩
    · rw [List.map_cons, List.nodup_cons, List.mem_map]
      exact ⟨fun ⟨m', hm', heq⟩ => (hrest m' hm').1 heq, hids⟩
    · rw [List.map_cons, List.nodup_cons, List.mem_map]
      exact ⟨fun ⟨m', hm', heq⟩ => (hrest m' hm').2.2.1 heq, hurls⟩
    · rcases List.mem_cons.1 hm' with rfl | hm'
      · exact hnew
      · exact ⟨(hrest m' hm').2.1, (hrest m' hm').2.2.2⟩

theorem collectNodes_unhealthy (h : ¬BrainNode.Healthy node) :
    collectNodes env (node :: nodes) ids metadata = collectNodes env nodes ids metadata := by
  have hhealth : ¬eqIgnoreAsciiCase node.health "healthy" = true := h
  rw [collectNodes, if_neg hhealth]

theorem collectNodes_blank (h : BrainNode.Healthy node) (hblank : trim node.nodeId = "") :
    collectNodes env (node :: nodes) ids metadata = none := by
  have hhealth : eqIgnoreAsciiCase node.health "healthy" = true := h
  rw [collectNodes, if_pos hhealth]
  exact if_pos hblank

theorem collectNodes_malformed (h : BrainNode.Healthy node) (hid : trim node.nodeId ≠ "")
    (hurl : normalizeNodeUrl env node.address = none) :
    collectNodes env (node :: nodes) ids metadata = collectNodes env nodes ids metadata := by
  have hhealth : eqIgnoreAsciiCase node.health "healthy" = true := h
  rw [collectNodes, if_pos hhealth]
  dsimp only
  rw [if_neg hid, hurl]

theorem collectNodes_member (hid : trim node.nodeId ≠ "") (hm : member env node = some m) :
    collectNodes env (node :: nodes) ids metadata =
      if m.nodeId ∈ ids ∨ m.url ∈ metadata then none
      else collectNodes env nodes (ids.insert m.nodeId m.url)
        (metadata.insert m.url m.metadata) := by
  rw [member] at hm
  split at hm
  · rename_i hhealthy
    obtain ⟨url, hurl, rfl⟩ := Option.map_eq_some_iff.1 hm
    rw [collectNodes, if_pos hhealthy]
    dsimp only
    rw [if_neg hid, hurl]
    dsimp only
    simp only [← Std.ExtTreeMap.mem_iff_contains]
    by_cases hold : trim node.nodeId ∈ ids
    · rw [if_pos hold, if_pos (Or.inl hold)]
    · rw [if_neg hold]
      by_cases hused : url ∈ metadata
      · rw [if_pos hused, if_pos (Or.inr hused)]
      · rw [if_neg hused, if_neg (not_or.2 ⟨hold, hused⟩)]
  · exact absurd hm (by simp)

theorem member_eq_none : member env node = none ↔
    ¬BrainNode.Healthy node ∨ normalizeNodeUrl env node.address = none := by
  unfold member BrainNode.Healthy
  by_cases h : eqIgnoreAsciiCase node.health "healthy" = true
  · rw [if_pos h, Option.map_eq_none_iff]
    simp [h]
  · rw [if_neg h]
    simp [h]

theorem healthy_of_member (hm : member env node = some m) : BrainNode.Healthy node := by
  by_contra h
  rw [member_eq_none.2 (Or.inl h)] at hm
  exact absurd hm (by simp)

theorem named_cons : Named (node :: nodes) ↔
    (BrainNode.Healthy node → trim node.nodeId ≠ "") ∧ Named nodes := by
  simp [Named]

/-- **What the loop over the nodes computes**, from any maps. -/
theorem collectNodes_eq_some_iff : collectNodes env nodes ids metadata = some found ↔
    Named nodes ∧ (Distinct (nodes.filterMap (member env)) ∧
      Fresh (nodes.filterMap (member env)) ids metadata) ∧
      found = (insertAll ids (idPairs (nodes.filterMap (member env))),
        insertAll metadata (metadataPairs (nodes.filterMap (member env)))) := by
  induction nodes generalizing ids metadata with
  | nil =>
    rw [collectNodes, Option.some.injEq, eq_comm]
    exact ⟨fun h => ⟨by simp [Named], ⟨⟨List.nodup_nil, List.nodup_nil⟩, by simp [Fresh]⟩, h⟩,
      fun h => h.2.2⟩
  | cons node nodes ih =>
    rw [named_cons]
    cases hm : member env node with
    | none =>
      rw [List.filterMap_cons_none hm]
      by_cases hhealthy : BrainNode.Healthy node
      · by_cases hid : trim node.nodeId = ""
        · rw [collectNodes_blank hhealthy hid]
          exact ⟨fun h => absurd h (by simp), fun h => absurd hid (h.1.1 hhealthy)⟩
        · have hurl := (member_eq_none.1 hm).resolve_left (not_not.2 hhealthy)
          rw [collectNodes_malformed hhealthy hid hurl, ih]
          simp [hid]
      · rw [collectNodes_unhealthy hhealthy, ih]
        simp [hhealthy]
    | some m =>
      rw [List.filterMap_cons_some hm]
      have hhealthy := healthy_of_member hm
      by_cases hid : trim node.nodeId = ""
      · rw [collectNodes_blank hhealthy hid]
        exact ⟨fun h => absurd h (by simp), fun h => absurd hid (h.1.1 hhealthy)⟩
      · rw [collectNodes_member hid hm, distinct_and_fresh_cons]
        by_cases hold : m.nodeId ∈ ids ∨ m.url ∈ metadata
        · rw [if_pos hold]
          refine ⟨fun h => absurd h (by simp), fun h => ?_⟩
          exact absurd hold (not_or.2 h.2.1.1)
        · rw [if_neg hold, ih]
          simp [hid, not_or.1 hold, idPairs, metadataPairs]

/-- From nothing, the loop fails on a node without an ID and on members that are not
distinct, and otherwise builds the maps of the members. -/
theorem collectNodes_eq_some : collectNodes env nodes ∅ ∅ = some found ↔
    Named nodes ∧ Distinct (nodes.filterMap (member env)) ∧
      found = (insertAll ∅ (idPairs (nodes.filterMap (member env))),
        insertAll ∅ (metadataPairs (nodes.filterMap (member env)))) := by
  rw [collectNodes_eq_some_iff]
  simp [Fresh]

/-- **The order of the nodes does not matter.** -/
theorem collectNodes_perm {nodes' : List BrainNode} (hperm : nodes.Perm nodes') :
    collectNodes env nodes ∅ ∅ = collectNodes env nodes' ∅ ∅ := by
  have hmembers : (nodes.filterMap (member env)).Perm (nodes'.filterMap (member env)) :=
    hperm.filterMap _
  have hnamed : Named nodes ↔ Named nodes' := by simp [Named, hperm.mem_iff]
  have hdistinct : Distinct (nodes.filterMap (member env)) ↔
      Distinct (nodes'.filterMap (member env)) := ⟨.perm hmembers, .perm hmembers.symm⟩
  refine Option.ext fun found => ?_
  rw [collectNodes_eq_some, collectNodes_eq_some, hnamed, hdistinct]
  refine and_congr_right fun _ => and_congr_right fun h => ?_
  have hids : insertAll ∅ (idPairs (nodes.filterMap (member env))) =
      insertAll ∅ (idPairs (nodes'.filterMap (member env))) :=
    insertAll_perm (by simpa using (hdistinct.2 h).ids) (hmembers.map _)
  have hmetadata : insertAll ∅ (metadataPairs (nodes.filterMap (member env))) =
      insertAll ∅ (metadataPairs (nodes'.filterMap (member env))) :=
    insertAll_perm (by simpa using (hdistinct.2 h).urls) (hmembers.map _)
  rw [hids, hmetadata]

/-- A node that costs a snapshot nothing: it is not healthy, or it has an ID but no usable
address. -/
def Ignorable (env : Env) (node : BrainNode) : Prop :=
  ¬BrainNode.Healthy node ∨
    BrainNode.Healthy node ∧ trim node.nodeId ≠ "" ∧ normalizeNodeUrl env node.address = none

theorem collectNodes_ignorable {pre post : List BrainNode} (h : Ignorable env node) :
    collectNodes env (pre ++ node :: post) ∅ ∅ = collectNodes env (pre ++ post) ∅ ∅ := by
  have hmember : member env node = none := by
    rcases h with h | ⟨-, -, hurl⟩
    · exact member_eq_none.2 (Or.inl h)
    · exact member_eq_none.2 (Or.inr hurl)
  have hmembers : (pre ++ node :: post).filterMap (member env) =
      (pre ++ post).filterMap (member env) := by
    rw [List.filterMap_append, List.filterMap_append, List.filterMap_cons_none hmember]
  have hid : BrainNode.Healthy node → trim node.nodeId ≠ "" := by
    rcases h with h | ⟨-, hid, -⟩
    · exact fun hhealthy => absurd hhealthy h
    · exact fun _ => hid
  have hnamed : Named (pre ++ node :: post) ↔ Named (pre ++ post) := by
    have hmem : ∀ n, n ∈ pre ++ node :: post ↔ n = node ∨ n ∈ pre ++ post := by
      intro n
      rw [List.mem_append, List.mem_cons, List.mem_append, or_left_comm]
    constructor
    · exact fun hall n hn => hall n ((hmem n).2 (Or.inr hn))
    · intro hall n hn
      rcases (hmem n).1 hn with rfl | hn
      · exact hid
      · exact hall n hn
  refine Option.ext fun found => ?_
  rw [collectNodes_eq_some, collectNodes_eq_some, hnamed, hmembers]

end

/-! ## Leaders -/

section

variable {shardCount : ℕ} {ids : Std.ExtTreeMap String String} {shards : List BrainShard}
  {leaders leaders' : Std.ExtTreeMap ShardId String}

/-- The leader a shard of the snapshot gets. -/
def leaderPair (ids : Std.ExtTreeMap String String) (shard : BrainShard) :
    Option (ShardId × String) :=
  (placementTarget ids shard).map fun url => (shard.shardId, url)

/-- Every shard is in range and has a leader, and none is placed twice. -/
structure Placeable (shardCount : ℕ) (ids : Std.ExtTreeMap String String)
    (shards : List BrainShard) : Prop where
  lt : ∀ shard ∈ shards, shard.shardId < shardCount
  target : ∀ shard ∈ shards, (placementTarget ids shard).isSome
  nodup : (shards.map BrainShard.shardId).Nodup

theorem Placeable.perm {shards' : List BrainShard} (hperm : shards.Perm shards')
    (h : Placeable shardCount ids shards) : Placeable shardCount ids shards' where
  lt shard hshard := h.lt shard (hperm.mem_iff.2 hshard)
  target shard hshard := h.target shard (hperm.mem_iff.2 hshard)
  nodup := (hperm.map _).nodup_iff.1 h.nodup

theorem placeable_cons {shard : BrainShard} : Placeable shardCount ids (shard :: shards) ↔
    (shard.shardId < shardCount ∧ (placementTarget ids shard).isSome ∧
      shard.shardId ∉ shards.map BrainShard.shardId) ∧ Placeable shardCount ids shards := by
  constructor
  · rintro ⟨hlt, htarget, hnodup⟩
    rw [List.map_cons, List.nodup_cons] at hnodup
    exact ⟨⟨hlt _ (by simp), htarget _ (by simp), hnodup.1⟩, fun s hs => hlt s (by simp [hs]),
      fun s hs => htarget s (by simp [hs]), hnodup.2⟩
  · rintro ⟨⟨hlt, htarget, hnot⟩, hrest⟩
    refine ⟨?_, ?_, ?_⟩
    · exact List.forall_mem_cons.2 ⟨hlt, hrest.lt⟩
    · exact List.forall_mem_cons.2 ⟨htarget, hrest.target⟩
    · rw [List.map_cons, List.nodup_cons]
      exact ⟨hnot, hrest.nodup⟩

/-- The pairs of shards that have leaders are one for each. -/
theorem map_fst_leaderPairs (h : ∀ shard ∈ shards, (placementTarget ids shard).isSome) :
    (shards.filterMap (leaderPair ids)).map Prod.fst = shards.map BrainShard.shardId := by
  induction shards with
  | nil => rfl
  | cons shard shards ih =>
    obtain ⟨url, hurl⟩ := Option.isSome_iff_exists.1 (h shard (by simp))
    have hpair : leaderPair ids shard = some (shard.shardId, url) := by rw [leaderPair, hurl]; rfl
    rw [List.filterMap_cons_some hpair, List.map_cons, List.map_cons,
      ih fun s hs => h s (by simp [hs])]

/-- **What the loop over the shards computes**, from any map. -/
theorem collectLeaders_eq_some_iff : collectLeaders shardCount ids shards leaders = some leaders' ↔
    (Placeable shardCount ids shards ∧ ∀ shard ∈ shards, shard.shardId ∉ leaders) ∧
      leaders' = insertAll leaders (shards.filterMap (leaderPair ids)) := by
  induction shards generalizing leaders with
  | nil =>
    rw [collectLeaders, Option.some.injEq, eq_comm]
    exact ⟨fun h => ⟨⟨⟨by simp, by simp, List.nodup_nil⟩, by simp⟩, h⟩, And.right⟩
  | cons shard shards ih =>
    rw [placeable_cons, collectLeaders]
    by_cases hlt : shardCount ≤ shard.shardId
    · rw [if_pos hlt]
      exact ⟨fun h => absurd h (by simp), fun h => absurd h.1.1.1.1 (not_lt.2 hlt)⟩
    · rw [if_neg hlt]
      cases htarget : placementTarget ids shard with
      | none => exact ⟨fun h => absurd h (by simp), fun h => absurd h.1.1.1.2.1 (by simp)⟩
      | some url =>
        have hpair : leaderPair ids shard = some (shard.shardId, url) := by
          rw [leaderPair, htarget]
          rfl
        rw [List.filterMap_cons_some hpair, insertAll_cons]
        dsimp only
        simp only [← Std.ExtTreeMap.mem_iff_contains]
        by_cases hold : shard.shardId ∈ leaders
        · rw [if_pos hold]
          exact ⟨fun h => absurd h (by simp), fun h => absurd hold (h.1.2 shard (by simp))⟩
        · rw [if_neg hold, ih]
          refine and_congr_left fun _ => ?_
          constructor
          · rintro ⟨hplaceable, hfresh⟩
            have hnot : ∀ s ∈ shards, s.shardId ≠ shard.shardId ∧ s.shardId ∉ leaders := by
              intro s hs
              have := hfresh s hs
              rwa [mem_insert_iff, not_or] at this
            refine ⟨⟨⟨not_le.1 hlt, rfl, fun hmem => ?_⟩, hplaceable⟩, ?_⟩
            · obtain ⟨s, hs, heq⟩ := List.mem_map.1 hmem
              exact (hnot s hs).1 heq
            · exact List.forall_mem_cons.2 ⟨hold, fun s hs => (hnot s hs).2⟩
          · rintro ⟨⟨⟨-, -, hnot⟩, hplaceable⟩, hfresh⟩
            refine ⟨hplaceable, fun s hs => ?_⟩
            rw [mem_insert_iff, not_or]
            exact ⟨fun heq => hnot (heq ▸ List.mem_map_of_mem hs), hfresh s (by simp [hs])⟩

/-- From nothing, the loop fails on a shard it cannot place once, and otherwise builds the
map of the leaders. -/
theorem collectLeaders_eq_some : collectLeaders shardCount ids shards ∅ = some leaders' ↔
    Placeable shardCount ids shards ∧
      leaders' = insertAll ∅ (shards.filterMap (leaderPair ids)) := by
  rw [collectLeaders_eq_some_iff]
  simp

/-- **The order of the shards does not matter.** -/
theorem collectLeaders_perm {shards' : List BrainShard} (hperm : shards.Perm shards') :
    collectLeaders shardCount ids shards ∅ = collectLeaders shardCount ids shards' ∅ := by
  have hplaceable : Placeable shardCount ids shards ↔ Placeable shardCount ids shards' :=
    ⟨.perm hperm, .perm hperm.symm⟩
  refine Option.ext fun found => ?_
  rw [collectLeaders_eq_some, collectLeaders_eq_some, hplaceable]
  refine and_congr_right fun h => ?_
  have hleaders : insertAll ∅ (shards.filterMap (leaderPair ids)) =
      insertAll ∅ (shards'.filterMap (leaderPair ids)) := by
    refine insertAll_perm ?_ (hperm.filterMap _)
    rw [map_fst_leaderPairs (hplaceable.2 h).target]
    exact (hplaceable.2 h).nodup
  rw [hleaders]

end

/-! ## Snapshots -/

section

variable {env : Env} {nodes : List BrainNode} {shards : List BrainShard} {shardCount : ℕ}
  {snapshot : Snapshot}

theorem readSnapshot_perm {nodes' : List BrainNode} {shards' : List BrainShard}
    (hnodes : nodes.Perm nodes') (hshards : shards.Perm shards') :
    readSnapshot env shardCount nodes' shards' = readSnapshot env shardCount nodes shards := by
  rw [readSnapshot, readSnapshot, collectNodes_perm hnodes]
  refine congrArg _ (funext fun found => ?_)
  rw [collectLeaders_perm hshards]

theorem readSnapshot_ignorable {pre post : List BrainNode} {node : BrainNode}
    (h : Ignorable env node) :
    readSnapshot env shardCount (pre ++ node :: post) shards =
      readSnapshot env shardCount (pre ++ post) shards := by
  rw [readSnapshot, readSnapshot, collectNodes_ignorable h]

theorem collected_of_readSnapshot
    (h : readSnapshot env shardCount nodes shards = some snapshot) :
    Collected env nodes snapshot.ids snapshot.metadata := by
  have hempty : Collected env [] ∅ ∅ := ⟨by simp, by simp, by simp⟩
  simpa using collectNodes_spec hempty (readSnapshot_eq_some.1 h).1

/-- A member of a snapshot is one of its healthy nodes. -/
theorem healthy_of_mem_members (h : readSnapshot env shardCount nodes shards = some snapshot)
    {url : String} (hurl : url ∈ snapshot.members) :
    ∃ node ∈ nodes, BrainNode.Healthy node ∧ normalizeNodeUrl env node.address = some url := by
  obtain ⟨id, hid⟩ := mem_snapshot_nodes.1 hurl
  exact (collected_of_readSnapshot h).healthy hid

/-- **A snapshot is applied all or nothing, and only its meaning counts.**  In every state
the table can reach: a snapshot changes nothing, or places every shard on one of its healthy
nodes.  And neither the order of its nodes or shards nor a node that is not healthy, or has
no usable address, makes a difference. -/
theorem applyBrainSnapshotAt_meaning (env : Env) (shardCount : ℕ) (seeds : List String)
    (ops : List Op) (hops : ∀ op ∈ ops, op.InRange shardCount) (nodes : List BrainNode)
    (shards : List BrainShard) (fetchedAt : Instant) :
    let t := (RouteTable.new env shardCount seeds).run env ops
    (t.applyBrainSnapshotAt env nodes shards fetchedAt = (0, t) ∨
      (t.applyBrainSnapshotAt env nodes shards fetchedAt).1 = shardCount ∧
        ∀ shard < shardCount, ∃ node ∈ nodes, BrainNode.Healthy node ∧
          ∃ url, normalizeNodeUrl env node.address = some url ∧
            (t.applyBrainSnapshotAt env nodes shards fetchedAt).2.leaderFor shard = some url) ∧
      (∀ nodes' shards', nodes.Perm nodes' → shards.Perm shards' →
        t.applyBrainSnapshotAt env nodes' shards' fetchedAt =
          t.applyBrainSnapshotAt env nodes shards fetchedAt) ∧
      ∀ pre node post, nodes = pre ++ node :: post → Ignorable env node →
        t.applyBrainSnapshotAt env nodes shards fetchedAt =
          t.applyBrainSnapshotAt env (pre ++ post) shards fetchedAt := by
  intro t
  obtain ⟨hinv, hcount⟩ : t.Inv ∧ t.shardCount = shardCount :=
    (Inv.new env shardCount seeds).run env hops
  refine ⟨?_, fun nodes' shards' hnodes hshards => ?_, fun pre node post hsplit hnode => ?_⟩
  · have hinv' := hinv.applyBrainSnapshotAt env nodes shards fetchedAt
    rw [applyBrainSnapshotAt_eq] at hinv' ⊢
    cases hread : readSnapshot env t.shardCount nodes shards with
    | none => exact Or.inl rfl
    | some snapshot =>
      rw [hread] at hinv'
      refine Or.inr ⟨hcount, fun shard hshard => ?_⟩
      have hne : snapshot.members ≠ [] := snapshot_nodes_ne_nil (readSnapshot_eq_some.1 hread).2.1
      obtain ⟨url, hurl⟩ := mem_iff_exists.1
        ((hinv'.leaders_total hne shard).2 (hcount.symm ▸ hshard))
      obtain ⟨node, hnode, hhealthy, haddress⟩ :=
        healthy_of_mem_members hread (hinv'.leader_mem shard url hurl)
      exact ⟨node, hnode, hhealthy, url, haddress, hurl⟩
  · rw [applyBrainSnapshotAt_eq, applyBrainSnapshotAt_eq, readSnapshot_perm hnodes hshards]
  · rw [hsplit, applyBrainSnapshotAt_eq, applyBrainSnapshotAt_eq, readSnapshot_ignorable hnode]

/-- Two members given in the other order, with one that has no address between them. -/
theorem applyBrainSnapshotAt_meaning_swapped :
    (RouteTable.new Reference.env 1 []).applyBrainSnapshotAt Reference.env
        [Sample.node "x" "a:1", Sample.node "z" "", Sample.node "y" "b:1"]
        [Sample.placement (some "x") []] 0 =
      (RouteTable.new Reference.env 1 []).applyBrainSnapshotAt Reference.env
        [Sample.node "x" "a:1", Sample.node "y" "b:1"] [Sample.placement (some "x") []] 0 :=
  (applyBrainSnapshotAt_meaning Reference.env 1 [] [] (by simp)
    [Sample.node "x" "a:1", Sample.node "z" "", Sample.node "y" "b:1"]
    [Sample.placement (some "x") []] 0).2.2 [Sample.node "x" "a:1"] (Sample.node "z" "")
    [Sample.node "y" "b:1"] rfl (Or.inr ⟨by decide +kernel, by decide +kernel, by decide +kernel⟩)

end

end RouteTable

end LoadBalance
