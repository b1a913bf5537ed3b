import FiduciaLoadBalance.Table.Placement

/-!
# Placement by node ID

A shard's placement names nodes by ID: its preferred leader, and its replicas.  The table
looks these IDs up as they were sent, among the IDs of the members with the space around
them trimmed.  So an ID with space around it, however consistently the brain spells it,
names no member.

* `resolve` — the member a placement names, by any spelling of the members' IDs;
* `placementTarget_eq_resolve` — the table resolves by the trimmed ones;
* `placed_by_id_iff` — when that is the member named by the IDs as sent.
-/

namespace LoadBalance

open Text TreeMap

namespace RouteTable

/-- The IDs a placement names, in the order of preference. -/
def candidates (shard : BrainShard) : List String := shard.preferredLeader.toList ++ shard.replicas

/-- The member with an ID, the members' IDs being spelled in some way. -/
def named (spelling : BrainNode → String) (env : Env) (nodes : List BrainNode) (id : String) :
    Option BrainNode :=
  nodes.find? fun node => (member env node).isSome ∧ spelling node = id

/-- The member a placement names. -/
def resolve (spelling : BrainNode → String) (env : Env) (nodes : List BrainNode)
    (shard : BrainShard) : Option BrainNode :=
  (candidates shard).findSome? (named spelling env nodes)

/-- An ID as the table spells it. -/
def trimmedId (node : BrainNode) : String := trim node.nodeId

/-- A snapshot that could be applied: healthy nodes have different IDs, members different
URLs, each shard is placed once, and each placement names a member by its ID. -/
structure WellFormed (env : Env) (shardCount : ℕ) (nodes : List BrainNode)
    (shards : List BrainShard) : Prop where
  names : Named nodes
  ids : ((nodes.filter fun node => BrainNode.Healthy node).map trimmedId).Nodup
  urls : ((nodes.filterMap (member env)).map Member.url).Nodup
  placed : (shards.map BrainShard.shardId).Perm (List.range shardCount)
  resolved : ∀ shard ∈ shards, ∃ id ∈ candidates shard, ∃ node ∈ nodes,
    (member env node).isSome ∧ node.nodeId = id

/-- No redirect for the shard was learned since `fetchedAt`. -/
def Unhinted (t : RouteTable) (fetchedAt : Instant) (shard : ShardId) : Prop :=
  ∀ learnedAt ∈ t.leaderHints[shard]?, learnedAt < fetchedAt

section

variable {env : Env} {nodes : List BrainNode} {shards : List BrainShard} {shardCount : ℕ}
  {shard : BrainShard} {spelling : BrainNode → String} {node node' : BrainNode} {id url : String}

theorem named_eq_some (h : named spelling env nodes id = some node) :
    node ∈ nodes ∧ (member env node).isSome ∧ spelling node = id :=
  ⟨List.mem_of_find?_eq_some h, by simpa using List.find?_some h⟩

theorem resolve_eq_some (h : resolve spelling env nodes shard = some node) :
    node ∈ nodes ∧ (member env node).isSome := by
  obtain ⟨id, -, hnamed⟩ := List.exists_of_findSome?_eq_some h
  exact ⟨(named_eq_some hnamed).1, (named_eq_some hnamed).2.1⟩

theorem member_some_iff {m : Member} (hm : member env node = some m) :
    m.nodeId = trimmedId node ∧ normalizeNodeUrl env node.address = some m.url := by
  rw [member] at hm
  split at hm
  · obtain ⟨url, hurl, rfl⟩ := Option.map_eq_some_iff.1 hm
    exact ⟨rfl, hurl⟩
  · exact absurd hm (by simp)

/-- Members are told apart by what is different among them. -/
theorem eq_of_member {α : Type} {f : Member → α}
    (hnodup : ((nodes.filterMap (member env)).map f).Nodup) (hnode : node ∈ nodes)
    (hnode' : node' ∈ nodes) {m m' : Member} (hm : member env node = some m)
    (hm' : member env node' = some m') (heq : f m = f m') : node = node' := by
  rw [List.Nodup, List.pairwise_map, List.pairwise_filterMap] at hnodup
  by_contra hne
  have : Std.Symm fun a a' => ∀ b, member env a = some b → ∀ b', member env a' = some b' →
      f b ≠ f b' := ⟨fun a a' h b hb b' hb' heq => h b' hb' b hb heq.symm⟩
  exact hnodup.forall hnode hnode' hne m hm m' hm' heq

theorem WellFormed.distinct (h : WellFormed env shardCount nodes shards) :
    Distinct (nodes.filterMap (member env)) := by
  refine ⟨?_, h.urls⟩
  have hids := h.ids
  rw [List.Nodup, List.pairwise_map, List.pairwise_filter] at hids
  rw [List.Nodup, List.pairwise_map, List.pairwise_filterMap]
  refine hids.imp fun {a a'} hne m hm m' hm' heq => ?_
  refine hne (by simpa using healthy_of_member hm) (by simpa using healthy_of_member hm') ?_
  rw [← (member_some_iff hm).1, ← (member_some_iff hm').1, heq]

/-- What is under an ID: the URL of the member with this ID, trimmed. -/
theorem getElem?_ids (hdistinct : Distinct (nodes.filterMap (member env))) (id : String) :
    (insertAll ∅ (idPairs (nodes.filterMap (member env))))[id]? =
      (named trimmedId env nodes id).bind fun node => normalizeNodeUrl env node.address := by
  refine Option.ext fun url => ?_
  rw [getElem?_insertAll_empty (by simpa using hdistinct.ids), idPairs, List.mem_map,
    Option.bind_eq_some_iff]
  constructor
  · rintro ⟨m, hm, hpair⟩
    obtain ⟨rfl, rfl⟩ := Prod.mk.inj hpair
    obtain ⟨node, hnode, hmember⟩ := List.mem_filterMap.1 hm
    obtain ⟨hid, hurl⟩ := member_some_iff hmember
    have hsome : (named trimmedId env nodes m.nodeId).isSome := by
      rw [named, List.find?_isSome]
      exact ⟨node, hnode, by simp [hmember, hid]⟩
    obtain ⟨node', hnamed⟩ := Option.isSome_iff_exists.1 hsome
    obtain ⟨hnode', hmember', hid'⟩ := named_eq_some hnamed
    obtain ⟨m', hm'⟩ := Option.isSome_iff_exists.1 hmember'
    have hsame : m'.nodeId = m.nodeId := (member_some_iff hm').1.trans hid'
    obtain rfl := eq_of_member hdistinct.ids hnode' hnode hm' hmember hsame
    exact ⟨node', hnamed, hurl⟩
  · rintro ⟨node, hnamed, hurl⟩
    obtain ⟨hnode, hmember, hid⟩ := named_eq_some hnamed
    obtain ⟨m, hm⟩ := Option.isSome_iff_exists.1 hmember
    obtain ⟨hid', hurl'⟩ := member_some_iff hm
    refine ⟨m, List.mem_filterMap.2 ⟨node, hnode, hm⟩, ?_⟩
    rw [hid', hid, Option.some.inj (hurl'.symm.trans hurl)]

theorem findSome?_bind {α β γ : Type} {g : α → Option β} {u : β → Option γ} {l : List α}
    (hu : ∀ x ∈ l, ∀ y ∈ g x, (u y).isSome) :
    l.findSome? (fun x => (g x).bind u) = (l.findSome? g).bind u := by
  induction l with
  | nil => rfl
  | cons x l ih =>
    rw [List.findSome?_cons, List.findSome?_cons]
    cases hg : g x with
    | none => exact ih fun x' hx' => hu x' (by simp [hx'])
    | some y =>
      obtain ⟨z, hz⟩ := Option.isSome_iff_exists.1 (hu x (by simp) y hg)
      simp [hz]

/-- **The table resolves a placement by the trimmed IDs.** -/
theorem placementTarget_eq_resolve (hdistinct : Distinct (nodes.filterMap (member env)))
    (shard : BrainShard) :
    placementTarget (insertAll ∅ (idPairs (nodes.filterMap (member env)))) shard =
      (resolve trimmedId env nodes shard).bind fun node => normalizeNodeUrl env node.address := by
  have hcandidates : ∀ ids : Std.ExtTreeMap String String,
      placementTarget ids shard = (candidates shard).findSome? fun id => ids[id]? := by
    intro ids
    rw [placementTarget, candidates, List.findSome?_append]
    cases shard.preferredLeader with
    | none => rfl
    | some leader => cases ids[leader]? <;> simp
  rw [hcandidates, resolve, ← findSome?_bind]
  · exact congrArg (fun f => (candidates shard).findSome? f) (funext (getElem?_ids hdistinct))
  · rintro id - node hnamed
    obtain ⟨m, hm⟩ := Option.isSome_iff_exists.1 (named_eq_some hnamed).2.1
    simp [(member_some_iff hm).2]

theorem resolve_url_isSome (h : resolve spelling env nodes shard = some node) :
    (normalizeNodeUrl env node.address).isSome := by
  obtain ⟨m, hm⟩ := Option.isSome_iff_exists.1 (resolve_eq_some h).2
  simp [(member_some_iff hm).2]

/-- What was read from a snapshot, in terms of its lists. -/
theorem readSnapshot_spec {snapshot : Snapshot}
    (hread : readSnapshot env shardCount nodes shards = some snapshot) :
    Distinct (nodes.filterMap (member env)) ∧
      snapshot.ids = insertAll ∅ (idPairs (nodes.filterMap (member env))) ∧
      Placeable shardCount snapshot.ids shards ∧
      snapshot.leaders = insertAll ∅ (shards.filterMap (leaderPair snapshot.ids)) := by
  obtain ⟨hnodes, -, hleaders, -⟩ := readSnapshot_eq_some.1 hread
  obtain ⟨-, hdistinct, hfound⟩ := collectNodes_eq_some.1 hnodes
  obtain ⟨hplaceable, hleaders⟩ := collectLeaders_eq_some.1 hleaders
  exact ⟨hdistinct, (Prod.mk.inj hfound).1, hplaceable, hleaders⟩

/-- A snapshot assigns to each shard the member that the trimmed IDs name. -/
theorem leaders_of_readSnapshot {snapshot : Snapshot}
    (hread : readSnapshot env shardCount nodes shards = some snapshot) (hshard : shard ∈ shards) :
    snapshot.leaders[shard.shardId]? =
      (resolve trimmedId env nodes shard).bind fun node => normalizeNodeUrl env node.address := by
  obtain ⟨hdistinct, hids, hplaceable, hleaders⟩ := readSnapshot_spec hread
  obtain ⟨url, hurl⟩ := Option.isSome_iff_exists.1 (hplaceable.target shard hshard)
  have hpair : (shard.shardId, url) ∈ shards.filterMap (leaderPair snapshot.ids) := by
    refine List.mem_filterMap.2 ⟨shard, hshard, ?_⟩
    rw [leaderPair, hurl]
    rfl
  rw [← placementTarget_eq_resolve hdistinct, ← hids, hurl, hleaders, getElem?_insertAll_empty]
  · exact hpair
  · rw [map_fst_leaderPairs hplaceable.target]
    exact hplaceable.nodup

/-- A well-formed snapshot is accepted exactly when the trimmed IDs resolve each placement. -/
theorem readSnapshot_isSome_iff (hpos : 1 ≤ shardCount)
    (hwell : WellFormed env shardCount nodes shards) :
    (readSnapshot env shardCount nodes shards).isSome ↔
      ∀ shard ∈ shards, (resolve trimmedId env nodes shard).isSome := by
  have htarget : ∀ shard, (placementTarget
      (insertAll ∅ (idPairs (nodes.filterMap (member env)))) shard).isSome ↔
        (resolve trimmedId env nodes shard).isSome := by
    intro shard
    rw [placementTarget_eq_resolve hwell.distinct]
    cases hresolve : resolve trimmedId env nodes shard with
    | none => simp
    | some node => simp [resolve_url_isSome hresolve]
  constructor
  · intro h shard hshard
    obtain ⟨snapshot, hread⟩ := Option.isSome_iff_exists.1 h
    obtain ⟨-, hids, hplaceable, -⟩ := readSnapshot_spec hread
    rw [← htarget, ← hids]
    exact hplaceable.target shard hshard
  · intro h
    set ids := insertAll ∅ (idPairs (nodes.filterMap (member env))) with hids
    have hplaceable : Placeable shardCount ids shards := by
      refine ⟨fun shard hshard => ?_, fun shard hshard => (htarget shard).2 (h shard hshard), ?_⟩
      · exact List.mem_range.1 (hwell.placed.mem_iff.1 (List.mem_map_of_mem hshard))
      · exact hwell.placed.nodup_iff.2 List.nodup_range
    have hlength : (shards.filterMap (leaderPair ids)).length = shardCount := by
      rw [← List.length_map (f := Prod.fst), map_fst_leaderPairs hplaceable.target,
        hwell.placed.length_eq, List.length_range]
    have hsize : (insertAll ∅ (shards.filterMap (leaderPair ids))).size = shardCount := by
      rw [size_insertAll _ (by simp), hlength]
      · simp
      · rw [map_fst_leaderPairs hplaceable.target]
        exact hplaceable.nodup
    have hne : ids.isEmpty = false := by
      have hzero : 0 ∈ shards.map BrainShard.shardId :=
        hwell.placed.mem_iff.2 (List.mem_range.2 hpos)
      obtain ⟨shard, hshard, -⟩ := List.mem_map.1 hzero
      obtain ⟨url, hurl⟩ := Option.isSome_iff_exists.1 (hplaceable.target shard hshard)
      obtain ⟨id, hid⟩ := placementTarget_some hurl
      rw [Std.ExtTreeMap.isEmpty_eq_false_iff]
      intro hempty
      rw [hempty] at hid
      exact absurd hid (by simp)
    have hread : readSnapshot env shardCount nodes shards = some
        { ids
          metadata := insertAll ∅ (metadataPairs (nodes.filterMap (member env)))
          leaders := insertAll ∅ (shards.filterMap (leaderPair ids)) } :=
      readSnapshot_eq_some.2 ⟨collectNodes_eq_some.2 ⟨hwell.names, hwell.distinct, rfl⟩, hne,
        collectLeaders_eq_some.2 ⟨hplaceable, rfl⟩, hsize⟩
    rw [hread]
    rfl

/-- What a placement names by IDs as sent. -/
theorem WellFormed.resolve_isSome (hwell : WellFormed env shardCount nodes shards)
    (hshard : shard ∈ shards) : (resolve BrainNode.nodeId env nodes shard).isSome := by
  obtain ⟨id, hid, node, hnode, hmember, hname⟩ := hwell.resolved shard hshard
  rw [resolve, List.findSome?_isSome_iff]
  refine ⟨id, hid, ?_⟩
  rw [named, List.find?_isSome]
  exact ⟨node, hnode, by simp [hmember, hname]⟩

/-- Members of different URLs are different. -/
theorem WellFormed.eq_of_url (hwell : WellFormed env shardCount nodes shards)
    {spelling' : BrainNode → String} (hnode : resolve spelling env nodes shard = some node)
    (hnode' : resolve spelling' env nodes shard = some node')
    (hurl : normalizeNodeUrl env node.address = normalizeNodeUrl env node'.address) :
    node = node' := by
  obtain ⟨hmem, hsome⟩ := resolve_eq_some hnode
  obtain ⟨hmem', hsome'⟩ := resolve_eq_some hnode'
  obtain ⟨m, hm⟩ := Option.isSome_iff_exists.1 hsome
  obtain ⟨m', hm'⟩ := Option.isSome_iff_exists.1 hsome'
  refine eq_of_member hwell.urls hmem hmem' hm hm' (Option.some.inj ?_)
  rw [← (member_some_iff hm).2, ← (member_some_iff hm').2, hurl]

/-- **Placement resolves by node ID, if space around IDs does not matter.**  A well-formed
snapshot is accepted, and places every shard without a fresher redirect on the first member
its placement names by an ID as sent, exactly if every placement names a member by its
trimmed ID as well, and without a fresher redirect the same one. -/
theorem placed_by_id_iff (env : Env) {t : RouteTable} (hpos : 1 ≤ t.shardCount)
    {nodes : List BrainNode} {shards : List BrainShard}
    (hwell : WellFormed env t.shardCount nodes shards) (fetchedAt : Instant) :
    ((t.applyBrainSnapshotAt env nodes shards fetchedAt).1 = t.shardCount ∧
        ∀ shard ∈ shards, Unhinted t fetchedAt shard.shardId →
          (t.applyBrainSnapshotAt env nodes shards fetchedAt).2.leaderFor shard.shardId =
            (resolve BrainNode.nodeId env nodes shard).bind
              fun node => normalizeNodeUrl env node.address) ↔
      ∀ shard ∈ shards, ∃ node, resolve trimmedId env nodes shard = some node ∧
        (Unhinted t fetchedAt shard.shardId →
          resolve BrainNode.nodeId env nodes shard = some node) := by
  rw [applyBrainSnapshotAt_eq]
  have haccepted := readSnapshot_isSome_iff hpos hwell
  cases hread : readSnapshot env t.shardCount nodes shards with
  | none =>
    constructor
    · rintro ⟨hzero, -⟩
      exact absurd hzero.symm (Nat.one_le_iff_ne_zero.1 hpos)
    · intro h
      rw [hread] at haccepted
      refine absurd (haccepted.2 fun shard hshard => ?_) (by simp)
      obtain ⟨node, hnode, -⟩ := h shard hshard
      rw [hnode]
      rfl
  | some snapshot =>
    have hleader : ∀ shard ∈ shards, Unhinted t fetchedAt shard.shardId →
        (t.merge snapshot fetchedAt).leaderFor shard.shardId =
          (resolve trimmedId env nodes shard).bind
            fun node => normalizeNodeUrl env node.address := fun shard hshard hunhinted => by
      rw [leaderFor_merge_of_stale hunhinted, leaders_of_readSnapshot hread hshard]
    rw [Option.elim_some]
    dsimp only
    constructor
    · rintro ⟨-, hplaced⟩ shard hshard
      obtain ⟨node, hnode⟩ := Option.isSome_iff_exists.1
        (haccepted.1 (by simp [hread]) shard hshard)
      obtain ⟨node', hnode'⟩ := Option.isSome_iff_exists.1 (hwell.resolve_isSome hshard)
      refine ⟨node, hnode, fun hunhinted => ?_⟩
      have hurl := (hleader shard hshard hunhinted).symm.trans (hplaced shard hshard hunhinted)
      rw [hnode, hnode', Option.bind_some, Option.bind_some] at hurl
      rw [hnode', hwell.eq_of_url hnode hnode' hurl]
    · intro h
      refine ⟨rfl, fun shard hshard hunhinted => ?_⟩
      obtain ⟨node, hnode, hsame⟩ := h shard hshard
      rw [hsame hunhinted, ← hnode]
      exact hleader shard hshard hunhinted

/-- A placement by an ID without space around it, applied. -/
theorem placed_by_id_plain :
    ((RouteTable.new Reference.env 1 []).applyBrainSnapshotAt Reference.env
      [Sample.node "x" "a:1"] [Sample.placement (some "x") []] 0).1 = 1 := by
  have hwell : WellFormed Reference.env 1 [Sample.node "x" "a:1"]
      [Sample.placement (some "x") []] := by
    refine ⟨?_, ?_, ?_, ?_, ?_⟩
    all_goals decide +kernel
  refine ((placed_by_id_iff Reference.env (t := .new Reference.env 1 []) le_rfl hwell 0).2
    (List.forall_mem_singleton.2 ⟨Sample.node "x" "a:1", ?_, fun _ => ?_⟩)).1
  all_goals decide +kernel

/-- **An ID with space around it places nothing**: the snapshot is well formed, and
rejected. -/
theorem not_placed_by_id :
    WellFormed Reference.env 1 [Sample.node " x" "a:1"] [Sample.placement (some " x") []] ∧
      ((RouteTable.new Reference.env 1 []).applyBrainSnapshotAt Reference.env
        [Sample.node " x" "a:1"] [Sample.placement (some " x") []] 0).1 = 0 := by
  refine ⟨⟨?_, ?_, ?_, ?_, ?_⟩, ?_⟩
  all_goals decide +kernel

end

end RouteTable

end LoadBalance
