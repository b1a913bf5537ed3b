import FiduciaLoadBalance.Proxy.Mediation
import FiduciaLoadBalance.Proxy.Simulation
import FiduciaLoadBalance.Table.NodeUrl

/-!
# Only members receive traffic

In every run of the balancer, whatever the nodes answer, each attempt goes to a URL
that the table listed as a node when the task chose it: a normalized seed, or the
normalized address of a healthy node of the last accepted snapshot.

* `Members` — the invariant of the world that every event keeps;
* `choosing` — the contract of a task: it attempts the URL it chose last.
-/

namespace LoadBalance

open Http Text Conc TreeMap

namespace Proxy

/-! ## Where the nodes come from -/

/-- A URL the balancer was configured with, or was told of by the last snapshot. -/
def Origin (env : Env) (seeds : List String) : Option (List BrainNode) → String → Prop
  | none, url => ∃ seed ∈ seeds, normalizeNodeUrl env seed = some url
  | some nodes, url => ∃ node ∈ nodes, RouteTable.BrainNode.Healthy node ∧
    normalizeNodeUrl env node.address = some url

/-- What holds of the world at every moment: leaders are nodes, and nodes come from the
configuration or the last snapshot. -/
structure Members {N : Type} (env : Env) (seeds : List String) (w : World N) : Prop where
  shards : 0 < w.table.shardCount
  leader_mem : ∀ (shard : ShardId) (url : String), w.table.leaders[shard]? = some url →
    url ∈ w.table.nodes
  origin : ∀ url ∈ w.table.nodes, Origin env seeds w.snapshot url

theorem Origin.normal {env : Env} (hurls : env.SpellsOrigins) {seeds : List String}
    {snapshot : Option (List BrainNode)} {url : String} (h : Origin env seeds snapshot url) :
    normalizeNodeUrl env url = some url := by
  cases snapshot with
  | none =>
    obtain ⟨seed, -, hseed⟩ := h
    exact normalizeNodeUrl_idem hurls hseed
  | some nodes =>
    obtain ⟨node, -, -, hnode⟩ := h
    exact normalizeNodeUrl_idem hurls hnode

section

variable {env : Env} {shardCount : ℕ} {seeds : List String} {N : Type} {U : Upstreams N}
  {admits : Request → Prop}

theorem Members.new (hpos : 1 ≤ shardCount) (n : N) :
    Members env seeds (World.new env shardCount seeds n) := by
  refine ⟨hpos, (RouteTable.Inv.new env shardCount seeds).leader_mem, fun url hurl => ?_⟩
  exact List.mem_filterMap.1 (RouteTable.mem_dedup.1 hurl).1

/-- What a call on the table leaves as it is. -/
theorem TableStep.nodes {t t' : RouteTable} {e : Call} {r : e.Answer} (h : TableStep env t e r t') :
    t'.nodes = t.nodes ∧ t'.shardCount = t.shardCount ∧
      ∀ (shard : ShardId) (url : String), t'.leaders[shard]? = some url →
        t.leaders[shard]? = some url ∨ url ∈ t.nodes := by
  cases h with
  | acceptLeaderHint shard nodeUrl now =>
    rcases RouteTable.acceptLeaderHint_cases env t shard nodeUrl now with h | ⟨known, hknown, h⟩
    · rw [h]
      exact ⟨rfl, rfl, fun _ _ => Or.inl⟩
    · rw [h]
      refine ⟨rfl, rfl, fun s url hs => ?_⟩
      rw [getElem?_insert_eq] at hs
      split at hs
      · exact Or.inr (Option.some.inj hs ▸ hknown)
      · exact Or.inl hs
  | anyNodeExcluding excluded =>
    obtain ⟨c, h, -⟩ := RouteTable.anyNodeExcluding_cases t excluded
    rw [h]
    exact ⟨rfl, rfl, fun _ _ => Or.inl⟩
  | _ => exact ⟨rfl, rfl, fun _ _ => Or.inl⟩

theorem Members.exec {w w' : World N} (hw : Members env seeds w) {i : ℕ} {e : Call} {r : e.Answer}
    (h : Exec env U i w e r w') : Members env seeds w' := by
  cases h with
  | attempt _ => exact ⟨hw.shards, hw.leader_mem, hw.origin⟩
  | table ht =>
    obtain ⟨hnodes, hcount, hleaders⟩ := ht.nodes
    refine ⟨hcount ▸ hw.shards, fun shard url hs => ?_, fun url hurl => ?_⟩
    · exact hnodes ▸ (hleaders shard url hs).elim (hw.leader_mem shard url) id
    · exact hw.origin url (hnodes ▸ hurl)

theorem Members.applySnapshot {w : World N} (hw : Members env seeds w) (nodes : List BrainNode)
    (shards : List BrainShard) (fetchedAt : Instant) :
    Members env seeds (w.applySnapshot env nodes shards fetchedAt) := by
  rw [World.applySnapshot]
  rcases RouteTable.applyBrainSnapshotAt_cases env w.table nodes shards fetchedAt with
    h | ⟨ids, metadata, leaders, hcollected, hids, hplaced, hsize, h⟩
  · simp only [h, if_pos]
    exact ⟨hw.shards, hw.leader_mem, hw.origin⟩
  · simp only [h, if_neg hw.shards.ne']
    refine ⟨hw.shards, fun shard url hs => ?_, fun url hurl => ?_⟩
    · rw [RouteTable.getElem?_keepHinted] at hs
      rcases Option.or_eq_some_iff.1 hs with hs | ⟨-, hs⟩
      · exact (RouteTable.hintedLeader_some hs).2.2
      · exact RouteTable.mem_snapshot_nodes.2 (hplaced shard url hs).2
    · obtain ⟨id, hid⟩ := RouteTable.mem_snapshot_nodes.1 hurl
      exact hcollected.healthy hid

theorem keeps_members : (balancer env shardCount U admits).Keeps (Members env seeds) where
  exec := fun hw h => hw.exec h
  env := by
    rintro w w' hw (⟨nodes, shards, fetchedAt⟩ | _)
    · exact hw.applySnapshot nodes shards fetchedAt
    · exact ⟨hw.shards, hw.leader_mem, hw.origin⟩
  drop := by
    rintro i p w w' hw (_ | _)
    · exact hw
    · exact ⟨hw.shards, hw.leader_mem, hw.origin⟩

/-! ## What a task chooses -/

/-- The URL an answer of the table gives to a task. -/
def chosen : TaskEvent → Option String
  | ⟨.leaderFor _, url⟩ => url
  | ⟨.anyNodeExcluding _, url⟩ => url
  | ⟨.acceptLeaderHint _ _, url⟩ => url
  | ⟨.validateNodeHint _, url⟩ => url
  | ⟨.recordRegionRequest _, _⟩ => none
  | ⟨.forwardOnce _, _⟩ => none

/-- What the table gives to a task is a member. -/
theorem TableStep.chosen_mem {t t' : RouteTable}
    (hleaders : ∀ (shard : ShardId) (url : String), t.leaders[shard]? = some url → url ∈ t.nodes)
    {e : Call} {r : e.Answer} (h : TableStep env t e r t') {url : String}
    (hurl : chosen ⟨e, r⟩ = some url) : url ∈ t.nodes := by
  cases h with
  | leaderFor shard => exact hleaders shard url hurl
  | anyNodeExcluding excluded =>
    obtain ⟨c, -, hc⟩ := RouteTable.anyNodeExcluding_cases t excluded
    exact (hc url hurl).1
  | acceptLeaderHint shard nodeUrl now =>
    generalize hanswer : (t.acceptLeaderHint env shard nodeUrl now).1 = answer at hurl
    obtain rfl : answer = some url := hurl
    rcases RouteTable.acceptLeaderHint_cases env t shard nodeUrl now with
      h | ⟨known, hknown, h⟩
    · rw [h] at hanswer
      exact absurd hanswer (by simp)
    · rw [h] at hanswer
      exact Option.some.inj hanswer ▸ hknown
  | validateNodeHint nodeUrl =>
    generalize hanswer : t.validateNodeHint env nodeUrl = answer at hurl
    obtain rfl : answer = some url := hurl
    exact RouteTable.knownNode_mem hanswer
  | recordRegionRequest nodeUrl => exact absurd hurl (by simp [chosen])

theorem chosen_mem {w w' : World N} (hw : Members env seeds w) {i : ℕ} {ev : TaskEvent}
    (h : Exec env U i w ev.1 ev.2 w') {url : String} (hurl : chosen ev = some url) :
    url ∈ w.table.nodes := by
  obtain ⟨e, r⟩ := ev
  cases h with
  | attempt _ => exact absurd hurl (by simp [chosen])
  | table ht => exact ht.chosen_mem hw.leader_mem hurl

/-- The last URL chosen in a history is `url`; since then it was only counted. -/
def ChosenLast (h : History) (url : String) : Prop :=
  ∃ pre ev post, h = pre ++ ev :: post ∧ chosen ev = some url ∧
    ∀ ev' ∈ post, ev'.1 = .recordRegionRequest url

theorem ChosenLast.concat (h : History) {ev : TaskEvent} {url : String}
    (hev : chosen ev = some url) : ChosenLast (h ++ [ev]) url :=
  ⟨h, ev, [], rfl, hev, by simp⟩

/-- The contract of a task: it attempts what it chose last. -/
def choosing : Contract Call Call.Answer where
  rely _ _ _ := True
  guarantee h e := ∀ a, e = .forwardOnce a → ChosenLast h a.nodeUrl

theorem choosing_table (h : History) {e : Call} (he : e.IsTable) : choosing.guarantee h e := by
  rintro a rfl
  exact he.elim

theorem hops_choosing {request : ForwardRequest} {Q : History → Response → Prop}
    (hQ : ∀ h response, Q h response) :
    Hops env choosing request (fun _ target h => ChosenLast h target) (fun _ _ => True) Q := by
  refine ⟨fun {_ target h} hI => ⟨choosing_table h trivial, ?_⟩, fun hI _ => ⟨?_, fun reply _ => ?_⟩,
    fun {_ h} _ leader => ⟨fun shard _ => ⟨choosing_table h trivial, fun answer _ => ⟨trivial, ?_⟩⟩,
      fun _ => ⟨choosing_table h trivial, fun answer _ => ⟨trivial, ?_⟩⟩⟩,
    fun {_ h} _ => ⟨choosing_table h trivial, fun answer _ => ⟨?_, fun _ => hQ _ _⟩⟩,
    fun _ _ => hQ _ _⟩
  · obtain ⟨pre, ev, post, rfl, hev, hpost⟩ := hI
    refine ⟨pre, ev, post ++ [⟨.recordRegionRequest target, ()⟩], by simp, hev, fun ev' h' => ?_⟩
    rcases List.mem_append.1 h' with h' | h'
    · exact hpost ev' h'
    · rw [List.mem_singleton.1 h']
  · rintro a ha
    obtain rfl := Call.forwardOnce.inj ha
    exact hI
  · cases outcome env (request.attempt _) reply with
    | ambiguousTransport =>
      rw [AfterAttempt]
      split
      · trivial
      · exact hQ _ _
    | notLeader _ => trivial
    | notSent => trivial
    | _ => exact hQ _ _
  · exact fun target _ ht => .concat h ht
  · exact fun target _ ht => .concat h ht
  · exact fun target ht => .concat h ht

theorem wp_route_choosing {request : Request} {h : History} :
    (route env shardCount request).wp choosing (fun _ _ => True) h := by
  refine wp_route_of_sent fun _ {sent Q h} _ hQ => ?_
  apply wp_routeWithoutCustomerIdempotency fun _ => hops_choosing hQ
  · exact fun shard _ => ⟨choosing_table h trivial, fun answer _ =>
      ⟨fun _ ht => .concat h ht, fun _ => hQ _ _⟩⟩
  · exact fun _ => ⟨choosing_table h trivial, fun answer _ =>
      ⟨fun _ ht => .concat h ht, fun _ => hQ _ _⟩⟩

end

/-- **Only members receive traffic.**  In every run of the balancer, over nodes that may
answer anything: when a task calls `forwardOnce`, the URL is the one it chose last, and
was then one of the table's nodes, which are normalized seeds or the normalized
addresses of the healthy nodes of the last accepted snapshot.  And at every moment a
hint that does not normalize to a member leaves the table as it is. -/
theorem forwardOnce_member (env : Env) (hurls : env.SpellsOrigins) {shardCount : ℕ}
    (hpos : 1 ≤ shardCount) (seeds : List String) {N : Type} (U : Upstreams N)
    (admits : Request → Prop) (n : N) {h : List (WorldMoment N)}
    {c : Config Call Call.Answer Response (World N)}
    (hrun : (balancer env shardCount U admits).Run (World.new env shardCount seeds n) h c) :
    (∀ i a k, c.procs i = some (.call (.forwardOnce a) k) →
      ∃ pre m post ev, h = pre ++ m :: post ∧ m.label = .answer i ev ∧
        chosen ev = some a.nodeUrl ∧
        (∀ ev' ∈ Machine.own i post, ev'.1 = .recordRegionRequest a.nodeUrl) ∧
        a.nodeUrl ∈ m.before.table.nodes ∧ Origin env seeds m.before.snapshot a.nodeUrl) ∧
    ∀ hint, (∀ url, normalizeNodeUrl env hint = some url → url ∉ c.shared.table.nodes) →
      ∀ shard now, c.shared.table.acceptLeaderHint env shard hint now = (none, c.shared.table) ∧
        c.shared.table.validateNodeHint env hint = none := by
  obtain ⟨hmembers, hmoments⟩ := hrun.invariant keeps_members (Members.new hpos n)
  refine ⟨fun i a k hlive => ?_, fun hint hhint shard now => RouteTable.hint_ignored
    (fun url hurl => (hmembers.origin url hurl).normal hurls) hhint shard now⟩
  obtain ⟨p, hst⟩ := hrun.tracked.started hlive
  obtain ⟨-, request, -, rfl⟩ := hrun.start_of_started hst
  obtain ⟨pre, ev, post, hown, hchosen, hpost⟩ :=
    hrun.own_next hst wp_route_choosing (fun _ _ _ _ _ _ => trivial) hlive a rfl
  obtain ⟨hpre, before, after, hrest, hsplit, hownpre⟩ := Machine.own_split hown
  have hmem : (⟨.answer i ev, before, after⟩ : WorldMoment N) ∈ h := by simp [hsplit]
  have hexec : Exec env U i before ev.1 ev.2 after := hrun.allowed _ hmem
  have hnode := chosen_mem (hmoments _ hmem).1 hexec hchosen
  refine ⟨hpre, ⟨.answer i ev, before, after⟩, hrest, ev, hsplit, rfl, hchosen, ?_, hnode,
    (hmoments _ hmem).1.origin _ hnode⟩
  rw [hsplit, Machine.own_append, Machine.own_answer_self, hownpre] at hown
  rw [(List.cons.inj (List.append_cancel_left hown)).2]
  exact hpost

/-- A task that was told a leader, and the node it is about to send to. -/
theorem forwardOnce_member_put : ∃ h c a k, Sample.Cluster.Run Sample.world h c ∧
    c.procs 0 = some (.call (.forwardOnce a) k) ∧ ∃ m ∈ h, a.nodeUrl ∈ m.before.table.nodes := by
  obtain ⟨h, c, _, _, hplay, -, hfound⟩ := Sample.driver.exists_play
    (.initial Sample.world)
    [Sample.start [], .answer 0 (.table 0), .answer 0 (.table 0)] []
    (fun _ c _ _ => c.waiting 0 = some
      (.forwardOnce ((claimRequest Reference.env (Sample.put []) (Sample.claimed [])).attempt
        "http://a:1")))
    (by decide +kernel)
  obtain ⟨k, hlive⟩ := Config.waiting_eq_some.1 (of_decide_eq_true hfound)
  have hrun : Sample.Cluster.Run Sample.world h c := Sample.driver.run_of_play .init hplay
  obtain ⟨pre, m, post, ev, hsplit, -, -, -, hnode, -⟩ := (forwardOnce_member Reference.env
    Reference.spellsOrigins le_rfl ["http://a:1"] _ _ _ hrun).1 0 _ k hlive
  exact ⟨h, c, _, k, hrun, hlive, m, by simp [hsplit], hnode⟩

end Proxy

end LoadBalance
