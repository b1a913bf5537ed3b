import FiduciaLoadBalance.Table.NodeUrl
import FiduciaLoadBalance.Table.Placement
import FiduciaLoadBalance.Table.Refresh

/-!
# The table and the clock

Redirects and refreshes are stamped with the time they happen at, read from one clock that
only goes forward.  A leader learned from a redirect outlives the snapshots that were
requested before it.

* `Clocked` — the table under its refresh loop, next to the clock;
* `Sound` — nodes are in normal form and, once there are any, every shard has a leader;
* `Healed` — a shard has this leader, and the table remembers since when;
* `Healed.after_acceptLeaderHint`, `Healed.after_snapshot` — what does not undo it.
-/

namespace LoadBalance

open TreeMap

namespace RouteTable

/-! ## Normal forms, and a leader for every shard -/

/-- Nodes are in normal form, and with nodes each shard has a leader. -/
structure Sound (env : Env) (t : RouteTable) : Prop where
  normal : ∀ url ∈ t.nodes, normalizeNodeUrl env url = some url
  total : t.nodes ≠ [] → ∀ shard < t.shardCount, (t.leaderFor shard).isSome

section

variable {env : Env} {t : RouteTable}

theorem Sound.new (hurls : env.SpellsOrigins) (shardCount : ℕ) (seeds : List String) :
    Sound env (.new env shardCount seeds) := by
  constructor
  · intro url hurl
    obtain ⟨seed, -, hseed⟩ := List.mem_filterMap.1 (mem_dedup.1 hurl).1
    exact normalizeNodeUrl_idem hurls hseed
  · intro hne shard hlt
    have htotal := (Inv.new env shardCount seeds).leaders_total hne shard
    exact Std.ExtTreeMap.mem_iff_isSome_getElem?.1 (htotal.2 hlt)

/-- A change that keeps the nodes, and the leaders there are. -/
theorem Sound.congr (ht : Sound env t) {t' : RouteTable} (hnodes : t'.nodes = t.nodes)
    (hcount : t'.shardCount = t.shardCount)
    (hleaders : ∀ shard, (t.leaderFor shard).isSome → (t'.leaderFor shard).isSome) :
    Sound env t' := by
  constructor
  · rw [hnodes]
    exact ht.normal
  · rw [hnodes, hcount]
    intro hne shard hlt
    exact hleaders shard (ht.total hne shard hlt)

/-- A hint that normalizes to a node is accepted as that node. -/
theorem Sound.acceptLeaderHint (ht : Sound env t) {nodeUrl leader : String}
    (hhint : normalizeNodeUrl env nodeUrl = some leader) (hmember : leader ∈ t.nodes)
    (shard : ShardId) (now : Instant) :
    t.acceptLeaderHint env shard nodeUrl now = (some leader,
      { t with
        leaders := t.leaders.insert shard leader
        leaderHints := t.leaderHints.insert shard now }) := by
  rw [RouteTable.acceptLeaderHint, (knownNode_eq_some ht.normal).2 ⟨hmember, hhint⟩]

theorem Sound.merge (hurls : env.SpellsOrigins) {nodes : List BrainNode}
    {shards : List BrainShard} {snapshot : Snapshot}
    (hread : readSnapshot env t.shardCount nodes shards = some snapshot) (fetchedAt : Instant) :
    Sound env (t.merge snapshot fetchedAt) := by
  constructor
  · intro url hurl
    obtain ⟨node, -, -, hnode⟩ := healthy_of_mem_members hread hurl
    exact normalizeNodeUrl_idem hurls hnode
  · intro _ shard hlt
    have hplaced : snapshot.leaders[shard]?.isSome :=
      Std.ExtTreeMap.mem_iff_isSome_getElem?.1 ((mem_leaders_of_readSnapshot hread).2 hlt)
    rw [leaderFor_merge, Option.isSome_or, hplaced, Bool.or_true]

/-- Every operation keeps a table sound. -/
theorem Sound.apply (hurls : env.SpellsOrigins) (ht : Sound env t) (op : Op) :
    Sound env (t.apply env op) := by
  cases op with
  | acceptLeaderHint shard nodeUrl now =>
    rw [RouteTable.apply]
    rcases acceptLeaderHint_cases env t shard nodeUrl now with h | ⟨known, -, h⟩
    · rw [h]
      exact ht
    · rw [h]
      refine ht.congr rfl rfl fun s hs => ?_
      rw [leaderFor, getElem?_insert_eq]
      split
      · rfl
      · exact hs
  | applyBrainSnapshotAt nodes shards fetchedAt =>
    rw [RouteTable.apply, applyBrainSnapshotAt_eq]
    cases hread : readSnapshot env t.shardCount nodes shards with
    | none => exact ht
    | some snapshot => exact Sound.merge hurls hread fetchedAt
  | anyNodeExcluding excluded =>
    obtain ⟨c, h, -⟩ := anyNodeExcluding_cases t excluded
    rw [RouteTable.apply, h]
    exact ht.congr rfl rfl fun _ hs => hs
  | recordRegionRequest nodeUrl => exact ht.congr rfl rfl fun _ hs => hs

end

/-! ## The clock -/

/-- The table under its refresh loop, and the clock. -/
structure Clocked where
  refreshing : Refreshing
  clock : Instant

namespace Clocked

abbrev table (s : Clocked) : RouteTable := s.refreshing.table

def new (env : Env) (shardCount : ℕ) (seeds : List String) : Clocked where
  refreshing := .new env shardCount seeds
  clock := 0

/-- The state after an event that happens now. -/
def after (env : Env) (s : Clocked) (event : TableEvent) : Clocked :=
  { s with refreshing := s.refreshing.step env (s.clock, event) }

/-- Time goes on. -/
def tick (s : Clocked) (now : Instant) : Clocked := { s with clock := now }

variable {env : Env} {s : Clocked}

@[simp] theorem table_tick (s : Clocked) (now : Instant) : (s.tick now).table = s.table := rfl

@[simp] theorem clock_after (event : TableEvent) : (s.after env event).clock = s.clock := rfl

theorem table_after_acceptLeaderHint (shard : ShardId) (nodeUrl : String) :
    (s.after env (.acceptLeaderHint shard nodeUrl)).table =
      (s.table.acceptLeaderHint env shard nodeUrl s.clock).2 := by
  rw [table, after, Refreshing.step]

/-- A snapshot is one that was requested, or nothing. -/
theorem table_after_snapshot (nodes : List BrainNode) (shards : List BrainShard) :
    (s.after env (.snapshot nodes shards)).table = s.table ∨
      ∃ fetchedAt snapshot, s.refreshing.fetchedAt = some fetchedAt ∧
        (s.after env (.snapshot nodes shards)).table = s.table.merge snapshot fetchedAt := by
  rw [table, after, Refreshing.step]
  cases hfetched : s.refreshing.fetchedAt with
  | none => exact Or.inl rfl
  | some fetchedAt =>
    dsimp only
    rw [applyBrainSnapshotAt_eq]
    cases readSnapshot env s.refreshing.table.shardCount nodes shards with
    | none => exact Or.inl rfl
    | some snapshot => exact Or.inr ⟨fetchedAt, snapshot, rfl, rfl⟩

theorem shardCount_after (event : TableEvent) :
    (s.after env event).table.shardCount = s.table.shardCount := by
  rcases s.refreshing.step_table env (s.clock, event) with h | ⟨op, h⟩
  · exact congrArg RouteTable.shardCount h
  · exact (congrArg RouteTable.shardCount h).trans (shardCount_apply env _ op)

theorem sound_after (hurls : env.SpellsOrigins) (hs : Sound env s.table) (event : TableEvent) :
    Sound env (s.after env event).table := by
  rcases s.refreshing.step_table env (s.clock, event) with h | ⟨op, h⟩
  · rw [table, after, h]
    exact hs
  · rw [table, after, h]
    exact hs.apply hurls op

end Clocked

/-! ## A leader once learned -/

/-- **A shard is healed** if `leader` leads it; and if that was learned at a moment of
`since`, the table remembers it as learned then or later. -/
structure Healed (shard : ShardId) (leader : String) (since : Option Instant) (s : Clocked) :
    Prop where
  leads : s.table.leaderFor shard = some leader
  learned : ∀ t ∈ since, t ≤ s.clock ∧
    ∃ learnedAt, s.table.leaderHints[shard]? = some learnedAt ∧ t ≤ learnedAt

/-- From `s` to `s'` the table is changed by a snapshot that was requested after `since`; if
nothing was learned, any snapshot is. -/
def Overruled (since : Option Instant) (s s' : Clocked) : Prop :=
  s'.table ≠ s.table ∧ ∃ fetchedAt, s.refreshing.fetchedAt = some fetchedAt ∧
    ∀ t ∈ since, t < fetchedAt

section

variable {env : Env} {shard : ShardId} {leader : String} {since : Option Instant} {s s' : Clocked}

/-- A change that leaves the shard's leader and hint alone. -/
theorem Healed.congr (h : Healed shard leader since s)
    (hleads : s'.table.leaderFor shard = s.table.leaderFor shard)
    (hlearned : s'.table.leaderHints[shard]? = s.table.leaderHints[shard]?)
    (hclock : s.clock ≤ s'.clock) : Healed shard leader since s' := by
  constructor
  · rw [hleads]
    exact h.leads
  · intro t ht
    obtain ⟨hle, hhint⟩ := h.learned t ht
    rw [hlearned]
    exact ⟨hle.trans hclock, hhint⟩

theorem Healed.tick (h : Healed shard leader since s) {now : Instant} (hnow : s.clock ≤ now) :
    Healed shard leader since (s.tick now) := h.congr rfl rfl hnow

theorem Healed.after_refreshFromBrain (h : Healed shard leader since s) :
    Healed shard leader since (s.after env .refreshFromBrain) := h.congr rfl rfl le_rfl

theorem Healed.after_recordRegionRequest (h : Healed shard leader since s) (nodeUrl : String) :
    Healed shard leader since (s.after env (.recordRegionRequest nodeUrl)) :=
  h.congr rfl rfl le_rfl

theorem Healed.after_anyNodeExcluding (h : Healed shard leader since s) (excluded : List String) :
    Healed shard leader since (s.after env (.anyNodeExcluding excluded)) := by
  have htable : (s.after env (.anyNodeExcluding excluded)).table =
      (s.table.anyNodeExcluding excluded).2 := by
    rw [Clocked.table, Clocked.after, Refreshing.step]
  obtain ⟨cursor, hcursor, -⟩ := anyNodeExcluding_cases s.table excluded
  refine h.congr ?_ ?_ (Clocked.clock_after _).ge
  · rw [htable, hcursor, leaderFor, leaderFor]
  · rw [htable, hcursor]

/-- A hint that is accepted for the shard heals it. -/
theorem healed_of_acceptLeaderHint {nodeUrl : String}
    (haccepted : (s.table.acceptLeaderHint env shard nodeUrl s.clock).1 = some leader) :
    Healed shard leader (some s.clock) (s.after env (.acceptLeaderHint shard nodeUrl)) := by
  rcases acceptLeaderHint_cases env s.table shard nodeUrl s.clock with h | ⟨known, -, h⟩
  · rw [h] at haccepted
    exact absurd haccepted (by simp)
  · rw [h] at haccepted
    obtain rfl := Option.some.inj haccepted
    constructor
    · rw [Clocked.table_after_acceptLeaderHint, h, leaderFor, getElem?_insert_eq, if_pos rfl]
    · intro t ht
      obtain rfl := Option.some.inj ht
      refine ⟨(Clocked.clock_after _).ge, s.clock, ?_, le_rfl⟩
      rw [Clocked.table_after_acceptLeaderHint, h, getElem?_insert_eq, if_pos rfl]

/-- **Hints do not undo it**: those for the shard name the same leader. -/
theorem Healed.after_acceptLeaderHint (h : Healed shard leader since s)
    (hs : Sound env s.table) (hmember : leader ∈ s.table.nodes) (shard' : ShardId)
    {nodeUrl : String} (hhint : shard' = shard → normalizeNodeUrl env nodeUrl = some leader) :
    Healed shard leader since (s.after env (.acceptLeaderHint shard' nodeUrl)) := by
  by_cases heq : shard' = shard
  · subst heq
    have haccepted := hs.acceptLeaderHint (hhint rfl) hmember shard' s.clock
    have hhealed := healed_of_acceptLeaderHint (congrArg Prod.fst haccepted)
    refine ⟨hhealed.leads, fun t ht => ?_⟩
    obtain ⟨-, learnedAt, hlearned, hle⟩ := hhealed.learned s.clock rfl
    have hbefore := (h.learned t ht).1
    exact ⟨hbefore.trans (Clocked.clock_after _).ge, learnedAt, hlearned, hbefore.trans hle⟩
  · have hne := Ne.symm heq
    rcases acceptLeaderHint_cases env s.table shard' nodeUrl s.clock with hnone | ⟨known, -, hsome⟩
    · refine h.congr ?_ ?_ (Clocked.clock_after _).ge
      · rw [Clocked.table_after_acceptLeaderHint, hnone]
      · rw [Clocked.table_after_acceptLeaderHint, hnone]
    · refine h.congr ?_ ?_ (Clocked.clock_after _).ge
      · rw [Clocked.table_after_acceptLeaderHint, hsome, leaderFor, getElem?_insert_eq, if_neg hne,
          leaderFor]
      · rw [Clocked.table_after_acceptLeaderHint, hsome, getElem?_insert_eq, if_neg hne]

/-- A leader learned since the snapshot was requested is kept, as is when it was learned. -/
theorem Healed.merge (h : Healed shard leader since s) {snapshot : Snapshot}
    {fetchedAt t : Instant} (ht : t ∈ since) (hle : fetchedAt ≤ t)
    (hmember : leader ∈ snapshot.members)
    (hmerge : s'.table = s.table.merge snapshot fetchedAt) (hclock : s.clock ≤ s'.clock) :
    Healed shard leader since s' := by
  obtain ⟨hbefore, learnedAt, hhint, hlearned⟩ := h.learned t ht
  have hfresh : fetchedAt ≤ learnedAt := hle.trans hlearned
  constructor
  · rw [hmerge, leaderFor_merge_of_hint hhint hfresh h.leads, if_pos hmember]
  · intro t' ht'
    obtain rfl := Option.some.inj (ht'.symm.trans ht)
    refine ⟨hbefore.trans hclock, learnedAt, ?_, hlearned⟩
    rw [hmerge]
    show (s.table.freshHints fetchedAt)[shard]? = some learnedAt
    rw [getElem?_freshHints, hhint, Option.filter_some, if_pos (by simpa using hfresh)]

/-- **Snapshots do not undo it** that were requested before, and still list the leader. -/
theorem Healed.after_snapshot (h : Healed shard leader since s) (nodes : List BrainNode)
    (shards : List BrainShard)
    (hmember : leader ∈ (s.after env (.snapshot nodes shards)).table.nodes)
    (hnot : ¬Overruled since s (s.after env (.snapshot nodes shards))) :
    Healed shard leader since (s.after env (.snapshot nodes shards)) := by
  by_cases hsame : (s.after env (.snapshot nodes shards)).table = s.table
  · refine h.congr ?_ ?_ (Clocked.clock_after _).ge
    · rw [hsame]
    · rw [hsame]
  · obtain ⟨fetchedAt, snapshot, hfetched, hmerge⟩ :=
      (Clocked.table_after_snapshot nodes shards).resolve_left hsame
    obtain ⟨t, ht, hle⟩ : ∃ t ∈ since, fetchedAt ≤ t := by
      by_contra hlater
      refine hnot ⟨hsame, fetchedAt, hfetched, fun t ht => ?_⟩
      exact not_le.1 fun hle => hlater ⟨t, ht, hle⟩
    rw [hmerge] at hmember
    exact h.merge ht hle hmember hmerge (Clocked.clock_after _).ge

end

end RouteTable

end LoadBalance
