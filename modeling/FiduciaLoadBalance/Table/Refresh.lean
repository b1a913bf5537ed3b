import FiduciaLoadBalance.Table.Snapshot

/-!
# Redirects and the refresh loop

One loop refreshes the table: it notes the time, asks the brain, applies what it gets, and
starts over.  Meanwhile requests learn leaders from redirects.  The table remembers of a
redirect only when it was learned; which node it named is read back from the leaders.

* `Refreshing.run` — the table under its refresh loop, over timed events;
* `lastLearned` — the redirect a shard was last corrected by, told from the events alone;
* `Current` — what ties the two together, and is kept by every event;
* `leaderFor_snapshot` — a redirect wins over a snapshot exactly if it was learned after
  the snapshot was requested and names one of its members.
-/

namespace LoadBalance

open TreeMap

namespace RouteTable

/-- What happens to the table. -/
inductive TableEvent : Type
  /-- `refresh_from_brain` notes the time and asks the brain. -/
  | refreshFromBrain
  /-- And applies the brain's answer. -/
  | snapshot (nodes : List BrainNode) (shards : List BrainShard)
  | acceptLeaderHint (shard : ShardId) (nodeUrl : String)
  | anyNodeExcluding (excluded : List String)
  | recordRegionRequest (nodeUrl : String)

/-- An event, and when it happens. -/
abbrev TimedEvent : Type := Instant × TableEvent

/-- The table, and since when a refresh of it is under way. -/
structure Refreshing where
  table : RouteTable
  fetchedAt : Option Instant

namespace Refreshing

def new (env : Env) (shardCount : ℕ) (seeds : List String) : Refreshing where
  table := .new env shardCount seeds
  fetchedAt := none

/-- The next state.  A refresh that fails is followed by the next one; without one under
way there is no snapshot to apply. -/
def step (env : Env) (s : Refreshing) : TimedEvent → Refreshing
  | (now, .refreshFromBrain) => { s with fetchedAt := some now }
  | (_, .snapshot nodes shards) =>
    match s.fetchedAt with
    | some fetchedAt =>
      { table := (s.table.applyBrainSnapshotAt env nodes shards fetchedAt).2, fetchedAt := none }
    | none => s
  | (now, .acceptLeaderHint shard nodeUrl) =>
    { s with table := (s.table.acceptLeaderHint env shard nodeUrl now).2 }
  | (_, .anyNodeExcluding excluded) => { s with table := (s.table.anyNodeExcluding excluded).2 }
  | (_, .recordRegionRequest nodeUrl) => { s with table := s.table.recordRegionRequest nodeUrl }

/-- The state after a run of events. -/
def run (env : Env) (s : Refreshing) (events : List TimedEvent) : Refreshing :=
  events.foldl (step env) s

@[simp] theorem run_nil (env : Env) (s : Refreshing) : s.run env [] = s := rfl

@[simp] theorem run_cons (env : Env) (s : Refreshing) (e : TimedEvent) (events : List TimedEvent) :
    s.run env (e :: events) = (s.step env e).run env events := rfl

@[simp] theorem run_append (env : Env) (s : Refreshing) (events events' : List TimedEvent) :
    s.run env (events ++ events') = (s.run env events).run env events' :=
  List.foldl_append

/-- An event is an operation of the table, or none. -/
theorem step_table (env : Env) (s : Refreshing) (e : TimedEvent) :
    (s.step env e).table = s.table ∨ ∃ op, (s.step env e).table = s.table.apply env op := by
  obtain ⟨now, event⟩ := e
  cases event with
  | refreshFromBrain => exact Or.inl rfl
  | snapshot nodes shards =>
    rw [step]
    split
    · exact Or.inr ⟨.applyBrainSnapshotAt nodes shards _, rfl⟩
    · exact Or.inl rfl
  | acceptLeaderHint shard nodeUrl =>
    exact Or.inr ⟨.acceptLeaderHint shard nodeUrl now, by rw [step, apply]⟩
  | anyNodeExcluding excluded =>
    exact Or.inr ⟨.anyNodeExcluding excluded, by rw [step, apply]⟩
  | recordRegionRequest nodeUrl => exact Or.inr ⟨.recordRegionRequest nodeUrl, rfl⟩

@[simp] theorem shardCount_run (env : Env) (s : Refreshing) (events : List TimedEvent) :
    (s.run env events).table.shardCount = s.table.shardCount := by
  induction events generalizing s with
  | nil => rfl
  | cons e events ih =>
    rw [run_cons, ih]
    rcases s.step_table env e with hsame | ⟨op, hop⟩
    · rw [hsame]
    · rw [hop, shardCount_apply]

end Refreshing

/-! ## What the events say -/

/-- The node an event corrects a shard's leader to, if it is after `since`. -/
def learned (env : Env) (shard : ShardId) (since : Instant) (t : RouteTable) :
    TimedEvent → Option String
  | (now, .acceptLeaderHint shard' nodeUrl) =>
    if shard' = shard ∧ since < now then t.knownNode env nodeUrl else none
  | _ => none

/-- The node of the last redirect accepted for a shard after `since`. -/
def lastLearned (env : Env) (shard : ShardId) (since : Instant) :
    Refreshing → List TimedEvent → Option String
  | _, [] => none
  | s, e :: events =>
    (lastLearned env shard since (s.step env e) events).or (learned env shard since s.table e)

variable {env : Env} {s : Refreshing} {events : List TimedEvent} {shard : ShardId}
  {since now : Instant}

theorem lastLearned_concat (env : Env) (shard : ShardId) (since : Instant) (s : Refreshing)
    (events : List TimedEvent) (e : TimedEvent) :
    lastLearned env shard since s (events ++ [e]) =
      (learned env shard since (s.run env events).table e).or
        (lastLearned env shard since s events) := by
  induction events generalizing s with
  | nil => simp [lastLearned]
  | cons e' events ih => simp [lastLearned, ih, Option.or_assoc]

theorem learned_eq_none {t : RouteTable} {e : TimedEvent} (h : e.1 ≤ since) :
    learned env shard since t e = none := by
  obtain ⟨now, event⟩ := e
  cases event with
  | acceptLeaderHint shard' nodeUrl => exact if_neg fun hcond => absurd hcond.2 (not_lt.2 h)
  | _ => rfl

/-- Nothing is learned after the last event. -/
theorem lastLearned_eq_none (h : ∀ e ∈ events, e.1 ≤ since) :
    lastLearned env shard since s events = none := by
  induction events generalizing s with
  | nil => rfl
  | cons e events ih =>
    rw [lastLearned, ih fun e' he' => h e' (by simp [he']), learned_eq_none (h e (by simp))]
    rfl

/-! ## What the table knows -/

/-- **A table is current**, after `events`, all before `now`, if it knows of each shard
whether it was corrected since the refresh under way began, and to which node. -/
structure Current (env : Env) (s₀ : Refreshing) (events : List TimedEvent) (now : Instant)
    (s : Refreshing) : Prop where
  before : ∀ e ∈ events, e.1 < now
  fetched_lt : ∀ fetchedAt ∈ s.fetchedAt, fetchedAt < now
  hint_lt : ∀ shard : ShardId, ∀ learnedAt ∈ s.table.leaderHints[shard]?, learnedAt < now
  corrected : ∀ fetchedAt ∈ s.fetchedAt, ∀ (shard : ShardId) (node : String),
    lastLearned env shard fetchedAt s₀ events = some node → s.table.leaderFor shard = some node ∧
      ∃ learnedAt, s.table.leaderHints[shard]? = some learnedAt ∧ fetchedAt < learnedAt
  stale : ∀ fetchedAt ∈ s.fetchedAt, ∀ shard : ShardId,
    lastLearned env shard fetchedAt s₀ events = none →
      ∀ learnedAt ∈ s.table.leaderHints[shard]?, learnedAt < fetchedAt

theorem Current.new (env : Env) (shardCount : ℕ) (seeds : List String) (now : Instant) :
    Current env (.new env shardCount seeds) [] now (.new env shardCount seeds) where
  before := by simp
  fetched_lt := by simp [Refreshing.new]
  hint_lt := by simp [Refreshing.new, RouteTable.new]
  corrected := by simp [Refreshing.new]
  stale := by simp [Refreshing.new]

/-- The hints a snapshot leaves were there before it. -/
theorem leaderHints_applyBrainSnapshotAt {t : RouteTable} {nodes : List BrainNode}
    {shards : List BrainShard} {fetchedAt learnedAt : Instant}
    (h : learnedAt ∈ (t.applyBrainSnapshotAt env nodes shards fetchedAt).2.leaderHints[shard]?) :
    learnedAt ∈ t.leaderHints[shard]? := by
  rw [applyBrainSnapshotAt_eq] at h
  cases hread : readSnapshot env t.shardCount nodes shards with
  | none =>
    rw [hread] at h
    exact h
  | some snapshot =>
    rw [hread] at h
    have hfresh : learnedAt ∈ (t.freshHints fetchedAt)[shard]? := h
    rw [getElem?_freshHints] at hfresh
    exact (Option.filter_eq_some_iff.1 hfresh).1

section

variable {s₀ : Refreshing} {next : Instant}

/-- Everything that is before `now` is before what comes after it. -/
theorem Current.mono (h : Current env s₀ events now s) (hlt : now < next) :
    Current env s₀ events next s where
  before e he := (h.before e he).trans hlt
  fetched_lt fetchedAt hf := (h.fetched_lt fetchedAt hf).trans hlt
  hint_lt shard learnedAt hl := (h.hint_lt shard learnedAt hl).trans hlt
  corrected := h.corrected
  stale := h.stale

theorem Current.before_concat (h : Current env s₀ events now s) (hlt : now < next)
    (event : TableEvent) : ∀ e ∈ events ++ [(now, event)], e.1 < next := by
  intro e he
  rcases List.mem_append.1 he with hold | hnew
  · exact (h.before e hold).trans hlt
  · rw [List.mem_singleton.1 hnew]
    exact hlt

/-- An event that touches no leader and no hint, and teaches nothing, changes nothing. -/
theorem Current.concat_of_same (h : Current env s₀ events now s) (hlt : now < next)
    (hs : s = s₀.run env events) {event : TableEvent}
    (hnone : ∀ shard since, learned env shard since s.table (now, event) = none)
    {t : RouteTable} (hleaders : t.leaders = s.table.leaders)
    (hhints : t.leaderHints = s.table.leaderHints) :
    Current env s₀ (events ++ [(now, event)]) next { s with table := t } := by
  have hlast : ∀ shard since, lastLearned env shard since s₀ (events ++ [(now, event)]) =
      lastLearned env shard since s₀ events := by
    intro shard since
    rw [lastLearned_concat, ← hs, hnone, Option.none_or]
  refine ⟨h.before_concat hlt event, (h.mono hlt).fetched_lt, fun shard => ?_,
    fun fetchedAt hf shard node => ?_, fun fetchedAt hf shard => ?_⟩
  · rw [hhints]
    exact (h.mono hlt).hint_lt shard
  · rw [hlast, hhints, leaderFor, hleaders]
    exact h.corrected fetchedAt hf shard node
  · rw [hlast, hhints]
    exact h.stale fetchedAt hf shard

theorem Current.acceptLeaderHint (h : Current env s₀ events now s) (hlt : now < next)
    (hs : s = s₀.run env events) (shard : ShardId) (nodeUrl : String) :
    Current env s₀ (events ++ [(now, .acceptLeaderHint shard nodeUrl)]) next
      { s with table := (s.table.acceptLeaderHint env shard nodeUrl now).2 } := by
  cases hknown : s.table.knownNode env nodeUrl with
  | none =>
    refine h.concat_of_same hlt hs (fun shard' since => ?_) ?_ ?_
    · simp [learned, hknown]
    all_goals rw [RouteTable.acceptLeaderHint, hknown]
  | some known =>
    have htable : (s.table.acceptLeaderHint env shard nodeUrl now).2 =
        { s.table with
          leaders := s.table.leaders.insert shard known
          leaderHints := s.table.leaderHints.insert shard now } := by
      rw [RouteTable.acceptLeaderHint, hknown]
    rw [htable]
    have hlast : ∀ shard' since, since < now →
        lastLearned env shard' since s₀ (events ++ [(now, .acceptLeaderHint shard nodeUrl)]) =
          if shard' = shard then some known else lastLearned env shard' since s₀ events := by
      intro shard' since hsince
      rw [lastLearned_concat, ← hs, learned, hknown]
      by_cases heq : shard' = shard
      · simp [heq, hsince]
      · simp [heq, Ne.symm heq]
    refine ⟨h.before_concat hlt _, (h.mono hlt).fetched_lt, fun shard' learnedAt hl => ?_,
      fun fetchedAt hf shard' node hnode => ?_, fun fetchedAt hf shard' hnone learnedAt hl => ?_⟩
    · dsimp only at hl
      rw [getElem?_insert_eq] at hl
      split at hl
      · exact Option.some.inj hl ▸ hlt
      · exact (h.mono hlt).hint_lt shard' learnedAt hl
    · rw [hlast shard' fetchedAt (h.fetched_lt fetchedAt hf)] at hnode
      dsimp only [leaderFor]
      rw [getElem?_insert_eq, getElem?_insert_eq]
      by_cases heq : shard' = shard
      · rw [if_pos heq] at hnode ⊢
        rw [if_pos heq]
        exact ⟨hnode, now, rfl, h.fetched_lt fetchedAt hf⟩
      · rw [if_neg heq] at hnode ⊢
        rw [if_neg heq]
        exact h.corrected fetchedAt hf shard' node hnode
    · rw [hlast shard' fetchedAt (h.fetched_lt fetchedAt hf)] at hnone
      dsimp only at hl
      rw [getElem?_insert_eq] at hl
      by_cases heq : shard' = shard
      · rw [if_pos heq] at hnone
        exact absurd hnone (by simp)
      · rw [if_neg heq] at hnone hl
        exact h.stale fetchedAt hf shard' hnone learnedAt hl

/-- **Every event keeps the table current.** -/
theorem Current.step (h : Current env s₀ events now s) (hlt : now < next)
    (hs : s = s₀.run env events) (event : TableEvent) :
    Current env s₀ (events ++ [(now, event)]) next (s.step env (now, event)) := by
  cases event with
  | refreshFromBrain =>
    have hle : ∀ e ∈ events ++ [(now, .refreshFromBrain)], e.1 ≤ now := by
      intro e he
      rcases List.mem_append.1 he with hold | hnew
      · exact (h.before e hold).le
      · rw [List.mem_singleton.1 hnew]
    refine ⟨h.before_concat hlt _, ?_, (h.mono hlt).hint_lt, ?_, ?_⟩
    · rintro fetchedAt hf
      exact Option.some.inj hf ▸ hlt
    · rintro fetchedAt hf shard node hnode
      obtain rfl := Option.some.inj hf
      rw [lastLearned_eq_none hle] at hnode
      exact absurd hnode (by simp)
    · rintro fetchedAt hf shard -
      obtain rfl := Option.some.inj hf
      exact h.hint_lt shard
  | snapshot nodes shards =>
    have hnone : (s.step env (now, .snapshot nodes shards)).fetchedAt = none := by
      rw [Refreshing.step]
      split
      · rfl
      · assumption
    refine ⟨h.before_concat hlt _, by simp [hnone], fun shard learnedAt hl => ?_, by simp [hnone],
      by simp [hnone]⟩
    rw [Refreshing.step] at hl
    split at hl
    · exact (h.mono hlt).hint_lt shard learnedAt (leaderHints_applyBrainSnapshotAt hl)
    · exact (h.mono hlt).hint_lt shard learnedAt hl
  | acceptLeaderHint shard nodeUrl => exact h.acceptLeaderHint hlt hs shard nodeUrl
  | anyNodeExcluding excluded =>
    obtain ⟨cursor, hcursor, -⟩ := anyNodeExcluding_cases s.table excluded
    refine h.concat_of_same hlt hs (fun _ _ => rfl) ?_ ?_
    all_goals rw [hcursor]
  | recordRegionRequest nodeUrl => exact h.concat_of_same hlt hs (fun _ _ => rfl) rfl rfl

end

/-- The table is current after every run of events in the order of time. -/
theorem current_run (env : Env) (shardCount : ℕ) (seeds : List String)
    (htimes : (events.map Prod.fst).Pairwise (· < ·)) (hnow : ∀ e ∈ events, e.1 < now) :
    Current env (.new env shardCount seeds) events now
      ((Refreshing.new env shardCount seeds).run env events) := by
  induction events using List.reverseRecOn generalizing now with
  | nil => exact Current.new env shardCount seeds now
  | append_singleton events e ih =>
    rw [List.map_append, List.pairwise_append] at htimes
    obtain ⟨hordered, -, hlast⟩ := htimes
    have hbefore : ∀ e' ∈ events, e'.1 < e.1 := fun e' he' =>
      hlast e'.1 (List.mem_map_of_mem he') e.1 (by simp)
    rw [Refreshing.run_append]
    exact (ih hordered hbefore).step (hnow e (by simp)) rfl e.2

/-- **A redirect wins over a snapshot it is fresher than, and only over such a one.**  In
every run in which time goes on and refreshes follow one another: after a snapshot
requested at `fetchedAt` is accepted, a shard is led by the node of the last redirect
accepted for it since, if that is a member of the snapshot; and otherwise by the node the
snapshot assigns. -/
theorem leaderFor_snapshot (env : Env) (shardCount : ℕ) (seeds : List String)
    {events : List TimedEvent} {now : Instant} {nodes : List BrainNode}
    {shards : List BrainShard}
    (htimes : ((events ++ [(now, TableEvent.snapshot nodes shards)]).map Prod.fst).Pairwise (· < ·))
    {fetchedAt : Instant}
    (hfetched : ((Refreshing.new env shardCount seeds).run env events).fetchedAt = some fetchedAt)
    {snapshot : Snapshot} (haccepted : readSnapshot env shardCount nodes shards = some snapshot)
    (shard : ShardId) :
    let s₀ := Refreshing.new env shardCount seeds
    let t := (s₀.run env (events ++ [(now, .snapshot nodes shards)])).table
    (∀ node, lastLearned env shard fetchedAt s₀ events = some node → node ∈ t.nodes →
        t.leaderFor shard = some node) ∧
      ((∀ node, lastLearned env shard fetchedAt s₀ events = some node → node ∉ t.nodes) →
        t.leaderFor shard = snapshot.leaders[shard]?) := by
  intro s₀ t
  rw [List.map_append, List.pairwise_append] at htimes
  obtain ⟨hordered, -, hlast⟩ := htimes
  have hcurrent := current_run env shardCount seeds hordered fun e he =>
    show e.1 < now from hlast e.1 (List.mem_map_of_mem he) now (by simp)
  have ht : t = (s₀.run env events).table.merge snapshot fetchedAt := by
    show ((s₀.run env (events ++ [(now, .snapshot nodes shards)])).table) = _
    rw [Refreshing.run_append, Refreshing.run_cons, Refreshing.run_nil, Refreshing.step, hfetched]
    dsimp only
    rw [applyBrainSnapshotAt_eq, Refreshing.shardCount_run,
      show s₀.table.shardCount = shardCount from rfl, haccepted]
    rfl
  rw [ht]
  cases hlearned : lastLearned env shard fetchedAt s₀ events with
  | none =>
    refine ⟨fun node hnode => absurd hnode (by simp), fun _ => ?_⟩
    exact leaderFor_merge_of_stale (hcurrent.stale fetchedAt hfetched shard hlearned)
  | some node =>
    obtain ⟨hleader, learnedAt, hhint, hlt⟩ :=
      hcurrent.corrected fetchedAt hfetched shard node hlearned
    rw [leaderFor_merge_of_hint hhint hlt.le hleader]
    constructor
    · rintro node' hnode' hmem
      obtain rfl := Option.some.inj hnode'
      exact if_pos hmem
    · intro hnot
      exact if_neg (hnot node rfl)

/-- A redirect to `b`, learned while a snapshot that prefers `a` is on its way: `b` leads. -/
theorem leaderFor_snapshot_hinted :
    ((Refreshing.new Reference.env 1 ["http://a:1", "http://b:1"]).run Reference.env
      ([(1, .refreshFromBrain), (2, .acceptLeaderHint 0 "b:1")] ++
        [(3, .snapshot [Sample.node "x" "a:1", Sample.node "y" "b:1"]
          [Sample.placement (some "x") []])])).table.leaderFor 0 = some "http://b:1" := by
  obtain ⟨snapshot, hsnapshot⟩ := Option.isSome_iff_exists.1
    (show (readSnapshot Reference.env 1 [Sample.node "x" "a:1", Sample.node "y" "b:1"]
      [Sample.placement (some "x") []]).isSome = true by decide +kernel)
  exact (leaderFor_snapshot Reference.env 1 ["http://a:1", "http://b:1"] (by decide) rfl hsnapshot
    0).1 "http://b:1" (by decide +kernel) (by decide +kernel)

end RouteTable

end LoadBalance
