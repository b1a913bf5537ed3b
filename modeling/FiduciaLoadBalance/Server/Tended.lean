import FiduciaLoadBalance.Concurrency.Refine
import FiduciaLoadBalance.Proxy.Healing
import FiduciaLoadBalance.Proxy.Simulation
import FiduciaLoadBalance.Server.Brain
import FiduciaLoadBalance.Table.Snapshot

/-!
# The balancer and its refresh loop

Any number of requests over one routing table, while one loop asks the brain for snapshots,
round after round.  The table stores neither the snapshots nor the redirects it was told of;
what it says is explained here from both.

* `tended` — the machine: requests, the loop, and a clock they share;
* `tended_refines` — without the loop it is the balancer, to which snapshots merely arrive;
* `Informed` — what the table has to do with the last round and the last redirects;
* `table_explained` — the nodes, their metadata and the leaders, at any moment of any run.
-/

namespace LoadBalance

open Http Text Conc Machine TreeMap RouteTable

namespace Brain

/-! ## The machine -/

/-- A round whose snapshot the table accepted. -/
structure Round where
  /-- What the loop had heard when it applied it. -/
  heard : List TaskEvent
  fetchedAt : Instant
  snapshot : Snapshot

/-- What requests share, next to the clock and the loop. -/
structure Tended (N : Type) where
  world : Proxy.World N
  clock : Instant
  /-- What the loop has left to do of the round under way. -/
  loop : Task Unit
  /-- What it has heard in it. -/
  heard : List TaskEvent
  /-- The last round whose snapshot the table accepted. -/
  round : Option Round

namespace Tended

variable {N : Type}

abbrev table (s : Tended N) : RouteTable := s.world.table

/-- At startup; the loop is between two rounds. -/
def new (env : Env) (shardCount : ℕ) (seeds : List String) (nodes : N) : Tended N where
  world := .new env shardCount seeds nodes
  clock := 0
  loop := .done ()
  heard := []
  round := none

/-- The loop applies what it was told. -/
def applyRound (env : Env) (s : Tended N) (nodes : List BrainNode) (shards : List BrainShard)
    (fetchedAt : Instant) : Tended N :=
  { s with
    world := s.world.applySnapshot env nodes shards fetchedAt
    round := ((readSnapshot env s.table.shardCount nodes shards).map fun snapshot =>
      ⟨s.heard, fetchedAt, snapshot⟩).or s.round }

end Tended

section

variable (env : Env) (documents : Documents) (brainUrl : String) {N : Type}
  (U : Proxy.Upstreams N)

/-- A call of the loop.  The brain may answer anything. -/
inductive LoopExec : Tended N → (e : Call) → e.Answer → Tended N → Prop
  | instantNow (s : Tended N) : LoopExec s .instantNow s.clock s
  | get (s : Tended N) (url : String) (secret : Option String) (fetched : Auth.Fetched) :
      LoopExec s (.get url secret) fetched s
  | applyBrainSnapshotAt (s : Tended N) (nodes : List BrainNode) (shards : List BrainShard)
      (fetchedAt : Instant) :
      LoopExec s (.applyBrainSnapshotAt nodes shards fetchedAt)
        (s.table.applyBrainSnapshotAt env nodes shards fetchedAt).1
        (s.applyRound env nodes shards fetchedAt)

/-- A call of a request; a redirect is learned at the time the clock shows. -/
inductive TendedExec (i : ℕ) : Tended N → (e : Proxy.Call) → e.Answer → Tended N → Prop
  | acceptLeaderHint (s : Tended N) (shard : ShardId) (nodeUrl : String) :
      TendedExec i s (.acceptLeaderHint shard nodeUrl)
        (s.table.acceptLeaderHint env shard nodeUrl s.clock).1
        { s with world.table := (s.table.acceptLeaderHint env shard nodeUrl s.clock).2 }
  | other {s : Tended N} {e : Proxy.Call} {r : e.Answer} {w : Proxy.World N} :
      (∀ shard nodeUrl, e ≠ .acceptLeaderHint shard nodeUrl) → Proxy.Exec env U i s.world e r w →
      TendedExec i s e r { s with world := w }

/-- What happens besides: time goes on, the nodes do as they please, and the loop starts a
round or goes on with one. -/
inductive TendedTurn : Tended N → Tended N → Prop
  | tick {s : Tended N} {now : Instant} : s.clock ≤ now → TendedTurn s { s with clock := now }
  | nodes {s : Tended N} {n : N} : U.background s.world.nodes n →
      TendedTurn s { s with world.nodes := n }
  | round {s : Tended N} : s.loop = .done () →
      TendedTurn s { s with loop := refreshFromBrain env documents brainUrl, heard := [] }
  | loop {s s' : Tended N} {e : Call} {k : e.Answer → Task Unit} {r : e.Answer} :
      s.loop = .call e k → LoopExec env s e r s' →
      TendedTurn s { s' with loop := k r, heard := s.heard ++ [⟨e, r⟩] }

/-- The balancer with its loop. -/
def tended (shardCount : ℕ) (admits : Proxy.Request → Prop) :
    Machine Proxy.Call Proxy.Call.Answer Response (Tended N) where
  start _ p := ∃ request, admits request ∧ p = Proxy.route env shardCount request
  exec := TendedExec env U
  env := TendedTurn env documents brainUrl U
  drop i p s s' := ∃ w, Proxy.Cancels U i p s.world w ∧ s' = { s with world := w }

end

abbrev TendedMoment (N : Type) : Type :=
  Moment Proxy.Call Proxy.Call.Answer Response (Tended N)

variable {env : Env} {documents : Documents} {brainUrl : String} {N : Type}
  {U : Proxy.Upstreams N} {shardCount : ℕ} {admits : Proxy.Request → Prop}

/-! ## Without the loop -/

/-- A snapshot that lists nothing is rejected. -/
theorem applySnapshot_nil (w : Proxy.World N) : w.applySnapshot env [] [] 0 = w := rfl

/-- **Without the loop, it is the balancer**: what is known of the balancer's runs, whatever
snapshots arrive, is known of these. -/
theorem tended_refines : (tended env documents brainUrl U shardCount admits).Refines
    (Proxy.balancer env shardCount U admits) Tended.world where
  start := id
  exec := by
    rintro i s e r s' hexec
    cases hexec with
    | acceptLeaderHint shard nodeUrl =>
      exact Proxy.Exec.table (w := s.world) (.acceptLeaderHint s.table shard nodeUrl s.clock)
    | other hne hexec => exact hexec
  env := by
    rintro s s' hturn
    have hstill : Proxy.Arrives env U s.world s.world := by
      have hnone : Proxy.Arrives env U s.world (s.world.applySnapshot env [] [] 0) :=
        .snapshot s.world [] [] 0
      rwa [applySnapshot_nil] at hnone
    cases hturn with
    | tick hnow => exact hstill
    | nodes hbackground => exact .nodes hbackground
    | round hdone => exact hstill
    | loop hloop hexec =>
      cases hexec with
      | instantNow => exact hstill
      | get url secret fetched => exact hstill
      | applyBrainSnapshotAt nodes shards fetchedAt => exact .snapshot _ nodes shards fetchedAt
  drop := by
    rintro i p s s' ⟨w, hcancels, rfl⟩
    exact hcancels

/-! ## What a run has learned -/

/-- The redirect the table accepts for a shard at this moment: when, and to which node. -/
def redirected (shard : ShardId) (m : TendedMoment N) : Option (Instant × String) :=
  match m.label with
  | .answer _ ⟨.acceptLeaderHint shard' _, some node⟩ =>
    if shard' = shard then some (m.before.clock, node) else none
  | _ => none

/-- The last redirect the table accepted for a shard. -/
def lastRedirect (shard : ShardId) (h : List (TendedMoment N)) : Option (Instant × String) :=
  h.reverse.findSome? (redirected shard)

@[simp] theorem lastRedirect_nil (shard : ShardId) :
    lastRedirect shard ([] : List (TendedMoment N)) = none := rfl

@[simp] theorem lastRedirect_concat (shard : ShardId) (h : List (TendedMoment N))
    (m : TendedMoment N) :
    lastRedirect shard (h ++ [m]) = (redirected shard m).or (lastRedirect shard h) := by
  rw [lastRedirect, List.reverse_concat, List.findSome?_cons, lastRedirect]
  cases redirected shard m <;> rfl

namespace Tended

section

variable (env : Env) (shardCount : ℕ) (seeds : List String) (s : Tended N)

/-- The nodes that the last accepted round lists; before there is one, the seeds. -/
def members : List String :=
  s.round.elim (RouteTable.new env shardCount seeds).nodes fun round => round.snapshot.members

def metadata : Std.ExtTreeMap String NodeMetadata :=
  s.round.elim ∅ fun round => round.snapshot.metadata

/-- Who leads a shard according to the last accepted round, or to the seeds. -/
def placed (shard : ShardId) : Option String :=
  (s.round.elim (RouteTable.new env shardCount seeds).leaders
    fun round => round.snapshot.leaders)[shard]?

end

/-- A redirect learned at `since` is newer than the last accepted round. -/
def Fresh (s : Tended N) (since : Instant) : Prop := ∀ round ∈ s.round, round.fetchedAt < since

instance (s : Tended N) : DecidablePred s.Fresh := fun _ => by
  unfold Fresh
  infer_instance

/-- Who leads a shard according to the last redirect for it, if that is newer than the last
accepted round and still to a member. -/
def corrected (s : Tended N) (redirect : Option (Instant × String)) : Option String :=
  redirect.bind fun learned =>
    if s.Fresh learned.1 ∧ learned.2 ∈ s.table.nodes then some learned.2 else none

@[simp] theorem corrected_none (s : Tended N) : s.corrected none = none := rfl

theorem corrected_some {s : Tended N} {since : Instant} {node : String} (hfresh : s.Fresh since) :
    s.corrected (some (since, node)) = if node ∈ s.table.nodes then some node else none := by
  rw [corrected, Option.bind_some]
  exact if_congr (by simp [hfresh]) rfl rfl

theorem corrected_of_stale {s : Tended N} {since : Instant} {node : String}
    (hstale : ¬s.Fresh since) : s.corrected (some (since, node)) = none := by
  rw [corrected, Option.bind_some, if_neg fun h => hstale h.1]

theorem corrected_congr {s s' : Tended N} (hround : s'.round = s.round)
    (hnodes : s'.table.nodes = s.table.nodes) (redirect : Option (Instant × String)) :
    s'.corrected redirect = s.corrected redirect := by
  unfold corrected
  congr 1
  funext learned
  exact if_congr (by rw [Fresh, Fresh, hround, hnodes]) rfl rfl

end Tended

/-! ## The table is explained -/

section

variable (env documents brainUrl shardCount)

/-- **What the table says comes from** the last accepted round and the last redirects. -/
structure Informed (seeds : List String) (h : List (TendedMoment N)) (s : Tended N) : Prop where
  shardCount_eq : s.table.shardCount = shardCount
  sourced : ∀ round ∈ s.round, ∃ nodes shards,
    Conducted env documents brainUrl round.heard round.fetchedAt nodes shards ∧
      readSnapshot env shardCount nodes shards = some round.snapshot
  round_le : ∀ round ∈ s.round, round.fetchedAt ≤ s.clock
  redirect_le : ∀ shard, ∀ learned ∈ lastRedirect shard h, learned.1 ≤ s.clock
  hint : ∀ shard, ∀ learned ∈ lastRedirect shard h,
    (∀ round ∈ s.round, round.fetchedAt ≤ learned.1) →
      s.table.leaderHints[shard]? = some learned.1
  learned : ∀ shard, ∀ since ∈ s.table.leaderHints[shard]?,
    ∃ learned ∈ lastRedirect shard h, learned.1 = since
  seeded : s.round = none → ∀ shard, ∀ learned ∈ lastRedirect shard h, learned.2 ∈ s.table.nodes
  nodes : s.table.nodes = s.members env shardCount seeds
  metadata : s.table.nodeMetadata = s.metadata
  leader : ∀ shard, (∀ learned ∈ lastRedirect shard h, ∀ round ∈ s.round,
    round.fetchedAt ≠ learned.1) → s.table.leaderFor shard =
      (s.corrected (lastRedirect shard h)).or (s.placed env shardCount seeds shard)

/-- Where the loop is: what it may ask next, when it noted the time, and that the nodes have
not changed since. -/
structure UnderWay (h : List (TendedMoment N)) (s : Tended N) : Prop where
  asking : s.loop.wp (asking env documents brainUrl) (fun _ _ => True) s.heard
  heard_le : ∀ since ∈ fetchedAt s.heard, since ≤ s.clock ∧
    ∀ round ∈ s.round, round.fetchedAt ≤ since
  member : s.loop ≠ .done () → ∀ since ∈ fetchedAt s.heard, ∀ shard,
    ∀ learned ∈ lastRedirect shard h, since < learned.1 → learned.2 ∈ s.table.nodes

end

variable {seeds : List String} {h h' : List (TendedMoment N)} {s s' : Tended N}

theorem informed_new (n : N) :
    Informed env documents brainUrl shardCount seeds [] (.new env shardCount seeds n) := by
  constructor
  · rfl
  · intro round hround
    exact absurd hround (by simp [Tended.new])
  · intro round hround
    exact absurd hround (by simp [Tended.new])
  · simp
  · simp
  · intro shard since hsince
    exact absurd hsince (by simp [Tended.new, Proxy.World.new, RouteTable.new])
  · simp
  · rfl
  · rfl
  · intro shard _
    rfl

theorem underWay_new (n : N) :
    UnderWay env documents brainUrl [] (Tended.new env shardCount seeds n) :=
  ⟨trivial, by simp [Tended.new, fetchedAt], fun hlive => absurd rfl hlive⟩

/-- The routes are the same: two tables differ at most in the cursor and the counts. -/
structure SameRoutes (t t' : RouteTable) : Prop where
  shardCount : t'.shardCount = t.shardCount
  nodes : t'.nodes = t.nodes
  nodeMetadata : t'.nodeMetadata = t.nodeMetadata
  leaders : t'.leaders = t.leaders
  leaderHints : t'.leaderHints = t.leaderHints

theorem SameRoutes.refl (t : RouteTable) : SameRoutes t t := ⟨rfl, rfl, rfl, rfl, rfl⟩

/-- A call on the table that is no hint leaves the routes as they are. -/
theorem sameRoutes_of_tableStep {t t' : RouteTable} {e : Proxy.Call} {r : e.Answer}
    (hne : ∀ shard nodeUrl, e ≠ .acceptLeaderHint shard nodeUrl)
    (h : Proxy.TableStep env t e r t') : SameRoutes t t' := by
  cases h with
  | leaderFor shard => exact .refl t
  | anyNodeExcluding excluded =>
    obtain ⟨cursor, hcursor, -⟩ := anyNodeExcluding_cases t excluded
    rw [hcursor]
    exact ⟨rfl, rfl, rfl, rfl, rfl⟩
  | acceptLeaderHint shard nodeUrl now => exact absurd rfl (hne shard nodeUrl)
  | validateNodeHint nodeUrl => exact .refl t
  | recordRegionRequest nodeUrl => exact ⟨rfl, rfl, rfl, rfl, rfl⟩

/-- What changes no route, while nothing is learned, leaves the table explained. -/
theorem Informed.congr (hs : Informed env documents brainUrl shardCount seeds h s)
    (hroutes : SameRoutes s.table s'.table) (hround : s'.round = s.round)
    (hclock : s.clock ≤ s'.clock) (hlast : ∀ shard, lastRedirect shard h' = lastRedirect shard h) :
    Informed env documents brainUrl shardCount seeds h' s' := by
  constructor
  · rw [hroutes.shardCount, hs.shardCount_eq]
  · rw [hround]
    exact hs.sourced
  · rw [hround]
    exact fun round hmem => (hs.round_le round hmem).trans hclock
  · intro shard
    rw [hlast]
    exact fun learned hmem => (hs.redirect_le shard learned hmem).trans hclock
  · intro shard
    rw [hlast, hround, hroutes.leaderHints]
    exact hs.hint shard
  · intro shard
    rw [hlast, hroutes.leaderHints]
    exact hs.learned shard
  · rw [hround]
    intro hnone shard
    rw [hlast, hroutes.nodes]
    exact hs.seeded hnone shard
  · rw [hroutes.nodes, hs.nodes, Tended.members, Tended.members, hround]
  · rw [hroutes.nodeMetadata, hs.metadata, Tended.metadata, Tended.metadata, hround]
  · intro shard
    rw [hlast, hround, Tended.corrected_congr hround hroutes.nodes, Tended.placed, hround, leaderFor,
      hroutes.leaders]
    exact hs.leader shard

/-- **A redirect that the table accepts** corrects its shard. -/
theorem Informed.acceptLeaderHint (hs : Informed env documents brainUrl shardCount seeds h s)
    {shard : ShardId} {known : String} (hmember : known ∈ s.table.nodes)
    (htable : s'.table = { s.table with
      leaders := s.table.leaders.insert shard known
      leaderHints := s.table.leaderHints.insert shard s.clock })
    (hround : s'.round = s.round) (hclock : s'.clock = s.clock)
    (hlast : ∀ shard', lastRedirect shard' h' =
      if shard' = shard then some (s.clock, known) else lastRedirect shard' h) :
    Informed env documents brainUrl shardCount seeds h' s' := by
  have hnodes : s'.table.nodes = s.table.nodes := by
    rw [htable]
  have hhints (shard' : ShardId) : s'.table.leaderHints[shard']? =
      if shard' = shard then some s.clock else s.table.leaderHints[shard']? := by
    rw [htable]
    exact getElem?_insert_eq ..
  have hleaders (shard' : ShardId) : s'.table.leaderFor shard' =
      if shard' = shard then some known else s.table.leaderFor shard' := by
    rw [htable]
    exact getElem?_insert_eq ..
  constructor
  · rw [htable]
    exact hs.shardCount_eq
  · rw [hround]
    exact hs.sourced
  · rw [hround, hclock]
    exact hs.round_le
  · intro shard' learned hlearned
    rw [hlast] at hlearned
    rw [hclock]
    split at hlearned
    · obtain rfl := Option.some.inj hlearned
      exact le_rfl
    · exact hs.redirect_le shard' learned hlearned
  · intro shard' learned hlearned hfresh
    rw [hlast] at hlearned
    rw [hround] at hfresh
    rw [hhints]
    split at hlearned
    · obtain rfl := Option.some.inj hlearned
      rw [if_pos ‹_›]
    · rw [if_neg ‹_›]
      exact hs.hint shard' learned hlearned hfresh
  · intro shard' since hsince
    rw [hhints] at hsince
    rw [hlast]
    split at hsince
    · obtain rfl := Option.some.inj hsince
      rw [if_pos ‹_›]
      exact ⟨_, rfl, rfl⟩
    · rw [if_neg ‹_›]
      exact hs.learned shard' since hsince
  · intro hnone shard' learned hlearned
    rw [hlast] at hlearned
    rw [hround] at hnone
    rw [hnodes]
    split at hlearned
    · obtain rfl := Option.some.inj hlearned
      exact hmember
    · exact hs.seeded hnone shard' learned hlearned
  · rw [hnodes, hs.nodes, Tended.members, Tended.members, hround]
  · rw [htable, Tended.metadata, hround]
    exact hs.metadata
  · intro shard' hdistinct
    rw [hlast, hround] at hdistinct
    rw [hlast, hleaders, Tended.corrected_congr hround hnodes, Tended.placed, hround]
    by_cases heq : shard' = shard
    · rw [if_pos heq] at hdistinct
      have hfresh : s.Fresh s.clock := fun round hmem =>
        lt_of_le_of_ne (hs.round_le round hmem) (hdistinct _ rfl round hmem)
      rw [if_pos heq, if_pos heq, Tended.corrected_some hfresh, if_pos hmember, Option.some_or]
    · rw [if_neg heq] at hdistinct
      rw [if_neg heq, if_neg heq]
      exact hs.leader shard' hdistinct

/-- **A round that the table accepts** places every shard anew, but for those that were
corrected while it was under way. -/
theorem Informed.applyRound (hs : Informed env documents brainUrl shardCount seeds h s)
    {nodes : List BrainNode} {shards : List BrainShard} {since : Instant} {snapshot : Snapshot}
    (hconducted : Conducted env documents brainUrl s.heard since nodes shards)
    (hread : readSnapshot env shardCount nodes shards = some snapshot)
    (hclock : since ≤ s.clock) (hlater : ∀ round ∈ s.round, round.fetchedAt ≤ since)
    (hmember : ∀ shard, ∀ learned ∈ lastRedirect shard h, since < learned.1 →
      learned.2 ∈ s.table.nodes)
    (htable : s'.table = s.table.merge snapshot since)
    (hround : s'.round = some ⟨s.heard, since, snapshot⟩) (hsame : s'.clock = s.clock)
    (hlast : ∀ shard, lastRedirect shard h' = lastRedirect shard h) :
    Informed env documents brainUrl shardCount seeds h' s' := by
  have hfresh {t : Instant} : s'.Fresh t ↔ since < t := by
    simp [Tended.Fresh, hround]
  have hnodes : s'.table.nodes = snapshot.members := by
    rw [htable]
    rfl
  constructor
  · rw [htable]
    exact hs.shardCount_eq
  · rw [hround]
    rintro round hmem
    obtain rfl := Option.some.inj hmem
    exact ⟨nodes, shards, hconducted, hread⟩
  · rw [hround, hsame]
    rintro round hmem
    obtain rfl := Option.some.inj hmem
    exact hclock
  · intro shard
    rw [hlast, hsame]
    exact hs.redirect_le shard
  · intro shard learned hlearned hnewer
    rw [hlast] at hlearned
    have hle : since ≤ learned.1 := hnewer _ hround
    have hhint := hs.hint shard learned hlearned fun round hmem => (hlater round hmem).trans hle
    rw [htable]
    show (s.table.freshHints since)[shard]? = some learned.1
    rw [getElem?_freshHints, hhint, Option.filter_some, if_pos (by simpa using hle)]
  · intro shard t ht
    rw [htable] at ht
    rw [hlast]
    have hold : t ∈ (s.table.freshHints since)[shard]? := ht
    rw [getElem?_freshHints] at hold
    exact hs.learned shard t (Option.filter_eq_some_iff.1 hold).1
  · intro hnone
    exact absurd (hround.symm.trans hnone) (by simp)
  · rw [hnodes, Tended.members, hround]
    rfl
  · rw [htable, Tended.metadata, hround]
    rfl
  · intro shard hdistinct
    rw [hlast] at hdistinct ⊢
    have hplaced : s'.placed env shardCount seeds shard = snapshot.leaders[shard]? := by
      rw [Tended.placed, hround]
      rfl
    rw [hplaced, htable]
    cases hredirect : lastRedirect shard h with
    | none =>
      refine (leaderFor_merge_of_stale fun t ht => ?_).trans (by simp)
      obtain ⟨learned, hlearned, -⟩ := hs.learned shard t ht
      exact absurd (hredirect.symm.trans hlearned) (by simp)
    | some learned =>
      obtain ⟨t, node⟩ := learned
      have hne : since ≠ t := hdistinct _ hredirect _ hround
      by_cases hlt : since < t
      · have hle : ∀ round ∈ s.round, round.fetchedAt < t := fun round hmem =>
          lt_of_le_of_lt (hlater round hmem) hlt
        have hhint := hs.hint shard _ hredirect fun round hmem => (hle round hmem).le
        have hleads : s.table.leaderFor shard = some node := by
          rw [hs.leader shard, hredirect, Tended.corrected_some hle,
            if_pos (hmember shard _ hredirect hlt)]
          · rfl
          · rintro learned hlearned round hmem
            obtain rfl := Option.some.inj (hredirect.symm.trans hlearned)
            exact (hle round hmem).ne
        rw [leaderFor_merge_of_hint hhint hlt.le hleads, Tended.corrected_some (hfresh.2 hlt), hnodes]
        split <;> rfl
      · rw [Tended.corrected_of_stale (fun h => hlt (hfresh.1 h)), Option.none_or]
        refine leaderFor_merge_of_stale fun t' ht' => ?_
        obtain ⟨learned, hlearned, rfl⟩ := hs.learned shard t' ht'
        obtain rfl := Option.some.inj (hredirect.symm.trans hlearned)
        exact lt_of_le_of_ne (not_lt.1 hlt) hne.symm

/-! ## Steps -/

theorem lastRedirect_concat_of_none {m : TendedMoment N} (hnone : ∀ shard, redirected shard m = none)
    (shard : ShardId) : lastRedirect shard (h ++ [m]) = lastRedirect shard h := by
  rw [lastRedirect_concat, hnone, Option.none_or]

theorem lastRedirect_concat_of_accepted {m : TendedMoment N} {shard : ShardId}
    {learned : Instant × String}
    (haccepted : ∀ shard', redirected shard' m = if shard = shard' then some learned else none)
    (shard' : ShardId) : lastRedirect shard' (h ++ [m]) =
      if shard' = shard then some learned else lastRedirect shard' h := by
  rw [lastRedirect_concat, haccepted]
  by_cases heq : shard = shard'
  · rw [if_pos heq, if_pos heq.symm, Option.some_or]
  · rw [if_neg heq, if_neg (Ne.symm heq), Option.none_or]

/-- A call that is no hint teaches nothing. -/
theorem redirected_of_other {i : ℕ} {e : Proxy.Call} {r : e.Answer} {w w' : Tended N}
    (hne : ∀ shard nodeUrl, e ≠ .acceptLeaderHint shard nodeUrl) (shard : ShardId) :
    redirected shard ⟨.answer i ⟨e, r⟩, w, w'⟩ = none := by
  cases e with
  | acceptLeaderHint shard' nodeUrl => exact absurd rfl (hne shard' nodeUrl)
  | _ => rfl

theorem sameRoutes_of_exec {i : ℕ} {e : Proxy.Call} {r : e.Answer} {w w' : Proxy.World N}
    (hne : ∀ shard nodeUrl, e ≠ .acceptLeaderHint shard nodeUrl)
    (hexec : Proxy.Exec env U i w e r w') : SameRoutes w.table w'.table := by
  cases hexec with
  | table hstep => exact sameRoutes_of_tableStep hne hstep
  | attempt hanswer => exact .refl w.table

theorem sameRoutes_of_cancels {i : ℕ} {p : Proxy.Task Response} {w w' : Proxy.World N}
    (hcancels : Proxy.Cancels U i p w w') : SameRoutes w.table w'.table := by
  cases hcancels with
  | still => exact .refl w.table
  | attempt hcancelled => exact .refl w.table

/-- What does not touch the loop or the nodes, while nothing is learned. -/
theorem UnderWay.congr (hu : UnderWay env documents brainUrl h s) (hloop : s'.loop = s.loop)
    (hheard : s'.heard = s.heard) (hround : s'.round = s.round) (hclock : s.clock ≤ s'.clock)
    (hnodes : s'.table.nodes = s.table.nodes)
    (hlast : ∀ shard, lastRedirect shard h' = lastRedirect shard h) :
    UnderWay env documents brainUrl h' s' := by
  constructor
  · rw [hloop, hheard]
    exact hu.asking
  · rw [hheard, hround]
    exact fun since hsince => ⟨(hu.heard_le since hsince).1.trans hclock, (hu.heard_le since hsince).2⟩
  · rw [hloop, hheard, hnodes]
    intro hlive since hsince shard
    rw [hlast]
    exact hu.member hlive since hsince shard

/-- A redirect is to a node that is a member now. -/
theorem UnderWay.acceptLeaderHint (hu : UnderWay env documents brainUrl h s) (shard : ShardId)
    {known : String} (hmember : known ∈ s.table.nodes) (hloop : s'.loop = s.loop)
    (hheard : s'.heard = s.heard) (hround : s'.round = s.round) (hclock : s'.clock = s.clock)
    (hnodes : s'.table.nodes = s.table.nodes)
    (hlast : ∀ shard', lastRedirect shard' h' =
      if shard' = shard then some (s.clock, known) else lastRedirect shard' h) :
    UnderWay env documents brainUrl h' s' := by
  constructor
  · rw [hloop, hheard]
    exact hu.asking
  · rw [hheard, hround, hclock]
    exact hu.heard_le
  · rw [hloop, hheard, hnodes]
    intro hlive since hsince shard' learned hlearned hlt
    rw [hlast] at hlearned
    split at hlearned
    · obtain rfl := Option.some.inj hlearned
      exact hmember
    · exact hu.member hlive since hsince shard' learned hlearned hlt

/-- A call of the loop that leaves the table alone. -/
theorem UnderWay.hear (hu : UnderWay env documents brainUrl h s)
    (hs : Informed env documents brainUrl shardCount seeds h s) {e : Call}
    {k : e.Answer → Task Unit} {r : e.Answer} (hloop : s.loop = .call e k)
    (hr : ∀ nodes shards since, e ≠ .applyBrainSnapshotAt nodes shards since)
    (hexec : LoopExec env s e r s')
    (hlast : ∀ shard, lastRedirect shard h' = lastRedirect shard h) :
    UnderWay env documents brainUrl h' { s' with loop := k r, heard := s.heard ++ [⟨e, r⟩] } := by
  have hasking := hu.asking
  rw [hloop] at hasking
  have hlive : s.loop ≠ .done () := by
    simp [hloop]
  cases hexec with
  | instantNow =>
    have hnil := Asks.eq_nil hasking.1
    refine ⟨hasking.2 _ trivial, fun since hsince => ?_, fun _ since hsince shard learned hlearned => ?_⟩
    · have heq : s.clock = since := by
        rw [hnil] at hsince
        exact Option.some.inj hsince
      rw [← heq]
      exact ⟨le_rfl, hs.round_le⟩
    · rw [hlast] at hlearned
      have heq : s.clock = since := by
        rw [hnil] at hsince
        exact Option.some.inj hsince
      rw [← heq]
      exact fun hlt => absurd (hs.redirect_le shard learned hlearned) (not_le.2 hlt)
  | get url secret fetched =>
    have hfetched : fetchedAt (s.heard ++ [⟨.get url secret, fetched⟩]) = fetchedAt s.heard :=
      fetchedAt_concat (Asks.ne_nil hasking.1 (by simp)) _
    refine ⟨hasking.2 _ trivial, fun since hsince => ?_, fun _ since hsince shard => ?_⟩
    · rw [hfetched] at hsince
      exact hu.heard_le since hsince
    · rw [hfetched] at hsince
      rw [hlast]
      exact hu.member hlive since hsince shard
  | applyBrainSnapshotAt nodes shards since => exact absurd rfl (hr nodes shards since)

/-- A call of the loop keeps the table explained. -/
theorem Informed.loop (hs : Informed env documents brainUrl shardCount seeds h s)
    (hu : UnderWay env documents brainUrl h s) {e : Call} {k : e.Answer → Task Unit} {r : e.Answer}
    (hloop : s.loop = .call e k) (hexec : LoopExec env s e r s')
    (hlast : ∀ shard, lastRedirect shard h' = lastRedirect shard h) :
    Informed env documents brainUrl shardCount seeds h'
        { s' with loop := k r, heard := s.heard ++ [⟨e, r⟩] } ∧
      UnderWay env documents brainUrl h' { s' with loop := k r, heard := s.heard ++ [⟨e, r⟩] } := by
  cases e with
  | applyBrainSnapshotAt nodes shards since =>
    have hasking := hu.asking
    rw [hloop] at hasking
    have hconducted := Asks.conducted hasking.1
    obtain ⟨hle, hlater⟩ := hu.heard_le since hconducted.fetchedAt_eq
    cases hexec with
    | applyBrainSnapshotAt =>
      have hover : k (s.table.applyBrainSnapshotAt env nodes shards since).1 = .done () :=
        eq_done_of_applied hconducted (hasking.2 _ trivial)
      have htable : (s.applyRound env nodes shards since).table =
          (readSnapshot env shardCount nodes shards).elim s.table (s.table.merge · since) := by
        show (s.table.applyBrainSnapshotAt env nodes shards since).2 = _
        rw [applyBrainSnapshotAt_eq, hs.shardCount_eq]
        cases readSnapshot env shardCount nodes shards <;> rfl
      have hround : (s.applyRound env nodes shards since).round =
          ((readSnapshot env shardCount nodes shards).map fun snapshot =>
            ⟨s.heard, since, snapshot⟩).or s.round := by
        rw [Tended.applyRound, hs.shardCount_eq]
      have hheard : fetchedAt (s.heard ++ [⟨.applyBrainSnapshotAt nodes shards since,
          (s.table.applyBrainSnapshotAt env nodes shards since).1⟩]) = some since := by
        rw [fetchedAt_concat (Asks.ne_nil hasking.1 (by simp)), hconducted.fetchedAt_eq]
      constructor
      · cases hread : readSnapshot env shardCount nodes shards with
        | none =>
          rw [hread] at htable hround
          exact hs.congr (htable ▸ .refl s.table) hround le_rfl hlast
        | some snapshot =>
          rw [hread] at htable hround
          refine hs.applyRound hconducted hread hle hlater (fun shard => ?_) htable hround rfl hlast
          exact hu.member (by simp [hloop]) since hconducted.fetchedAt_eq shard
      · refine ⟨hasking.2 _ trivial, fun since' hsince => ?_, fun hlive => absurd hover hlive⟩
        obtain rfl := Option.some.inj (hheard.symm.trans hsince)
        refine ⟨hle, fun round hmem => ?_⟩
        have hmem' : round ∈ (s.applyRound env nodes shards since).round := hmem
        rw [hround] at hmem'
        rcases Option.or_eq_some_iff.1 hmem' with hnew | ⟨-, hold⟩
        · obtain ⟨snapshot, -, rfl⟩ := Option.map_eq_some_iff.1 hnew
          exact le_rfl
        · exact hlater round hold
  | instantNow =>
    have hstill : s' = s := by
      cases hexec
      rfl
    refine ⟨?_, hu.hear hs hloop (by simp) hexec hlast⟩
    rw [hstill]
    exact hs.congr (.refl s.table) rfl le_rfl hlast
  | get url secret =>
    have hstill : s' = s := by
      cases hexec
      rfl
    refine ⟨?_, hu.hear hs hloop (by simp) hexec hlast⟩
    rw [hstill]
    exact hs.congr (.refl s.table) rfl le_rfl hlast

/-- What happens besides the requests keeps the table explained. -/
theorem Informed.turn (hs : Informed env documents brainUrl shardCount seeds h s)
    (hu : UnderWay env documents brainUrl h s) (hturn : TendedTurn env documents brainUrl U s s')
    (hlast : ∀ shard, lastRedirect shard h' = lastRedirect shard h) :
    Informed env documents brainUrl shardCount seeds h' s' ∧
      UnderWay env documents brainUrl h' s' := by
  cases hturn with
  | tick hnow =>
    exact ⟨hs.congr (.refl s.table) rfl hnow hlast, hu.congr rfl rfl rfl hnow rfl hlast⟩
  | nodes hbackground =>
    exact ⟨hs.congr (.refl s.table) rfl le_rfl hlast, hu.congr rfl rfl rfl le_rfl rfl hlast⟩
  | round hdone =>
    refine ⟨hs.congr (.refl s.table) rfl le_rfl hlast, ?_⟩
    exact ⟨wp_refreshFromBrain env documents brainUrl, by simp [fetchedAt], by simp [fetchedAt]⟩
  | loop hloop hexec => exact hs.loop hu hloop hexec hlast

/-- **Every step keeps the table explained.** -/
theorem Informed.step {c c' : Config Proxy.Call Proxy.Call.Answer Response (Tended N)}
    {m : TendedMoment N} (hs : Informed env documents brainUrl shardCount seeds h c.shared)
    (hu : UnderWay env documents brainUrl h c.shared)
    (hstep : (tended env documents brainUrl U shardCount admits).Step c m c') :
    Informed env documents brainUrl shardCount seeds (h ++ [m]) c'.shared ∧
      UnderWay env documents brainUrl (h ++ [m]) c'.shared := by
  cases hstep with
  | start hstart =>
    exact ⟨hs.congr (.refl _) rfl le_rfl (lastRedirect_concat_of_none fun _ => rfl),
      hu.congr rfl rfl rfl le_rfl rfl (lastRedirect_concat_of_none fun _ => rfl)⟩
  | env hturn => exact hs.turn hu hturn (lastRedirect_concat_of_none fun _ => rfl)
  | drop hlive hdrop =>
    obtain ⟨w, hcancels, rfl⟩ := hdrop
    have hroutes := sameRoutes_of_cancels hcancels
    exact ⟨hs.congr hroutes rfl le_rfl (lastRedirect_concat_of_none fun _ => rfl),
      hu.congr rfl rfl rfl le_rfl hroutes.nodes (lastRedirect_concat_of_none fun _ => rfl)⟩
  | answer hlive hexec =>
    cases hexec with
    | other hne hexec =>
      have hroutes := sameRoutes_of_exec hne hexec
      exact ⟨hs.congr hroutes rfl le_rfl (lastRedirect_concat_of_none (redirected_of_other hne)),
        hu.congr rfl rfl rfl le_rfl hroutes.nodes
          (lastRedirect_concat_of_none (redirected_of_other hne))⟩
    | acceptLeaderHint shard nodeUrl =>
      rcases acceptLeaderHint_cases env c.shared.table shard nodeUrl c.shared.clock with
        hnone | ⟨known, hmember, hsome⟩
      · rw [hnone]
        exact ⟨hs.congr (.refl _) rfl le_rfl (lastRedirect_concat_of_none fun _ => rfl),
          hu.congr rfl rfl rfl le_rfl rfl (lastRedirect_concat_of_none fun _ => rfl)⟩
      · rw [hsome]
        exact ⟨hs.acceptLeaderHint hmember rfl rfl rfl
            (lastRedirect_concat_of_accepted fun _ => rfl),
          hu.acceptLeaderHint shard hmember rfl rfl rfl rfl rfl
            (lastRedirect_concat_of_accepted fun _ => rfl)⟩

theorem informed_of_run {n : N}
    {c : Config Proxy.Call Proxy.Call.Answer Response (Tended N)}
    (hrun : (tended env documents brainUrl U shardCount admits).Run (.new env shardCount seeds n) h c) :
    Informed env documents brainUrl shardCount seeds h c.shared ∧
      UnderWay env documents brainUrl h c.shared := by
  induction hrun with
  | init => exact ⟨informed_new n, underWay_new n⟩
  | step hrun hstep ih => exact ih.1.step ih.2 hstep

/-- **What the table says, at any moment of any run.**  Requests and their redirects may go on
at any point of any round, and any exchange with the brain may fail.

A round counts only whole: its two documents were fetched one after the other after
`fetchedAt`, both read, and together they make a snapshot.  Nodes and metadata are those of
the last such round.  A shard is led by the node of the last redirect for it, if that was
learned after the round was begun and is to a member; else by the node the round assigns.
Only where both have the same reading of the clock is either possible.  And seen without the
loop the run is one of the balancer, so what is known of those is known of it. -/
theorem table_explained {n : N} {c : Config Proxy.Call Proxy.Call.Answer Response (Tended N)}
    (hrun : (tended env documents brainUrl U shardCount admits).Run
      (.new env shardCount seeds n) h c) :
    (Proxy.balancer env shardCount U admits).Run (.new env shardCount seeds n)
      (h.map (.map Tended.world)) (c.map Tended.world) ∧
    (∀ round ∈ c.shared.round, ∃ nodes shards,
      Conducted env documents brainUrl round.heard round.fetchedAt nodes shards ∧
        readSnapshot env shardCount nodes shards = some round.snapshot) ∧
    c.shared.table.nodes = c.shared.members env shardCount seeds ∧
    c.shared.table.nodeMetadata = c.shared.metadata ∧
    ∀ shard, (∀ learned ∈ lastRedirect shard h, ∀ round ∈ c.shared.round,
        round.fetchedAt ≠ learned.1) →
      c.shared.table.leaderFor shard = (c.shared.corrected (lastRedirect shard h)).or
        (c.shared.placed env shardCount seeds shard) := by
  have hs := (informed_of_run hrun).1
  exact ⟨hrun.map tended_refines, hs.sourced, hs.nodes, hs.metadata, hs.leader⟩

/-! ## A redirect while a round is under way -/

/-- How the world moves besides the requests. -/
inductive Turn : Type
  | tick (now : Instant)
  | round
  /-- The loop goes on; the brain answers this if it is asked. -/
  | hear (fetched : Auth.Fetched)

/-- Answer a call of the loop. -/
def hearWith (env : Env) (fetched : Auth.Fetched) (s : Tended N) : (e : Call) → e.Answer × Tended N
  | .instantNow => (s.clock, s)
  | .get _ _ => (fetched, s)
  | .applyBrainSnapshotAt nodes shards since =>
    ((s.table.applyBrainSnapshotAt env nodes shards since).1, s.applyRound env nodes shards since)

theorem loopExec_hearWith (env : Env) (fetched : Auth.Fetched) (s : Tended N) (e : Call) :
    LoopExec env s e (hearWith env fetched s e).1 (hearWith env fetched s e).2 := by
  cases e with
  | instantNow => exact .instantNow s
  | get url secret => exact .get s url secret fetched
  | applyBrainSnapshotAt nodes shards since => exact .applyBrainSnapshotAt s nodes shards since

/-- Let the world move. -/
def turnWith (env : Env) (documents : Documents) (brainUrl : String) (s : Tended N) :
    Turn → Option (Tended N)
  | .tick now => if s.clock ≤ now then some { s with clock := now } else none
  | .round =>
    match s.loop with
    | .done () => some { s with loop := refreshFromBrain env documents brainUrl, heard := [] }
    | .call _ _ => none
  | .hear fetched =>
    match s.loop with
    | .done () => none
    | .call e k =>
      let heard := hearWith env fetched s e
      some { heard.2 with loop := k heard.1, heard := s.heard ++ [⟨e, heard.1⟩] }

theorem turn_of_turnWith {y : Turn} (hturn : turnWith env documents brainUrl s y = some s') :
    TendedTurn env documents brainUrl U s s' := by
  cases y with
  | tick now =>
    obtain ⟨hle, heq⟩ := Option.ite_none_right_eq_some.1 hturn
    obtain rfl := Option.some.inj heq
    exact .tick hle
  | round =>
    rw [turnWith] at hturn
    cases hloop : s.loop with
    | done a =>
      rw [hloop] at hturn
      obtain rfl := Option.some.inj hturn
      exact .round hloop
    | call e k =>
      rw [hloop] at hturn
      exact absurd hturn (by simp)
  | hear fetched =>
    rw [turnWith] at hturn
    cases hloop : s.loop with
    | done a =>
      rw [hloop] at hturn
      exact absurd hturn (by simp)
    | call e k =>
      rw [hloop] at hturn
      obtain rfl := Option.some.inj hturn
      exact .loop hloop (loopExec_hearWith env fetched s e)

/-- Answer a call of a request. -/
def callWith (env : Env) (x : Proxy.Conduct) (i : ℕ) (s : Tended Proxy.Nodes) :
    (e : Proxy.Call) → Option (e.Answer × Tended Proxy.Nodes)
  | .acceptLeaderHint shard nodeUrl =>
    let hinted := s.table.acceptLeaderHint env shard nodeUrl s.clock
    some (hinted.1, { s with world.table := hinted.2 })
  | e => (Proxy.execWith env x i s.world e).map fun done => (done.1, { s with world := done.2 })

theorem callWith_of_other {x : Proxy.Conduct} {i : ℕ} {s : Tended Proxy.Nodes} {e : Proxy.Call}
    (hne : ∀ shard nodeUrl, e ≠ .acceptLeaderHint shard nodeUrl) : callWith env x i s e =
      (Proxy.execWith env x i s.world e).map fun done => (done.1, { s with world := done.2 }) := by
  cases e with
  | acceptLeaderHint shard nodeUrl => exact absurd rfl (hne shard nodeUrl)
  | _ => rfl

theorem exec_of_callWith {expires : Bool} {x : Proxy.Conduct} {i : ℕ} {s s' : Tended Proxy.Nodes}
    {e : Proxy.Call} {r : e.Answer} (hcall : callWith env x i s e = some (r, s')) :
    TendedExec env (Proxy.upstreams env expires) i s e r s' := by
  by_cases hhint : ∃ shard nodeUrl, e = .acceptLeaderHint shard nodeUrl
  · obtain ⟨shard, nodeUrl, rfl⟩ := hhint
    obtain ⟨rfl, rfl⟩ := Prod.mk.inj (Option.some.inj hcall)
    exact .acceptLeaderHint s shard nodeUrl
  · have hne : ∀ shard nodeUrl, e ≠ .acceptLeaderHint shard nodeUrl :=
      fun shard nodeUrl heq => hhint ⟨shard, nodeUrl, heq⟩
    rw [callWith_of_other hne] at hcall
    obtain ⟨⟨r', w⟩, hexec, hpair⟩ := Option.map_eq_some_iff.1 hcall
    obtain ⟨rfl, rfl⟩ := Prod.mk.inj hpair
    exact .other hne (Proxy.exec_of_execWith hexec)

/-- The balancer and its loop, over nodes that compute. -/
def tending (env : Env) (documents : Documents) (brainUrl : String) (expires : Bool)
    (shardCount : ℕ) (admits : Proxy.Request → Prop) : Machine.Driver
      (tended env documents brainUrl (Proxy.upstreams env expires) shardCount admits) where
  Job := { request : Proxy.Request // admits request }
  Choice := Proxy.Conduct
  Turn := Turn
  start request _ := some (Proxy.route env shardCount request.1)
  exec := callWith env
  env y s := turnWith env documents brainUrl s y
  start_sound := fun {request _ _} h => ⟨request.1, request.2, (Option.some.inj h).symm⟩
  exec_sound := exec_of_callWith
  env_sound := turn_of_turnWith

namespace Sample

/-- A brain that lists two nodes, and prefers the first of them. -/
def listing : Documents where
  brainNodes _ := some [RouteTable.Sample.node "x" "a:1", RouteTable.Sample.node "y" "b:1"]
  brainPlacement _ := some [RouteTable.Sample.placement (some "x") []]

def answered : Auth.Fetched := .response .ok (some [])

def driver : Machine.Driver (tended Reference.env listing "http://brain/"
    (Proxy.upstreams Reference.env false) 1 fun _ => True) :=
  tending Reference.env listing "http://brain/" false 1 fun _ => True

/-- A round during which a request is redirected to `b`. -/
def schedule : List driver.Move :=
  [.env (.tick 1), .env .round, .env (.hear answered), .env (.tick 2), .start ⟨Proxy.Sample.keyed, trivial⟩,
    .answer 0 (.table 0), .answer 0 (.table 0), .answer 0 (.reply Proxy.Sample.redirected),
    .answer 0 (.table 0), .env (.hear answered), .env (.hear answered), .env (.hear answered)]

end Sample

/-- The brain prefers `a`; the redirect was learned after the round was begun, so `b` leads. -/
theorem table_explained_redirected : ∃ h c, (tended Reference.env Sample.listing "http://brain/"
      (Proxy.upstreams Reference.env false) 1 fun _ => True).Run
        (.new Reference.env 1 ["http://a:1", "http://b:1"] .empty) h c ∧
    c.shared.placed Reference.env 1 ["http://a:1", "http://b:1"] 0 = some "http://a:1" ∧
    c.shared.table.leaderFor 0 = some "http://b:1" := by
  obtain ⟨h, c, _, _, hplay, -, hfound⟩ := Sample.driver.exists_play
    (.initial (.new Reference.env 1 ["http://a:1", "http://b:1"] .empty)) Sample.schedule []
    (fun h c _ _ => decide (lastRedirect 0 h = some (2, "http://b:1") ∧
      c.shared.round.map Round.fetchedAt = some 1 ∧ "http://b:1" ∈ c.shared.table.nodes ∧
      c.shared.placed Reference.env 1 ["http://a:1", "http://b:1"] 0 = some "http://a:1"))
    (by decide +kernel)
  obtain ⟨hlast, hround, hmember, hplaced⟩ := of_decide_eq_true hfound
  obtain ⟨round, hround, hfetched⟩ := Option.map_eq_some_iff.1 hround
  have hrun := Sample.driver.run_of_play .init hplay
  refine ⟨h, c, hrun, hplaced, ?_⟩
  have hexplained := (table_explained hrun).2.2.2.2 0
  have hfresh : c.shared.Fresh 2 := by
    rw [Tended.Fresh, hround]
    simp [hfetched]
  rw [List.nil_append, hlast, Tended.corrected_some hfresh, if_pos hmember, Option.some_or]
    at hexplained
  exact hexplained (by simp [hround, hfetched])

end Brain

end LoadBalance
