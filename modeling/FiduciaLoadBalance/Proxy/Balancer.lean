import FiduciaLoadBalance.Proxy.Route
import FiduciaLoadBalance.Table.Invariant

/-!
# The balancer at work

Any number of request tasks over one routing table, while brain snapshots arrive and
the nodes behind the balancer do as they please.

* `Upstreams` — the nodes: how they answer an attempt, and what they do on their own;
* `World` — everything the tasks share;
* `balancer` — the machine whose runs are the interleavings of all this.  A task can
  be cancelled at any point, also while an attempt of it is under way.
-/

namespace LoadBalance

open Http Conc

namespace Proxy

/-- The nodes behind the balancer, with a state of type `N`. -/
structure Upstreams (N : Type) where
  /-- `answer i a n reply n'`: in state `n` the nodes may give task `i`'s attempt `a` the
  reply `reply`, and be left in state `n'`. -/
  answer : ℕ → Attempt → N → Reply → N → Prop
  /-- What an attempt can do whose task is cancelled before a reply. -/
  cancelled : ℕ → Attempt → N → N → Prop
  /-- What the nodes do on their own. -/
  background : N → N → Prop

/-- What the request tasks share. -/
structure World (N : Type) where
  table : RouteTable
  nodes : N
  /-- The nodes listed in the last snapshot the table accepted. -/
  snapshot : Option (List BrainNode)

variable {N : Type}

/-- The world at startup. -/
def World.new (env : Env) (shardCount : ℕ) (seeds : List String) (nodes : N) : World N where
  table := RouteTable.new env shardCount seeds
  nodes := nodes
  snapshot := none

/-- A brain snapshot arrives. -/
def World.applySnapshot (env : Env) (w : World N) (nodes : List BrainNode)
    (shards : List BrainShard) (fetchedAt : Instant) : World N :=
  let applied := w.table.applyBrainSnapshotAt env nodes shards fetchedAt
  { w with
    table := applied.2
    snapshot := if applied.1 = 0 then w.snapshot else some nodes }

/-- A call of task `i`: a critical section of the table, or an attempt. -/
inductive Exec (env : Env) (U : Upstreams N) (i : ℕ) :
    World N → (e : Call) → e.Answer → World N → Prop
  | table {w : World N} {e : Call} {r : e.Answer} {t : RouteTable} :
      TableStep env w.table e r t → Exec env U i w e r { w with table := t }
  | attempt {w : World N} {a : Attempt} {reply : Reply} {n : N} :
      U.answer i a w.nodes reply n → Exec env U i w (.forwardOnce a) reply { w with nodes := n }

/-- What happens to the world besides the tasks' calls. -/
inductive Arrives (env : Env) (U : Upstreams N) : World N → World N → Prop
  | snapshot (w : World N) (nodes : List BrainNode) (shards : List BrainShard)
      (fetchedAt : Instant) : Arrives env U w (w.applySnapshot env nodes shards fetchedAt)
  | nodes {w : World N} {n : N} : U.background w.nodes n → Arrives env U w { w with nodes := n }

/-- Task `i` is cancelled, where it has reached `p`. -/
inductive Cancels (U : Upstreams N) (i : ℕ) : Task Response → World N → World N → Prop
  | still (p : Task Response) (w : World N) : Cancels U i p w w
  | attempt {w : World N} {a : Attempt} {k : Reply → Task Response} {n : N} :
      U.cancelled i a w.nodes n → Cancels U i (.call (.forwardOnce a) k) w { w with nodes := n }

/-- The balancer, serving any request that `admits` lets in. -/
def balancer (env : Env) (shardCount : ℕ) (U : Upstreams N) (admits : Request → Prop) :
    Machine Call Call.Answer Response (World N) where
  start _ p := ∃ request, admits request ∧ p = route env shardCount request
  exec := Exec env U
  env := Arrives env U
  drop := Cancels U

/-- One moment of the balancer. -/
abbrev WorldMoment (N : Type) : Type := Moment Call Call.Answer Response (World N)

end Proxy

end LoadBalance
