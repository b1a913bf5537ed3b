import FiduciaLoadBalance.Concurrency.Schedule
import FiduciaLoadBalance.Proxy.Records

/-!
# Playing the balancer

Nodes that carry out what they are asked by computation, and the driver that plays the
balancer over them: a schedule says which requests arrive, which replies get lost, when a
snapshot comes in or a lost request arrives after all.
-/

namespace LoadBalance

open Http Text Json Conc

namespace Proxy

/-! ## Nodes that compute -/

/-- Carry out a request.  Tokens are given out in order. -/
def perform (env : Env) (i : ℕ) (a : Attempt) (s : Nodes) : Option (Report × Nodes) :=
  match operationOf env a with
  | some (.claim key owner metadata) =>
    match s.records key with
    | some record => some (.duplicate record, s)
    | none =>
      let fencingToken := UInt64.ofNat (s.grants.length + 1)
      if ∀ g ∈ s.grants, g.fencingToken ≠ fencingToken then
        some (.granted fencingToken, s.grant i key owner fencingToken metadata)
      else none
  | some (.complete key owner fencingToken result) =>
    some (.completed (s.holds key owner fencingToken), s.complete key owner fencingToken result)
  | some (.abandon key fencingToken) => some (.nothing, s.abandon key fencingToken)
  | none =>
    if mutates a then some (.nothing, { s with applied := (i, a) :: s.applied })
    else some (.nothing, s)

/-- A record, as a node shows it. -/
def Record.toValue (record : Record) : Value :=
  .ofFields
    [("metadata", record.metadata),
      ("result", record.result.getD .null),
      ("status", .string (if record.result.isSome then "completed" else "claimed"))]

/-- What a node says of a request it carried out. -/
def Report.toValue : Report → Value
  | .granted fencingToken => .ofFields
    [("claimed", .bool true), ("fencing_token", .number (.posInt fencingToken))]
  | .duplicate record => .ofFields
    [("claimed", .bool false), ("duplicate", .bool true), ("record", record.toValue)]
  | .completed done => .ofFields [("completed", .bool done)]
  | .nothing => .null

/-- The reply to a request that was carried out: `reply`, if there is nothing to say. -/
def Report.reply (env : Env) (reply : Reply) : Report → Reply
  | .nothing => reply
  | report => .response .ok .empty
    [env.toVec (.ofFields [("result", .ofFields [("output", report.toValue)])])] .eof

instance (env : Env) (response : Response) (report : Report) :
    Decidable (report.Says env response) :=
  match report with
  | .granted fencingToken => decidable_of_iff (∃ output ∈ outputIn env response,
      output.get? "claimed" = some (.bool true) ∧
      output.get? "fencing_token" = some (.number (.posInt fencingToken))) Iff.rfl
  | .duplicate record => decidable_of_iff (∃ output ∈ outputIn env response,
      ∃ value ∈ output.get? "record", output.get? "claimed" = some (.bool false) ∧
        output.get? "duplicate" = some (.bool true) ∧ record.Shown value)
      ⟨fun ⟨output, ho, value, hv, hc, hd, hs⟩ => ⟨output, value, ho, hc, hd, hv, hs⟩,
        fun ⟨output, value, ho, hc, hd, hv, hs⟩ => ⟨output, ho, value, hv, hc, hd, hs⟩⟩
  | .completed done => decidable_of_iff (∃ output ∈ outputIn env response,
      output.get? "completed" = some (.bool done)) Iff.rfl
  | .nothing => .isTrue trivial

/-- How the outside can answer a call. -/
inductive Conduct : Type
  /-- A critical section of the table, at an instant. -/
  | table (now : Instant)
  /-- The node carries the request out, and replies so if there is nothing to say. -/
  | perform (reply : Reply)
  /-- The balancer gets this reply, and the node did nothing. -/
  | reply (reply : Reply)

/-- Answer an attempt of task `i`. -/
def answerWith (env : Env) (i : ℕ) (a : Attempt) (s : Nodes) : Conduct → Option (Reply × Nodes)
  | .table _ => none
  | .perform reply =>
    (perform env i a s).bind fun done =>
      let reply := done.1.reply env reply
      match outcome env a reply with
      | .served response =>
        if (mutates a = true → isCacheableIdempotentResponse response.status = true) ∧
            (response.status.isSuccess = true → done.1.Says env response) then
          some (reply, done.2)
        else none
      | _ => none
  | .reply reply =>
    match outcome env a reply with
    | .notSent => some (reply, s)
    | .notLeader _ => some (reply, s)
    | .ambiguousTransport => some (reply, s.send env i a)
    | .responseTooLarge => some (reply, s.send env i a)
    | .served response => if response.status.isSuccess then none else some (reply, s)

section

variable {env : Env} {i : ℕ} {a : Attempt} {s s' : Nodes} {reply : Reply}

theorem performs_of_perform {report : Report} (h : perform env i a s = some (report, s')) :
    Performs env i a s report s' := by
  rw [perform] at h
  split at h
  · rename_i hop
    split at h
    · rename_i hrecord
      obtain ⟨rfl, rfl⟩ := Prod.mk.inj (Option.some.inj h)
      exact .duplicate hop hrecord
    · rename_i hnone
      dsimp only at h
      split at h
      · rename_i hfresh
        obtain ⟨rfl, rfl⟩ := Prod.mk.inj (Option.some.inj h)
        exact .grant hop hnone hfresh
      · exact absurd h (by simp)
  · rename_i hop
    obtain ⟨rfl, rfl⟩ := Prod.mk.inj (Option.some.inj h)
    exact .complete hop
  · rename_i hop
    obtain ⟨rfl, rfl⟩ := Prod.mk.inj (Option.some.inj h)
    exact .abandon hop
  · rename_i hop
    split at h
    · rename_i hmutates
      obtain ⟨rfl, rfl⟩ := Prod.mk.inj (Option.some.inj h)
      exact .mutation hop hmutates
    · obtain ⟨rfl, rfl⟩ := Prod.mk.inj (Option.some.inj h)
      exact .other hop

theorem answers_of_answerWith {x : Conduct} (h : answerWith env i a s x = some (reply, s')) :
    Answers env i a s reply s' := by
  cases x with
  | table now => exact absurd h (by simp [answerWith])
  | perform said =>
    obtain ⟨⟨report, done⟩, hperform, hrest⟩ := Option.bind_eq_some_iff.1 h
    dsimp only at hrest
    split at hrest
    · rename_i response hout
      split at hrest
      · rename_i hreport
        obtain ⟨rfl, rfl⟩ := Prod.mk.inj (Option.some.inj hrest)
        exact .served hout (performs_of_perform hperform) hreport.1 hreport.2
      · exact absurd hrest (by simp)
    · exact absurd hrest (by simp)
  | reply said =>
    rw [answerWith] at h
    split at h
    · obtain ⟨rfl, rfl⟩ := Prod.mk.inj (Option.some.inj h)
      exact .refused (Or.inl ‹_›)
    · obtain ⟨rfl, rfl⟩ := Prod.mk.inj (Option.some.inj h)
      exact .refused (Or.inr ⟨_, ‹_›⟩)
    · obtain ⟨rfl, rfl⟩ := Prod.mk.inj (Option.some.inj h)
      exact .lost (Or.inl ‹_›)
    · obtain ⟨rfl, rfl⟩ := Prod.mk.inj (Option.some.inj h)
      exact .lost (Or.inr ‹_›)
    · split at h
      · exact absurd h (by simp)
      · rename_i hfail
        obtain ⟨rfl, rfl⟩ := Prod.mk.inj (Option.some.inj h)
        exact .failed ‹_› (Bool.eq_false_iff.2 hfail)

end

/-! ## The driver -/

/-- How the world moves besides the tasks' calls. -/
inductive Arrival : Type
  | snapshot (nodes : List BrainNode) (shards : List BrainShard) (fetchedAt : Instant)
  /-- The request in flight at this position arrives after all. -/
  | deliver (position : ℕ)
  | expire (key : String)

/-- Answer a call of task `i`. -/
def execWith (env : Env) (x : Conduct) (i : ℕ) (w : World Nodes) :
    (e : Call) → Option (e.Answer × World Nodes)
  | .leaderFor shard => some (w.table.leaderFor shard, w)
  | .anyNodeExcluding excluded =>
    some ((w.table.anyNodeExcluding excluded).1,
      { w with table := (w.table.anyNodeExcluding excluded).2 })
  | .acceptLeaderHint shard nodeUrl =>
    match x with
    | .table now =>
      some ((w.table.acceptLeaderHint env shard nodeUrl now).1,
        { w with table := (w.table.acceptLeaderHint env shard nodeUrl now).2 })
    | _ => none
  | .validateNodeHint nodeUrl => some (w.table.validateNodeHint env nodeUrl, w)
  | .recordRegionRequest nodeUrl => some ((), { w with table := w.table.recordRegionRequest nodeUrl })
  | .forwardOnce a =>
    (answerWith env i a w.nodes x).map fun done => (done.1, { w with nodes := done.2 })

/-- Let the world move. -/
def arriveWith (env : Env) (expires : Bool) (w : World Nodes) : Arrival → Option (World Nodes)
  | .snapshot nodes shards fetchedAt => some (w.applySnapshot env nodes shards fetchedAt)
  | .deliver position =>
    (w.nodes.inFlight[position]?).bind fun sent =>
      (perform env sent.1 sent.2
        { w.nodes with inFlight := w.nodes.inFlight.erase sent }).map fun done =>
          { w with nodes := done.2 }
  | .expire key =>
    if expires then
      some { w with nodes := { w.nodes with records := Function.update w.nodes.records key none } }
    else none

theorem exec_of_execWith {env : Env} {expires : Bool} {x : Conduct} {i : ℕ} {w w' : World Nodes}
    {e : Call} {r : e.Answer} (h : execWith env x i w e = some (r, w')) :
    Exec env (upstreams env expires) i w e r w' := by
  cases e with
  | forwardOnce a =>
    obtain ⟨⟨reply, n⟩, hanswer, hpair⟩ := Option.map_eq_some_iff.1 h
    obtain ⟨rfl, rfl⟩ := Prod.mk.inj hpair
    exact .attempt (answers_of_answerWith hanswer)
  | acceptLeaderHint shard nodeUrl =>
    cases x with
    | table now =>
      obtain ⟨rfl, rfl⟩ := Prod.mk.inj (Option.some.inj h)
      exact .table (.acceptLeaderHint _ _ _ _)
    | _ => exact absurd h (by simp [execWith])
  | leaderFor shard =>
    obtain ⟨rfl, rfl⟩ := Prod.mk.inj (Option.some.inj h)
    exact .table (.leaderFor w.table shard)
  | anyNodeExcluding excluded =>
    obtain ⟨rfl, rfl⟩ := Prod.mk.inj (Option.some.inj h)
    exact .table (.anyNodeExcluding _ _)
  | validateNodeHint nodeUrl =>
    obtain ⟨rfl, rfl⟩ := Prod.mk.inj (Option.some.inj h)
    exact .table (.validateNodeHint w.table nodeUrl)
  | recordRegionRequest nodeUrl =>
    obtain ⟨rfl, rfl⟩ := Prod.mk.inj (Option.some.inj h)
    exact .table (.recordRegionRequest _ _)

theorem arrives_of_arriveWith {env : Env} {expires : Bool} {w w' : World Nodes} {y : Arrival}
    (h : arriveWith env expires w y = some w') : Arrives env (upstreams env expires) w w' := by
  cases y with
  | snapshot nodes shards fetchedAt =>
    obtain rfl := Option.some.inj h
    exact .snapshot ..
  | deliver position =>
    obtain ⟨⟨i, a⟩, hsent, hrest⟩ := Option.bind_eq_some_iff.1 h
    obtain ⟨⟨report, s'⟩, hperform, rfl⟩ := Option.map_eq_some_iff.1 hrest
    exact .nodes (.deliver (List.mem_of_getElem? hsent) (performs_of_perform hperform))
  | expire key =>
    rw [arriveWith] at h
    split at h
    · obtain rfl := Option.some.inj h
      exact .nodes (.expire ‹_›)
    · exact absurd h (by simp)

/-- The balancer over nodes that compute. -/
def simulation (env : Env) (expires : Bool) (shardCount : ℕ) (admits : Request → Prop) :
    Machine.Driver (balancer env shardCount (upstreams env expires) admits) where
  Job := { request : Request // admits request }
  Choice := Conduct
  Turn := Arrival
  start request _ := some (route env shardCount request.1)
  exec := execWith env
  env y w := arriveWith env expires w y
  start_sound := fun {request _ _} h => ⟨request.1, request.2, (Option.some.inj h).symm⟩
  exec_sound := exec_of_execWith
  env_sound := arrives_of_arriveWith

/-! ## A cluster to play with -/

namespace Sample

/-- A cluster of one node, and one shard. -/
def world : World Nodes := World.new Reference.env 1 ["http://a:1"] .empty

/-- It serves no steps of the protocol that a client asks for itself. -/
def Admits (request : Request) : Prop := isIdempotencyPrimitive request.uri = false

abbrev Cluster : Machine Call Call.Answer Response (World Nodes) :=
  balancer Reference.env 1 (upstreams Reference.env false) Admits

def driver : Machine.Driver Cluster := simulation Reference.env false 1 Admits

theorem admits_put (body : Bytes) : Admits (put body) := by
  show isIdempotencyPrimitive uri = false
  decide +kernel

def start (body : Bytes) : driver.Move := .start ⟨put body, admits_put body⟩

/-- Task `i` chooses a target, and its attempt is answered. -/
def hop (i : ℕ) (conduct : Conduct) : List driver.Move :=
  [.answer i (.table 0), .answer i (.table 0), .answer i conduct]

/-- A request that is claimed, forwarded and completed. -/
def first (body : Bytes) : List driver.Move :=
  start body :: (hop 0 (.perform accepted) ++ hop 0 (.perform accepted) ++
    hop 0 (.perform accepted))

/-- Another one, as far as its claim. -/
def second (body : Bytes) : List driver.Move := start body :: hop 1 (.perform accepted)

/-- The cluster, open to any request. -/
abbrev OpenCluster : Machine Call Call.Answer Response (World Nodes) :=
  balancer Reference.env 1 (upstreams Reference.env false) fun _ => True

def openDriver : Machine.Driver OpenCluster := simulation Reference.env false 1 fun _ => True

/-- A mutation with the same key, whose path only begins as the protocol's do. -/
def putKeys : Request := { put [] with uri := lookalike }

/-- A request of task `i` reaches its node, and is carried out. -/
def served (i : ℕ) : List openDriver.Move :=
  [.answer i (.table 0), .answer i (.table 0), .answer i (.perform accepted)]

/-- Task 0, whose request is claimed, forwarded and completed. -/
def completed : List openDriver.Move :=
  .start ⟨put [], trivial⟩ :: (served 0 ++ served 0 ++ served 0)

/-- Task `i`, whose request is forwarded without a claim. -/
def unclaimed (i : ℕ) : List openDriver.Move := .start ⟨putKeys, trivial⟩ :: served i

end Sample

end Proxy

end LoadBalance
