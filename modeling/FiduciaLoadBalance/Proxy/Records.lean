import FiduciaLoadBalance.Proxy.Balancer
import FiduciaLoadBalance.Proxy.Documents

/-!
# The nodes that keep the idempotency records

What the balancer assumes of the nodes behind it, as a relation on their state.  A
claim is granted only for a key without a record, under a fencing token never given
before; a record is completed by its holder, once; a claim is released by its holder,
and not after completion.  An attempt that ended `notSent` or `notLeader` did nothing;
one that got no answer may still arrive, at any time.

* `Performs` — what carrying out one request can do to the nodes;
* `Report.Says` — what a successful response says about it;
* `upstreams` — the nodes, as the balancer's machine sees them.
-/

namespace LoadBalance

open Http Text Json Conc

namespace Proxy

/-! ## Operations -/

/-- An operation on the record of a key. -/
inductive Operation : Type
  | claim (key owner : String) (metadata : Value)
  | complete (key owner : String) (fencingToken : UInt64) (result : Value)
  | abandon (key : String) (fencingToken : UInt64)
deriving DecidableEq

/-- The operation a document spells, posted to a path. -/
def operationAt (path : String) (value : Value) : Option Operation := do
  let key ← (value.get? "key").bind (·.asStr)
  if path = "/v1/idempotency/claim" then
    return .claim key (← (value.get? "owner").bind (·.asStr)) (← value.get? "metadata")
  else if path = "/v1/idempotency/complete" then
    return .complete key (← (value.get? "owner").bind (·.asStr))
      (← (value.get? "fencing_token").bind (·.asU64)) (← value.get? "result")
  else if path = "/v1/idempotency/abandon" then
    return .abandon key (← (value.get? "fencing_token").bind (·.asU64))
  else none

/-- The operation an attempt asks for, if it asks for one. -/
def operationOf (env : Env) (a : Attempt) : Option Operation :=
  if a.method = .post then (env.fromSlice a.body).bind (operationAt a.uri.path) else none

/-- Is an attempt a step of the protocol itself: a claim, its completion or its release? -/
def isProtocolStep (a : Attempt) : Bool :=
  a.method = .post ∧ (a.uri.path = "/v1/idempotency/claim" ∨
    a.uri.path = "/v1/idempotency/complete" ∨ a.uri.path = "/v1/idempotency/abandon")

/-- Does an attempt ask for a mutation of the client's?  Any write does that is no step of
the protocol, whatever the balancer takes it for. -/
def mutates (a : Attempt) : Bool :=
  methodSupportsCustomerIdempotency a.method && !isProtocolStep a

/-- The key under which an attempt's mutation is to be applied at most once, if it
carries one. -/
def keyOf (env : Env) (a : Attempt) : Option String :=
  if mutates a then
    (idempotencyKeyText a.headers).map fun trimmed =>
      (CustomerIdempotency.ofKey env a.identity a.method a.uri a.headers a.body trimmed).internalKey
  else none

/-! ## The state of the nodes -/

/-- The record of a key. -/
structure Record where
  owner : String
  fencingToken : UInt64
  metadata : Value
  /-- The result it was completed with, if it was. -/
  result : Option Value
deriving DecidableEq

/-- A claim that was granted: to which task's request, and what the record says. -/
structure Grant where
  task : ℕ
  key : String
  fencingToken : UInt64
  metadata : Value

/-- The state of the nodes: the records, and what happened so far. -/
structure Nodes where
  records : String → Option Record
  /-- The claims granted. -/
  grants : List Grant
  /-- The tokens of the abandon requests that arrived, or may still arrive. -/
  released : List UInt64
  /-- The mutations applied, each with the task it came from. -/
  applied : List (ℕ × Attempt)
  /-- The requests that got no answer and may still arrive. -/
  inFlight : List (ℕ × Attempt)

namespace Nodes

def empty : Nodes where
  records _ := none
  grants := []
  released := []
  applied := []
  inFlight := []

/-- Grant a claim. -/
def grant (s : Nodes) (task : ℕ) (key owner : String) (fencingToken : UInt64)
    (metadata : Value) : Nodes :=
  { s with
    records := Function.update s.records key (some { owner, fencingToken, metadata, result := none })
    grants := { task, key, fencingToken, metadata } :: s.grants }

/-- Does the owner hold the key under this token, not completed yet? -/
def holds (s : Nodes) (key owner : String) (fencingToken : UInt64) : Bool :=
  (s.records key).any fun record =>
    record.owner = owner ∧ record.fencingToken = fencingToken ∧ record.result = none

/-- Complete a record with a result, for its holder. -/
def complete (s : Nodes) (key owner : String) (fencingToken : UInt64) (result : Value) : Nodes :=
  { s with
    records :=
      if s.holds key owner fencingToken then
        Function.update s.records key
          ((s.records key).map fun record => { record with result := some result })
      else s.records }

/-- Release a claim that is not completed, for its holder. -/
def abandon (s : Nodes) (key : String) (fencingToken : UInt64) : Nodes :=
  { s with
    records :=
      if (s.records key).any fun record =>
          record.fencingToken = fencingToken ∧ record.result = none then
        Function.update s.records key none
      else s.records
    released := fencingToken :: s.released }

/-- The tokens an attempt may release. -/
def releasedBy (env : Env) (a : Attempt) : List UInt64 :=
  match operationOf env a with
  | some (.abandon _ fencingToken) => [fencingToken]
  | _ => []

/-- An attempt of task `i` is on its way, and nobody knows where. -/
def send (env : Env) (s : Nodes) (i : ℕ) (a : Attempt) : Nodes :=
  { s with
    inFlight := (i, a) :: s.inFlight
    released := releasedBy env a ++ s.released }

theorem grant_records (s : Nodes) (task : ℕ) (key owner : String) (fencingToken : UInt64)
    (metadata : Value) (key' : String) :
    (s.grant task key owner fencingToken metadata).records key' =
      if key' = key then some { owner, fencingToken, metadata, result := none }
      else s.records key' :=
  Function.update_apply ..

theorem holds_iff {s : Nodes} {key owner : String} {fencingToken : UInt64} :
    s.holds key owner fencingToken = true ↔ ∃ record, s.records key = some record ∧
      record.owner = owner ∧ record.fencingToken = fencingToken ∧ record.result = none := by
  simp [holds, Option.any_eq_true]

/-- Completion changes the record of the key, when its holder completes it. -/
theorem complete_records (s : Nodes) (key owner : String) (fencingToken : UInt64)
    (result : Value) (key' : String) :
    (s.complete key owner fencingToken result).records key' =
      if key' = key ∧ s.holds key owner fencingToken = true then
        (s.records key).map fun record => { record with result := some result }
      else s.records key' := by
  rw [complete]
  cases s.holds key owner fencingToken <;> simp [Function.update_apply]

/-- Release removes the record of the key, when its holder releases it. -/
theorem abandon_records (s : Nodes) (key : String) (fencingToken : UInt64) (key' : String) :
    (s.abandon key fencingToken).records key' =
      if key' = key ∧ ((s.records key).any fun record =>
          record.fencingToken = fencingToken ∧ record.result = none) = true then none
      else s.records key' := by
  rw [abandon]
  generalize ((s.records key).any fun record =>
    record.fencingToken = fencingToken ∧ record.result = none) = held
  cases held <;> simp [Function.update_apply]

end Nodes

/-! ## Carrying out a request -/

/-- What a node has to say about a request it carried out. -/
inductive Report : Type
  | granted (fencingToken : UInt64)
  | duplicate (record : Record)
  | completed (done : Bool)
  | nothing

/-- **What carrying out an attempt of task `i` can do.** -/
inductive Performs (env : Env) (i : ℕ) (a : Attempt) (s : Nodes) : Report → Nodes → Prop
  | grant {key owner : String} {metadata : Value} {fencingToken : UInt64} :
      operationOf env a = some (.claim key owner metadata) → s.records key = none →
      (∀ g ∈ s.grants, g.fencingToken ≠ fencingToken) →
      Performs env i a s (.granted fencingToken) (s.grant i key owner fencingToken metadata)
  | duplicate {key owner : String} {metadata : Value} {record : Record} :
      operationOf env a = some (.claim key owner metadata) → s.records key = some record →
      Performs env i a s (.duplicate record) s
  | complete {key owner : String} {fencingToken : UInt64} {result : Value} :
      operationOf env a = some (.complete key owner fencingToken result) →
      Performs env i a s (.completed (s.holds key owner fencingToken))
        (s.complete key owner fencingToken result)
  | abandon {key : String} {fencingToken : UInt64} :
      operationOf env a = some (.abandon key fencingToken) →
      Performs env i a s .nothing (s.abandon key fencingToken)
  | mutation : operationOf env a = none → mutates a = true →
      Performs env i a s .nothing { s with applied := (i, a) :: s.applied }
  /-- A request that changes nothing, or that the node turned down. -/
  | other : operationOf env a = none → Performs env i a s .nothing s

/-- The output a response reports, as the balancer reads it. -/
def outputIn (env : Env) (response : Response) : Option Value :=
  match CapturedResponse.fromResponse env response with
  | .error _ => none
  | .ok captured => (env.fromSlice captured.body).bind outputOf

/-- A record as a node shows it: its metadata, its status, and its result unchanged. -/
structure Record.Shown (record : Record) (value : Value) : Prop where
  metadata : value.get? "metadata" = some record.metadata
  status : value.get? "status" =
    some (.string (if record.result.isSome then "completed" else "claimed"))
  result : ∀ result, record.result = some result → value.get? "result" = some result

instance (record : Record) (value : Value) : Decidable (record.Shown value) :=
  decidable_of_iff (value.get? "metadata" = some record.metadata ∧
    value.get? "status" =
      some (.string (if record.result.isSome then "completed" else "claimed")) ∧
    ∀ result ∈ record.result, value.get? "result" = some result)
    ⟨fun h => ⟨h.1, h.2.1, h.2.2⟩, fun h => ⟨h.metadata, h.status, h.result⟩⟩

/-- What a successful response says about what was done. -/
def Report.Says (env : Env) (response : Response) : Report → Prop
  | .granted fencingToken => ∃ output, outputIn env response = some output ∧
      output.get? "claimed" = some (.bool true) ∧
      output.get? "fencing_token" = some (.number (.posInt fencingToken))
  | .duplicate record => ∃ output value, outputIn env response = some output ∧
      output.get? "claimed" = some (.bool false) ∧ output.get? "duplicate" = some (.bool true) ∧
      output.get? "record" = some value ∧ record.Shown value
  | .completed done => ∃ output, outputIn env response = some output ∧
      output.get? "completed" = some (.bool done)
  | .nothing => True

/-- **How the nodes answer an attempt of task `i`.** -/
inductive Answers (env : Env) (i : ℕ) (a : Attempt) (s : Nodes) (reply : Reply) : Nodes → Prop
  /-- No node did anything. -/
  | refused : outcome env a reply = .notSent ∨ (∃ leader, outcome env a reply = .notLeader leader) →
      Answers env i a s reply s
  /-- There was no answer the balancer could read: the attempt may still arrive. -/
  | lost : outcome env a reply = .ambiguousTransport ∨ outcome env a reply = .responseTooLarge →
      Answers env i a s reply (s.send env i a)
  /-- The node failed. -/
  | failed {response : Response} : outcome env a reply = .served response →
      response.status.isSuccess = false → Answers env i a s reply s
  /-- The node did what was asked; a mutation only if its response is a final one. -/
  | served {response : Response} {report : Report} {s' : Nodes} :
      outcome env a reply = .served response → Performs env i a s report s' →
      (mutates a = true → isCacheableIdempotentResponse response.status = true) →
      (response.status.isSuccess = true → report.Says env response) →
      Answers env i a s reply s'

/-- What the nodes do on their own: a request that got no answer arrives after all,
and, where records expire, one expires. -/
inductive Background (env : Env) (expires : Bool) : Nodes → Nodes → Prop
  | deliver {s s' : Nodes} {i : ℕ} {a : Attempt} {report : Report} : (i, a) ∈ s.inFlight →
      Performs env i a { s with inFlight := s.inFlight.erase (i, a) } report s' →
      Background env expires s s'
  | expire {s : Nodes} {key : String} : expires = true →
      Background env expires s { s with records := Function.update s.records key none }

/-- The nodes that keep the records. -/
def upstreams (env : Env) (expires : Bool) : Upstreams Nodes where
  answer i a s reply s' := Answers env i a s reply s'
  cancelled i a s s' := s' = s.send env i a
  background := Background env expires

/-! ## The operations of the protocol -/

section

variable {env : Env} {request : Request} {idempotency : CustomerIdempotency}

theorem claimUri_path : claimUri.path = "/v1/idempotency/claim" := by decide +kernel

theorem completeUri_path : completeUri.path = "/v1/idempotency/complete" := by decide +kernel

theorem abandonUri_path : abandonUri.path = "/v1/idempotency/abandon" := by decide +kernel

/-- The node reads in a request of the balancer's own the document it was given. -/
theorem operationOf_internal (hjson : env.JsonRoundTrips) {identity : Option VerifiedIdentity}
    {uri : Uri} {body : Value} (hbody : body.Regular) (nodeUrl : String) :
    operationOf env ((internalRequest env identity uri body).attempt nodeUrl) =
      operationAt uri.path body := by
  have hread : env.fromSlice ((internalRequest env identity uri body).attempt nodeUrl).body =
      some body := hjson body hbody
  have hmethod : ((internalRequest env identity uri body).attempt nodeUrl).method = .post := rfl
  rw [operationOf, if_pos hmethod, hread, Option.bind_some]
  rfl

theorem operationOf_claim (hjson : env.JsonRoundTrips) (nodeUrl : String) :
    operationOf env ((claimRequest env request idempotency).attempt nodeUrl) =
      some (.claim idempotency.internalKey idempotency.owner idempotency.metadata) := by
  rw [claimRequest, operationOf_internal hjson (regular_claimBody _), claimUri_path]
  simp [operationAt]

theorem operationOf_complete (hjson : env.JsonRoundTrips) (fencingToken : UInt64)
    (stored : StoredIdempotencyResponse) (nodeUrl : String) :
    operationOf env ((completeRequest env request idempotency fencingToken stored).attempt nodeUrl) =
      some (.complete idempotency.internalKey idempotency.owner fencingToken stored.toValue) := by
  rw [completeRequest, operationOf_internal hjson (regular_completeBody _ _ _), completeUri_path]
  simp [operationAt]

theorem operationOf_abandon (hjson : env.JsonRoundTrips) (fencingToken : UInt64)
    (nodeUrl : String) :
    operationOf env ((abandonRequest env request idempotency fencingToken).attempt nodeUrl) =
      some (.abandon idempotency.internalKey fencingToken) := by
  rw [abandonRequest, operationOf_internal hjson (regular_abandonBody _ _), abandonUri_path]
  simp [operationAt]

end

end Proxy

end LoadBalance
