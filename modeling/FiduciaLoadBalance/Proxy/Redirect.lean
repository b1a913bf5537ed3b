import FiduciaLoadBalance.Concurrency.Machine
import FiduciaLoadBalance.Proxy.Forward
import FiduciaLoadBalance.Table.Basic

/-!
# Forwarding with redirects

A request task is a process: it runs on its own between its critical sections on
the routing table and its attempts on the network, and both are calls (`Call`)
answered from outside.  `forwardWithRedirect` is the retry loop over attempts.

* `Hops` — the facts a proof about the loop has to supply, one for each way an
  attempt can end;
* `wp_forwardWithRedirect` — and the rule that puts them together, under any
  contract and for any invariant of the history.
-/

namespace LoadBalance

open Http Conc

namespace Proxy

/-! ## Calls -/

/-- What a request task asks of the world: the critical sections on the routing
table, and upstream attempts. -/
inductive Call : Type
  | leaderFor (shard : ShardId)
  | anyNodeExcluding (excluded : List String)
  | acceptLeaderHint (shard : ShardId) (nodeUrl : String)
  | validateNodeHint (nodeUrl : String)
  | recordRegionRequest (nodeUrl : String)
  | forwardOnce (attempt : Attempt)
deriving DecidableEq

/-- The type of the answer to a call. -/
@[reducible] def Call.Answer : Call → Type
  | .leaderFor _ => Option String
  | .anyNodeExcluding _ => Option String
  | .acceptLeaderHint _ _ => Option String
  | .validateNodeHint _ => Option String
  | .recordRegionRequest _ => Unit
  | .forwardOnce _ => Reply

/-- A call on the routing table. -/
def Call.IsTable : Call → Prop
  | .forwardOnce _ => False
  | _ => True

/-- What a call on the table answers and does to it. -/
inductive TableStep (env : Env) : RouteTable → (e : Call) → e.Answer → RouteTable → Prop
  | leaderFor (t : RouteTable) (shard : ShardId) :
      TableStep env t (.leaderFor shard) (t.leaderFor shard) t
  | anyNodeExcluding (t : RouteTable) (excluded : List String) :
      TableStep env t (.anyNodeExcluding excluded) (t.anyNodeExcluding excluded).1
        (t.anyNodeExcluding excluded).2
  | acceptLeaderHint (t : RouteTable) (shard : ShardId) (nodeUrl : String) (now : Instant) :
      TableStep env t (.acceptLeaderHint shard nodeUrl)
        (t.acceptLeaderHint env shard nodeUrl now).1 (t.acceptLeaderHint env shard nodeUrl now).2
  | validateNodeHint (t : RouteTable) (nodeUrl : String) :
      TableStep env t (.validateNodeHint nodeUrl) (t.validateNodeHint env nodeUrl) t
  | recordRegionRequest (t : RouteTable) (nodeUrl : String) :
      TableStep env t (.recordRegionRequest nodeUrl) () (t.recordRegionRequest nodeUrl)

/-- A request task. -/
abbrev Task : Type → Type := Proc Call Call.Answer

/-- What happened to a request task at one call. -/
abbrev TaskEvent : Type := Event Call Call.Answer

/-- The history of a request task. -/
abbrev History : Type := List TaskEvent

/-- The attempts of a history, in order, each with what it told. -/
def attemptsOf (env : Env) (h : History) : List (Attempt × Upstream) :=
  h.filterMap fun ev =>
    match ev with
    | ⟨.forwardOnce attempt, reply⟩ => some (attempt, outcome env attempt reply)
    | _ => none

@[simp] theorem attemptsOf_nil (env : Env) : attemptsOf env [] = [] := rfl

@[simp] theorem attemptsOf_append (env : Env) (h h' : History) :
    attemptsOf env (h ++ h') = attemptsOf env h ++ attemptsOf env h' := by
  simp [attemptsOf]

@[simp] theorem attemptsOf_attempt (env : Env) (attempt : Attempt) (reply : Reply) :
    attemptsOf env [⟨.forwardOnce attempt, reply⟩] =
      [(attempt, outcome env attempt reply)] := rfl

theorem attemptsOf_table (env : Env) {e : Call} (he : e.IsTable) (r : e.Answer) :
    attemptsOf env [⟨e, r⟩] = [] := by
  cases e with
  | forwardOnce attempt => exact he.elim
  | _ => rfl

theorem attemptsOf_concat_table (env : Env) (h : History) {e : Call} (he : e.IsTable)
    (r : e.Answer) : attemptsOf env (h ++ [⟨e, r⟩]) = attemptsOf env h := by
  rw [attemptsOf_append, attemptsOf_table env he, List.append_nil]

/-- Best-known leader of a shard. -/
def leaderFor (shard : ShardId) : Task (Option String) := Proc.perform (Call.leaderFor shard)

/-- Round-robin over known nodes, the excluded ones left out. -/
def anyNodeExcluding (excluded : List String) : Task (Option String) :=
  Proc.perform (Call.anyNodeExcluding excluded)

def anyNode : Task (Option String) := anyNodeExcluding []

def acceptLeaderHint (shard : ShardId) (nodeUrl : String) : Task (Option String) :=
  Proc.perform (Call.acceptLeaderHint shard nodeUrl)

def validateNodeHint (nodeUrl : String) : Task (Option String) :=
  Proc.perform (Call.validateNodeHint nodeUrl)

def recordRegionRequest (nodeUrl : String) : Task Unit :=
  Proc.perform (Call.recordRegionRequest nodeUrl)

/-- Forward one request to one node and classify the result. -/
def forwardOnce (env : Env) (attempt : Attempt) : Task Upstream :=
  Proc.perform (Call.forwardOnce attempt) >>= fun reply => pure (outcome env attempt reply)

/-! ## The retry loop -/

def maxHops : ℕ := 4

/-- A request on its way to a first target. -/
structure ForwardRequest where
  identity : Option VerifiedIdentity
  target : String
  shard : Option ShardId
  method : Method
  uri : Uri
  headers : HeaderMap
  body : Bytes

/-- The attempt to forward a request to a node. -/
def ForwardRequest.attempt (request : ForwardRequest) (nodeUrl : String) : Attempt where
  nodeUrl := nodeUrl
  identity := request.identity
  method := request.method
  uri := request.uri
  headers := request.headers
  body := request.body

def methodIsReplaySafe (method : Method) : Bool :=
  method = .get ∨ method = .head ∨ method = .options

def noLeaderResponse (env : Env) : Response :=
  jsonResponse env .badGateway (.ofFields
    [("error", .string "no_leader"), ("detail", .string "exhausted redirects/retries")])

def ambiguousResponse (env : Env) : Response :=
  jsonResponse env .badGateway (.ofFields
    [("error", .string "ambiguous_upstream_result"),
      ("detail", .string
        "the mutation may have committed; retry only with the same Idempotency-Key")])

def responseTooLargeResponse (env : Env) : Response :=
  jsonResponse env .badGateway (.ofFields
    [("error", .string "upstream_response_too_large"),
      ("detail", .string "the node response exceeded the load balancer limit")])

/-- The node a hint redirects to: for a keyed request the table learns it as the
shard's leader. -/
def redirectedLeaderTarget (shard : Option ShardId) (leader : String) : Task (Option String) :=
  match shard with
  | some shard => acceptLeaderHint shard leader
  | none => validateNodeHint leader

/-- What the loop does after an attempt: end with a response, `follow` a hint to a
target not attempted yet, or `retry` with another known node. -/
def afterAttempt (env : Env) (request : ForwardRequest) (attempted : List String)
    (retry : Task Response) (follow : String → Task Response) : Upstream → Task Response
  | .served response => .done response
  | .notLeader (some leader) => do
    match ← redirectedLeaderTarget request.shard leader with
    | some target => if target ∈ attempted then retry else follow target
    | none => retry
  | .notLeader none => retry
  | .notSent => retry
  -- a mutation is never sent again once it may have been applied
  | .ambiguousTransport =>
    if methodIsReplaySafe request.method then retry else .done (ambiguousResponse env)
  | .responseTooLarge => .done (responseTooLargeResponse env)

/-- The loop of `forward_with_redirect`, with the hops left and the targets attempted. -/
def forwardLoop (env : Env) (request : ForwardRequest) : ℕ → List String → String → Task Response
  | 0, _, _ => .done (noLeaderResponse env)
  | hops + 1, attempted, target => do
    let attempted := target :: attempted
    let retry : Task Response := do
      match ← anyNodeExcluding attempted with
      | some next => forwardLoop env request hops attempted next
      | none => .done (noLeaderResponse env)
    recordRegionRequest target
    let upstream ← forwardOnce env (request.attempt target)
    afterAttempt env request attempted retry (forwardLoop env request hops attempted) upstream

/-- Forward to the request's target, following redirects up to `maxHops` attempts. -/
def forwardWithRedirect (env : Env) (request : ForwardRequest) : Task Response :=
  forwardLoop env request maxHops [] request.target

/-! ## Reasoning about the loop -/

section Hops

variable {env : Env} {c : Contract Call Call.Answer} {request : ForwardRequest}
  {I : List String → String → History → Prop} {J : List String → History → Prop}
  {Q : History → Response → Prop}

/-- What is left to show once an attempt ended in `upstream`, the history being `h`:
the loop looks for another target with `J`, or ends with a response for which `Q`
holds. -/
def AfterAttempt (env : Env) (method : Method) (J : History → Prop)
    (Q : History → Response → Prop) (h : History) : Upstream → Prop
  | .served response => Q h response
  | .notLeader _ => J h
  | .notSent => J h
  | .ambiguousTransport => if methodIsReplaySafe method then J h else Q h (ambiguousResponse env)
  | .responseTooLarge => Q h (responseTooLargeResponse env)

/-- **The obligations of the retry loop.**  `I attempted target` holds when `target` is
about to be attempted, `J attempted` when the loop looks for the next target; each
field is one step of the loop. -/
structure Hops (env : Env) (c : Contract Call Call.Answer) (request : ForwardRequest)
    (I : List String → String → History → Prop) (J : List String → History → Prop)
    (Q : History → Response → Prop) : Prop where
  record : ∀ {attempted target h}, I attempted target h →
    c.guarantee h (.recordRegionRequest target) ∧
      I attempted target (h ++ [⟨.recordRegionRequest target, ()⟩])
  attempt : ∀ {attempted target h}, I attempted target h → attempted.length < maxHops →
    c.guarantee h (.forwardOnce (request.attempt target)) ∧
      ∀ reply : Reply, c.rely h (.forwardOnce (request.attempt target)) reply →
        AfterAttempt env request.method (J (target :: attempted)) Q
          (h ++ [⟨.forwardOnce (request.attempt target), reply⟩])
          (outcome env (request.attempt target) reply)
  hint : ∀ {attempted h}, J attempted h → ∀ leader,
    (∀ shard, request.shard = some shard → c.guarantee h (.acceptLeaderHint shard leader) ∧
      ∀ answer : Option String, c.rely h (.acceptLeaderHint shard leader) answer →
        J attempted (h ++ [⟨.acceptLeaderHint shard leader, answer⟩]) ∧
          ∀ target ∉ attempted, answer = some target →
            I attempted target (h ++ [⟨.acceptLeaderHint shard leader, answer⟩])) ∧
    (request.shard = none → c.guarantee h (.validateNodeHint leader) ∧
      ∀ answer : Option String, c.rely h (.validateNodeHint leader) answer →
        J attempted (h ++ [⟨.validateNodeHint leader, answer⟩]) ∧
          ∀ target ∉ attempted, answer = some target →
            I attempted target (h ++ [⟨.validateNodeHint leader, answer⟩]))
  retry : ∀ {attempted h}, J attempted h → c.guarantee h (.anyNodeExcluding attempted) ∧
    ∀ answer : Option String, c.rely h (.anyNodeExcluding attempted) answer →
      (∀ target, answer = some target →
        I attempted target (h ++ [⟨.anyNodeExcluding attempted, answer⟩])) ∧
      (answer = none → Q (h ++ [⟨.anyNodeExcluding attempted, answer⟩]) (noLeaderResponse env))
  exhausted : ∀ {attempted target h}, I attempted target h → attempted.length = maxHops →
    Q h (noLeaderResponse env)

theorem wp_forwardOnce {α : Type} {a : Attempt} {f : Upstream → Task α}
    {Q : History → α → Prop} {h : History} :
    (forwardOnce env a >>= f).wp c Q h ↔ c.guarantee h (.forwardOnce a) ∧
      ∀ reply : Reply, c.rely h (.forwardOnce a) reply →
        (f (outcome env a reply)).wp c Q (h ++ [⟨.forwardOnce a, reply⟩]) := Iff.rfl

/-- What follows an attempt, given what its two continuations do. -/
theorem wp_afterAttempt (hops : Hops env c request I J Q) {attempted : List String}
    {retry : Task Response} {follow : String → Task Response} {h : History}
    (hretry : ∀ {h'}, J attempted h' → retry.wp c Q h')
    (hfollow : ∀ {target h'}, I attempted target h' → (follow target).wp c Q h')
    {upstream : Upstream} (hafter : AfterAttempt env request.method (J attempted) Q h upstream) :
    (afterAttempt env request attempted retry follow upstream).wp c Q h := by
  -- a hint is followed to a target not attempted yet, and retried otherwise
  have hanswer : ∀ {h'} {answer : Option String}, J attempted h' →
      (∀ target ∉ attempted, answer = some target → I attempted target h') →
      (match answer with
        | some target => if target ∈ attempted then retry else follow target
        | none => retry).wp c Q h' := by
    intro h' answer hJ hI
    cases answer with
    | none => exact hretry hJ
    | some target =>
      dsimp only
      split
      · exact hretry hJ
      · exact hfollow (hI target ‹_› rfl)
  cases upstream with
  | served response => exact hafter
  | notSent => exact hretry hafter
  | responseTooLarge => exact hafter
  | ambiguousTransport =>
    rw [AfterAttempt] at hafter
    rw [afterAttempt]
    split at hafter
    · rw [if_pos ‹_›]
      exact hretry hafter
    · rw [if_neg ‹_›]
      exact hafter
  | notLeader leader =>
    cases leader with
    | none => exact hretry hafter
    | some leader =>
      obtain ⟨hkeyed, hkeyless⟩ := hops.hint hafter leader
      rw [afterAttempt]
      cases hshard : request.shard with
      | some shard =>
        obtain ⟨hg, hk⟩ := hkeyed shard hshard
        exact ⟨hg, fun answer hr => hanswer (hk answer hr).1 (hk answer hr).2⟩
      | none =>
        obtain ⟨hg, hk⟩ := hkeyless hshard
        exact ⟨hg, fun answer hr => hanswer (hk answer hr).1 (hk answer hr).2⟩

/-- **The rule of the retry loop.** -/
theorem wp_forwardLoop (hops : Hops env c request I J Q) {n : ℕ} {attempted : List String}
    {target : String} {h : History} (hn : attempted.length + n = maxHops)
    (hI : I attempted target h) : (forwardLoop env request n attempted target).wp c Q h := by
  induction n generalizing attempted target h with
  | zero => exact hops.exhausted hI hn
  | succ n ih =>
    have hlen : (target :: attempted).length + n = maxHops := by
      rw [List.length_cons]
      omega
    obtain ⟨hrecord, hI'⟩ := hops.record hI
    obtain ⟨hattempt, hreply⟩ := hops.attempt hI' (by omega)
    rw [forwardLoop]
    refine ⟨hrecord, fun _ _ => wp_forwardOnce.2 ⟨hattempt, fun reply hr => ?_⟩⟩
    refine wp_afterAttempt hops (fun hJ => ?_) (fun hI => ih hlen hI) (hreply reply hr)
    obtain ⟨hg, hk⟩ := hops.retry hJ
    refine ⟨hg, fun answer hr => ?_⟩
    obtain ⟨hsome, hnone⟩ := hk answer hr
    cases answer with
    | some next => exact ih hlen (hsome next rfl)
    | none => exact hnone rfl

/-- The rule for the whole of `forward_with_redirect`. -/
theorem wp_forwardWithRedirect (hops : Hops env c request I J Q) {h : History}
    (hI : I [] request.target h) : (forwardWithRedirect env request).wp c Q h :=
  wp_forwardLoop hops (by simp) hI

end Hops

end Proxy

end LoadBalance
