import FiduciaLoadBalance.Concurrency.Cost
import FiduciaLoadBalance.Proxy.Protocol
import FiduciaLoadBalance.Proxy.Simulation

/-!
# What a request may cost

A request is attempted a few times and no more, and each attempt is cut off: so a request that
claimed a key is over long before its lease is.

* `route_within` — the budget of a request, in attempts and critical sections of the table;
* `allowance` — how long a call may take;
* `lease_outlasts` — a mutation with a key is over before a lease granted on the way lapses.
-/

namespace LoadBalance

open Http Text Conc

namespace Proxy

/-! ## The budget of a request -/

section

variable {env : Env} {shardCount : ℕ} {request : Request} {f : Call → ℕ} {t a : ℕ}

theorem redirectedLeaderTarget_within (htable : ∀ e : Call, e.IsTable → f e ≤ t)
    (shard : Option ShardId) (leader : String) :
    (redirectedLeaderTarget shard leader).Within f t := by
  cases shard with
  | none => exact Proc.within_perform (htable _ trivial)
  | some shard => exact Proc.within_perform (htable _ trivial)

/-- What follows an attempt: one call on the table, and then what either way costs. -/
theorem afterAttempt_within {request : ForwardRequest} {attempted : List String}
    {retry : Task Response} {follow : String → Task Response} {b : ℕ}
    (htable : ∀ e : Call, e.IsTable → f e ≤ t) (hretry : retry.Within f b)
    (hfollow : ∀ target, (follow target).Within f b) (upstream : Upstream) :
    (afterAttempt env request attempted retry follow upstream).Within f (t + b) := by
  have hagain : retry.Within f (t + b) := hretry.mono (Nat.le_add_left b t)
  cases upstream with
  | served response => trivial
  | responseTooLarge => trivial
  | notSent => exact hagain
  | ambiguousTransport =>
    rw [afterAttempt]
    split
    · exact hagain
    · trivial
  | notLeader leader =>
    cases leader with
    | none => exact hagain
    | some leader =>
      refine Proc.within_bind (redirectedLeaderTarget_within htable _ _) ?_
      intro answer
      cases answer with
      | none => exact hretry
      | some next =>
        dsimp only
        split
        · exact hretry
        · exact hfollow next

/-- The retry loop: at each hop one attempt, and three calls on the table at most. -/
theorem forwardLoop_within {request : ForwardRequest} (htable : ∀ e : Call, e.IsTable → f e ≤ t)
    (hattempt : ∀ nodeUrl, f (.forwardOnce (request.attempt nodeUrl)) ≤ a) (n : ℕ)
    (attempted : List String) (target : String) :
    (forwardLoop env request n attempted target).Within f (n * (3 * t + a)) := by
  induction n generalizing attempted target with
  | zero => trivial
  | succ n ih =>
    have hsplit : (n + 1) * (3 * t + a) = t + (a + (t + (t + n * (3 * t + a)))) := by
      rw [Nat.succ_mul]
      omega
    rw [forwardLoop, hsplit]
    refine Proc.within_bind (Proc.within_perform (htable _ trivial)) ?_
    intro _
    refine Proc.within_bind (Proc.within_bind (b := 0) (Proc.within_perform (hattempt target))
      fun _ => trivial) ?_
    intro upstream
    refine afterAttempt_within htable ?_ ?_ upstream
    · refine Proc.within_bind (Proc.within_perform (htable _ trivial)) ?_
      intro answer
      cases answer with
      | none => trivial
      | some next => exact ih _ next
    · intro next
      exact (ih _ next).mono (Nat.le_add_left _ t)

/-- One request: four attempts, and thirteen calls on the table at most. -/
theorem send_within (htable : ∀ e : Call, e.IsTable → f e ≤ t)
    (hattempt : ∀ nodeUrl, f (.forwardOnce (request.attempt nodeUrl)) ≤ a) :
    (routeWithoutCustomerIdempotency env shardCount request).Within f (13 * t + 4 * a) := by
  have hsplit : 13 * t + 4 * a = t + maxHops * (3 * t + a) := by
    rw [maxHops]
    omega
  rw [routeWithoutCustomerIdempotency, hsplit]
  refine Proc.within_bind ?_ ?_
  · unfold firstTarget
    split
    · exact Proc.within_perform (htable _ trivial)
    · exact Proc.within_perform (htable _ trivial)
  · intro answer
    cases answer with
    | none => trivial
    | some target => exact forwardLoop_within htable hattempt maxHops [] target

/-- The requests of the protocol. -/
def IsStep (uri : Uri) : Prop := uri = claimUri ∨ uri = completeUri ∨ uri = abandonUri

/-- The step after the mutation is one request. -/
theorem settle_within {idempotency : CustomerIdempotency} {fencingToken : UInt64} {b : ℕ}
    (hstep : ∀ uri body, IsStep uri → (routeWithoutCustomerIdempotency env shardCount
      (internalRequest env request.identity uri body)).Within f b) (response : Response) :
    (settleCustomerIdempotency env shardCount request idempotency fencingToken
      response).Within f b := by
  have hcomplete := fun body => hstep completeUri body (Or.inr (Or.inl rfl))
  have habandon := fun body => hstep abandonUri body (Or.inr (Or.inr rfl))
  rw [settleCustomerIdempotency]
  split
  · exact Proc.within_bind (b := 0) (Proc.within_bind (b := 0) (habandon _) fun _ => trivial)
      fun _ => trivial
  · split
    · exact Proc.within_bind (b := 0) (Proc.within_bind (b := 0) (habandon _) fun _ => trivial)
        fun _ => trivial
    · exact Proc.within_bind (b := 0) (Proc.within_bind (b := 0) (hcomplete _) fun _ => trivial)
        fun _ => trivial

/-- **The budget of a request**: with a key it is sent between two requests of the protocol. -/
theorem route_within {b : ℕ} (htable : ∀ e : Call, e.IsTable → f e ≤ t)
    (hattempt : ∀ nodeUrl, f (.forwardOnce (request.attempt nodeUrl)) ≤ a)
    (hinternal : ∀ idempotency, CustomerIdempotency.fromRequest env request.identity request.method
      request.uri request.headers request.body = .ok (some idempotency) →
        ∀ uri body nodeUrl, IsStep uri →
          f (.forwardOnce ((internalRequest env request.identity uri body).attempt nodeUrl)) ≤ b) :
    (route env shardCount request).Within f (39 * t + (4 * a + 8 * b)) := by
  have hsend : (routeWithoutCustomerIdempotency env shardCount request).Within f
      (13 * t + 4 * a) := send_within htable hattempt
  rw [route]
  split
  · trivial
  split
  · trivial
  split
  · trivial
  · split
    · trivial
    · exact hsend.mono (by omega)
  · rename_i idempotency hkey
    have hstep : ∀ uri body, IsStep uri → (routeWithoutCustomerIdempotency env shardCount
        (internalRequest env request.identity uri body)).Within f (13 * t + 4 * b) :=
      fun uri body huri => send_within htable fun nodeUrl =>
        hinternal idempotency hkey uri body nodeUrl huri
    have hsplit : 39 * t + (4 * a + 8 * b) =
        (13 * t + 4 * b) + ((13 * t + 4 * a) + (13 * t + 4 * b)) := by omega
    rw [routeWithCustomerIdempotency, hsplit]
    refine Proc.within_bind
      (Proc.within_bind (b := 0) (hstep claimUri _ (Or.inl rfl)) fun _ => trivial) ?_
    intro claim
    split
    · trivial
    split
    · trivial
    split
    · trivial
    · exact Proc.within_bind hsend fun response => settle_within hstep response

/-! ## Attempts and time -/

/-- Is this call an attempt, and one of these? -/
def countsAttempt (which : Attempt → Bool) : Call → ℕ
  | .forwardOnce a => if which a then 1 else 0
  | _ => 0

theorem cost_countsAttempt (env : Env) (which : Attempt → Bool) (h : History) :
    cost (countsAttempt which) h = (attemptsOf env h).countP fun p => which p.1 := by
  induction h with
  | nil => rfl
  | cons ev h ih =>
    rw [cost_cons, ih, ← List.singleton_append, attemptsOf_append, List.countP_append]
    obtain ⟨e, r⟩ := ev
    cases e with
    | forwardOnce a => simp [countsAttempt, List.countP_cons]
    | _ => rfl

theorem countsAttempt_table (which : Attempt → Bool) (e : Call) (he : e.IsTable) :
    countsAttempt which e ≤ 0 := by
  cases e with
  | forwardOnce a => exact he.elim
  | _ => exact le_rfl

theorem countsAttempt_le (which : Attempt → Bool) (a : Attempt) :
    countsAttempt which (.forwardOnce a) ≤ 1 := by
  show (if which a then 1 else 0) ≤ 1
  split <;> decide

/-- The timeout of the client that forwards requests, bodies included. -/
def requestTimeoutMs : ℕ := 5 * 1000

/-- The timeout of what is no event stream, where one was asked for: for the headers, and again
for the body. -/
def streamNonBodyTimeoutMs : ℕ := 5 * 1000

/-- How long a call may take, in milliseconds, if one on the table takes `tableMs` at most. -/
def allowance (tableMs : ℕ) : Call → ℕ
  | .forwardOnce a =>
    if isStreamingRequest a.method a.uri a.headers then
      streamNonBodyTimeoutMs + streamNonBodyTimeoutMs
    else requestTimeoutMs
  | _ => tableMs

theorem allowance_table (tableMs : ℕ) (e : Call) (he : e.IsTable) :
    allowance tableMs e ≤ tableMs := by
  cases e with
  | forwardOnce a => exact he.elim
  | _ => exact le_rfl

/-- Only a `GET` can ask for an event stream. -/
theorem not_streaming {method : Method} (hmethod : method ≠ .get) (uri : Uri)
    (headers : HeaderMap) : isStreamingRequest method uri headers = false := by
  rw [isStreamingRequest, if_pos hmethod]

theorem streaming_of_prepare {env : Env} {a : Attempt} {sent : WireRequest}
    (h : prepare env a = .send sent) :
    sent.streaming = isStreamingRequest a.method a.uri a.headers := by
  unfold prepare at h
  split at h
  · exact absurd h (by simp)
  split at h
  · exact absurd h (by simp)
  split at h
  · exact absurd h (by simp)
  · obtain rfl := Prepared.send.inj h
    rfl

theorem ne_get_of_key {method : Method} (h : methodSupportsCustomerIdempotency method = true) :
    method ≠ .get := by
  rintro rfl
  exact absurd h (by decide)

theorem allowance_le {tableMs : ℕ} {a : Attempt} (hmethod : a.method ≠ .get) :
    allowance tableMs (.forwardOnce a) ≤ requestTimeoutMs := by
  rw [allowance, not_streaming hmethod, if_neg (by simp)]

end

section

variable {env : Env} {shardCount : ℕ} {request : Request} {idempotency : CustomerIdempotency}
  {tr : History} {q : Task Response}

/-- What a task with a key sends, none of it asks for a stream. -/
theorem not_get_of_key (hkey : CustomerIdempotency.fromRequest env request.identity request.method
      request.uri request.headers request.body = .ok (some idempotency))
    (hrun : (route env shardCount request).Steps tr q) :
    ∀ p ∈ attemptsOf env tr, p.1.method ≠ .get := by
  have hmethod := ne_get_of_key (mutates_of_fromRequest hkey).1
  intro p hp
  obtain ⟨pre, reply, post, hsplit, -⟩ := mem_attemptsOf hp
  obtain ⟨-, hform⟩ := Proc.wp_guarantee wp_route_mediated hrun
    (Contract.along_iff.2 fun _ _ _ _ => trivial) hsplit
  rcases hform p.1 rfl with ⟨-, hpost, -⟩ | hown
  · rw [hpost]
    decide
  · rw [hown]
    exact hmethod

/-- A request is attempted four times at most. -/
theorem own_attempts_le (hrun : (route env shardCount request).Steps tr q) :
    (attemptsOf env tr).countP (fun p => p.1 = request.attempt p.1.nodeUrl) ≤ maxHops := by
  rw [← cost_countsAttempt env fun a => a = request.attempt a.nodeUrl]
  refine Proc.cost_le_of_steps (route_within (t := 0) (a := 1) (b := 0)
    (countsAttempt_table _) (fun _ => countsAttempt_le _ _) ?_) hrun
  intro idempotency hkey uri body nodeUrl huri
  -- a request of the protocol is not the client's own
  have hprimitive : isIdempotencyPrimitive uri = true := by
    rcases huri with rfl | rfl | rfl
    · exact claimUri_primitive
    · exact completeUri_primitive
    · exact abandonUri_primitive
  have hne : (internalRequest env request.identity uri body).attempt nodeUrl ≠
      request.attempt nodeUrl := by
    intro heq
    have hsame : uri = request.uri := congrArg Attempt.uri heq
    rw [hsame, (mutates_of_fromRequest hkey).2] at hprimitive
    exact absurd hprimitive (by simp)
  refine (if_neg ?_).le
  rw [decide_eq_true_eq]
  exact hne

/-- With what its key takes, twelve attempts at most are made for a request. -/
theorem attempts_le (hrun : (route env shardCount request).Steps tr q) :
    (attemptsOf env tr).length ≤ 3 * maxHops := by
  have hcount := cost_countsAttempt env (fun _ => true) tr
  rw [List.countP_true] at hcount
  rw [← hcount]
  exact Proc.cost_le_of_steps (route_within (t := 0) (a := 1) (b := 1) (countsAttempt_table _)
    (fun _ => countsAttempt_le _ _) fun _ _ _ _ _ _ => countsAttempt_le _ _) hrun

/-- A mutation with a key takes twelve timeouts at most, and what the table takes. -/
theorem elapsed_le {tableMs t t' : ℕ}
    (hkey : CustomerIdempotency.fromRequest env request.identity request.method request.uri
      request.headers request.body = .ok (some idempotency))
    (hrun : (route env shardCount request).Steps tr q)
    (htimed : Timed (allowance tableMs) t tr t') :
    t' ≤ t + (39 * tableMs + 12 * requestTimeoutMs) := by
  have hmethod := ne_get_of_key (mutates_of_fromRequest hkey).1
  have hpost : Method.post ≠ .get := by decide
  have hcost := Proc.cost_le_of_steps (route_within (t := tableMs) (a := requestTimeoutMs)
    (b := requestTimeoutMs) (allowance_table tableMs) (fun _ => allowance_le hmethod)
    fun _ _ _ _ _ _ => allowance_le hpost) hrun
  have htime := htimed.le.2
  omega

end

/-- **A mutation with a key is over before its lease.**  In every run of the balancer: a
request is attempted at most four times, and with the steps of the protocol that a key takes,
at most twelve attempts are made for it.  With a key, none of them asks for a stream, so each is
cut off by the client's timeout; and if the table is never held for more than a second, the
task is over before a lease lapses that a node granted since the task began. -/
theorem lease_outlasts (env : Env) (shardCount : ℕ) {N : Type} (U : Upstreams N)
    (admits : Request → Prop) {s₀ : World N} {h : List (WorldMoment N)}
    {c : Config Call Call.Answer Response (World N)}
    (hrun : (balancer env shardCount U admits).Run s₀ h c) {i : ℕ} {request : Request}
    (hst : Machine.Started h i (route env shardCount request)) :
    (attemptsOf env (Machine.own i h)).countP (fun p => p.1 = request.attempt p.1.nodeUrl) ≤ 4 ∧
    (attemptsOf env (Machine.own i h)).length ≤ 12 ∧
    ∀ idempotency, CustomerIdempotency.fromRequest env request.identity request.method request.uri
      request.headers request.body = .ok (some idempotency) →
        (∀ p ∈ attemptsOf env (Machine.own i h), ∀ sent, prepare env p.1 = .send sent →
          sent.streaming = false) ∧
        ∀ tableMs ≤ 1000, ∀ t granted t', Timed (allowance tableMs) t (Machine.own i h) t' →
          t ≤ granted → t' < granted + customerInflightLeaseMs.toNat := by
  obtain ⟨q, hsteps, -⟩ := hrun.own_steps hst
  refine ⟨own_attempts_le hsteps, attempts_le hsteps, ?_⟩
  intro idempotency hkey
  refine ⟨?_, ?_⟩
  · intro p hp sent hsent
    have hstreaming := streaming_of_prepare hsent
    rw [hstreaming]
    exact not_streaming (not_get_of_key hkey hsteps p hp) _ _
  · intro tableMs hle t granted t' htimed hgranted
    have htime := elapsed_le hkey hsteps htimed
    have hlease : customerInflightLeaseMs.toNat = 120000 := by decide
    rw [requestTimeoutMs] at htime
    omega

/-- The request with a key, played to its end. -/
theorem lease_outlasts_put : ∃ h c, Sample.Cluster.Run Sample.world h c ∧ (c.result 0).isSome ∧
    ∀ t t', Timed (allowance 1000) t (Machine.own 0 h) t' → t' < t + 120000 := by
  obtain ⟨h₁, c₁, h₂, c₂, hplay₁, hplay₂, hfound⟩ := Sample.driver.exists_play
    (.initial Sample.world) [] (Sample.first []) (fun _ _ _ c₂ => (c₂.result 0).isSome)
    (by decide +kernel)
  have hrun : Sample.Cluster.Run Sample.world (h₁ ++ h₂) c₂ :=
    Sample.driver.run_of_play (Sample.driver.run_of_play .init hplay₁) hplay₂
  have hnext : c₁.next = 0 := by
    obtain ⟨rfl, rfl⟩ := Prod.mk.inj (Option.some.inj hplay₁)
    rfl
  have hst := Sample.driver.started_of_play hplay₂ rfl
  rw [hnext] at hst
  obtain ⟨-, -, hkeyed⟩ := lease_outlasts Reference.env 1 _ _ hrun
    (Machine.started_append.2 (Or.inr hst))
  have hkey := Sample.fromRequest_put []
  refine ⟨_, c₂, hrun, hfound, ?_⟩
  intro t t' htimed
  exact (hkeyed _ hkey).2 1000 le_rfl t t t' htimed le_rfl

end Proxy

end LoadBalance
