import FiduciaLoadBalance.Proxy.Duplicate
import FiduciaLoadBalance.Proxy.Membership

/-!
# Readiness

A balancer that knows no route is alive and of no use: it can only answer that it has no
route.  So it is not ready before its table is hydrated, and the platform sends it nothing.

* `readinessResponse` — what `/readyz` answers;
* `Serves` — what holds of the table at every moment of a run: with nodes, every shard has a
  leader, and without there is none;
* `refusal` — what a request is answered without the table being asked;
* `ready_routes` — a balancer that was ready attempts every request that it does not refuse,
  and one that is not ready has attempted none.
-/

namespace LoadBalance

open Http Text Conc Machine

namespace RouteTable

/-! ## The table -/

/-- With nodes every shard has a leader, and without nodes there are no leaders. -/
structure Serves (shardCount : ℕ) (t : RouteTable) : Prop where
  count : t.shardCount = shardCount
  none : t.nodes = [] → t.leaders = ∅
  all : t.nodes ≠ [] → ∀ shard : ShardId, shard < shardCount → shard ∈ t.leaders

section

variable {env : Env} {shardCount : ℕ} {t : RouteTable}

theorem Serves.new (env : Env) (shardCount : ℕ) (seeds : List String) :
    (RouteTable.new env shardCount seeds).Serves shardCount := by
  have hinv := Inv.new env shardCount seeds
  exact ⟨rfl, hinv.leaders_empty, fun hne shard => (hinv.leaders_total hne shard).2⟩

theorem Serves.acceptLeaderHint (ht : t.Serves shardCount) (env : Env) (shard : ShardId)
    (hint : String) (now : Instant) :
    (t.acceptLeaderHint env shard hint now).2.Serves shardCount := by
  rcases acceptLeaderHint_cases env t shard hint now with h | ⟨known, hknown, h⟩
  · rw [h]
    exact ht
  · rw [h]
    have hne : t.nodes ≠ [] := List.ne_nil_of_mem hknown
    refine ⟨ht.count, fun h => absurd h hne, ?_⟩
    intro _ other hlt
    exact (TreeMap.mem_insert_iff ..).2 (Or.inr (ht.all hne other hlt))

theorem Serves.applyBrainSnapshotAt (ht : t.Serves shardCount) (env : Env)
    (nodes : List BrainNode) (shards : List BrainShard) (fetchedAt : Instant) :
    (t.applyBrainSnapshotAt env nodes shards fetchedAt).2.Serves shardCount := by
  rcases applyBrainSnapshotAt_cases env t nodes shards fetchedAt with
    h | ⟨ids, metadata, leaders, -, hids, hplaced, hsize, h⟩
  · rw [h]
    exact ht
  · rw [h]
    refine ⟨ht.count, fun h => absurd h (snapshot_nodes_ne_nil hids), ?_⟩
    intro _ shard hlt
    have hplace : ∀ shard ∈ leaders, shard < t.shardCount := by
      intro s hs
      obtain ⟨u, hu⟩ := Option.isSome_iff_exists.1 (Std.ExtTreeMap.mem_iff_isSome_getElem?.1 hs)
      exact (hplaced s u hu).1
    have hmem := (mem_of_size_eq hplace hsize).2 (ht.count ▸ hlt)
    rw [Std.ExtTreeMap.mem_iff_isSome_getElem?] at hmem ⊢
    rw [getElem?_keepHinted, Option.isSome_or, hmem, Bool.or_true]

theorem Serves.isHydrated_iff (ht : t.Serves shardCount) (hpos : 0 < shardCount) :
    t.isHydrated ↔ t.nodes ≠ [] := by
  rw [RouteTable.isHydrated_iff]
  constructor
  · exact fun h hnil => h (ht.none hnil)
  · intro hne hempty
    have hzero := ht.all hne 0 hpos
    rw [hempty] at hzero
    exact absurd hzero (by simp)

theorem Serves.leaderFor_isSome (ht : t.Serves shardCount) (hne : t.nodes ≠ []) {shard : ShardId}
    (hlt : shard < shardCount) : (t.leaderFor shard).isSome :=
  Std.ExtTreeMap.mem_iff_isSome_getElem?.1 (ht.all hne shard hlt)

theorem Serves.leaderFor_eq_none (ht : t.Serves shardCount) (hnil : t.nodes = [])
    (shard : ShardId) : t.leaderFor shard = Option.none := by
  rw [leaderFor, ht.none hnil]
  simp

end

end RouteTable

namespace Proxy

section

variable {env : Env} {shardCount : ℕ} {N : Type} {U : Upstreams N} {admits : Request → Prop}
  {s₀ : World N} {h : List (WorldMoment N)} {c : Config Call Call.Answer Response (World N)}
  {m : WorldMoment N} {i : ℕ}

theorem TableStep.serves {t t' : RouteTable} {e : Call} {r : e.Answer}
    (h : TableStep env t e r t') (ht : t.Serves shardCount) : t'.Serves shardCount := by
  cases h with
  | acceptLeaderHint shard nodeUrl now => exact ht.acceptLeaderHint env shard nodeUrl now
  | anyNodeExcluding excluded =>
    obtain ⟨c, h, -⟩ := RouteTable.anyNodeExcluding_cases t excluded
    rw [h]
    exact ⟨ht.count, ht.none, ht.all⟩
  | recordRegionRequest nodeUrl => exact ⟨ht.count, ht.none, ht.all⟩
  | _ => exact ht

theorem keeps_serves : (balancer env shardCount U admits).Keeps
    (fun w => w.table.Serves shardCount) where
  exec := by
    rintro i w e r w' hw (ht | _)
    · exact ht.serves hw
    · exact hw
  env := by
    rintro w w' hw (⟨nodes, shards, fetchedAt⟩ | _)
    · exact hw.applyBrainSnapshotAt env nodes shards fetchedAt
    · exact hw
  drop := by
    rintro i p w w' hw (_ | _)
    · exact hw
    · exact hw

/-- **Nodes, once known, are never all forgotten.** -/
theorem nodes_ne_nil_of_allowed (hm : (balancer env shardCount U admits).Allowed m)
    (hne : m.before.table.nodes ≠ []) : m.after.table.nodes ≠ [] := by
  obtain ⟨label, before, after⟩ := m
  cases label with
  | start j p =>
    obtain rfl : after = before := hm.2
    exact hne
  | answer j ev =>
    obtain ⟨e, r⟩ := ev
    have hexec : Exec env U j before e r after := hm
    cases hexec with
    | table ht => exact ht.nodes.1 ▸ hne
    | attempt _ => exact hne
  | env =>
    have harrives : Arrives env U before after := hm
    cases harrives with
    | nodes _ => exact hne
    | snapshot nodes shards fetchedAt =>
      exact RouteTable.nodes_apply_ne_nil hne (.applyBrainSnapshotAt nodes shards fetchedAt)
  | drop j =>
    obtain ⟨p, hdrop⟩ := hm
    have hcancels : Cancels U j p before after := hdrop
    cases hcancels with
    | still _ _ => exact hne
    | attempt _ => exact hne

theorem nodes_ne_nil_since {pre post : List (WorldMoment N)}
    (hrun : (balancer env shardCount U admits).Run s₀ (pre ++ m :: post) c)
    (hne : m.before.table.nodes ≠ []) :
    (∀ m' ∈ post, m'.before.table.nodes ≠ []) ∧ c.shared.table.nodes ≠ [] := by
  rw [← List.singleton_append, ← List.append_assoc] at hrun
  refine hrun.since (P := fun w => w.table.nodes ≠ []) ?_ ?_
  · intro c' hrun'
    obtain ⟨c₁, -, hstep⟩ := hrun'.of_concat
    rw [← hstep.after]
    exact nodes_ne_nil_of_allowed hstep.allowed hne
  · exact fun m' _ hallowed => nodes_ne_nil_of_allowed hallowed

end

/-! ## What a request comes to -/

/-- The answer to a request that is refused before the table is asked. -/
def refusal (env : Env) (request : Request) : Option Response :=
  if pathHasDotSegment request.uri.path then some (dotSegmentResponse env request.uri)
  else
    match authorizeRoute request.identity request.method request.uri with
    | some required =>
      some (insufficientScopeResponse env request.method request.uri required)
    | none =>
      match CustomerIdempotency.fromRequest env request.identity request.method request.uri
          request.headers request.body with
      | .error response => some response
      | .ok none =>
        if request.identity.any (·.requireIdempotency) &&
            methodSupportsCustomerIdempotency request.method &&
            !isIdempotencyPrimitive request.uri then
          some (idempotencyKeyRequired env request.method request.uri)
        else none
      | .ok (some _) => none

section

variable {env : Env} {shardCount : ℕ} {request : Request} {idempotency : CustomerIdempotency}
  {c : Contract Call Call.Answer} {h : History}

theorem route_of_refusal {response : Response} (hrefusal : refusal env request = some response) :
    route env shardCount request = .done response := by
  unfold refusal at hrefusal
  unfold route
  by_cases hdot : pathHasDotSegment request.uri.path = true
  · rw [if_pos hdot] at hrefusal ⊢
    exact congrArg _ (Option.some.inj hrefusal)
  rw [if_neg hdot] at hrefusal ⊢
  cases hauth : authorizeRoute request.identity request.method request.uri with
  | some required =>
    rw [hauth] at hrefusal
    exact congrArg _ (Option.some.inj hrefusal)
  | none =>
    rw [hauth] at hrefusal
    dsimp only at hrefusal ⊢
    rcases hkey : CustomerIdempotency.fromRequest env request.identity request.method request.uri
      request.headers request.body with error | (_ | idempotency)
    · rw [hkey] at hrefusal
      exact congrArg _ (Option.some.inj hrefusal)
    · rw [hkey] at hrefusal
      dsimp only at hrefusal ⊢
      split at hrefusal
      · rw [if_pos ‹_›]
        exact congrArg _ (Option.some.inj hrefusal)
      · exact absurd hrefusal (by simp)
    · rw [hkey] at hrefusal
      exact absurd hrefusal (by simp)

/-- A request that is not refused is sent, or its key is claimed first. -/
theorem route_of_no_refusal (shardCount : ℕ) (hrefusal : refusal env request = none) :
    route env shardCount request = routeWithoutCustomerIdempotency env shardCount request ∨
      ∃ idempotency, route env shardCount request =
        routeWithCustomerIdempotency env shardCount request idempotency := by
  unfold refusal at hrefusal
  unfold route
  by_cases hdot : pathHasDotSegment request.uri.path = true
  · rw [if_pos hdot] at hrefusal
    exact absurd hrefusal (by simp)
  rw [if_neg hdot] at hrefusal ⊢
  cases hauth : authorizeRoute request.identity request.method request.uri with
  | some required =>
    rw [hauth] at hrefusal
    exact absurd hrefusal (by simp)
  | none =>
    rw [hauth] at hrefusal
    dsimp only at hrefusal ⊢
    rcases hkey : CustomerIdempotency.fromRequest env request.identity request.method request.uri
      request.headers request.body with error | (_ | idempotency)
    · rw [hkey] at hrefusal
      exact absurd hrefusal (by simp)
    · rw [hkey] at hrefusal
      dsimp only at hrefusal ⊢
      split at hrefusal
      · exact absurd hrefusal (by simp)
      · rw [if_neg ‹_›]
        exact Or.inl rfl
    · exact Or.inr ⟨idempotency, rfl⟩

/-! ## Where the table knows nodes -/

/-- The outside, where the table knows a node for whatever it is asked. -/
def serving (shardCount : ℕ) : Contract Call Call.Answer where
  rely _ e r :=
    match e, r with
    | .leaderFor shard, answer => shard < shardCount → answer ≠ none
    | .anyNodeExcluding excluded, answer => excluded = [] → answer ≠ none
    | _, _ => True
  guarantee _ _ := True

theorem attempted_concat (ev : TaskEvent) (hne : attemptsOf env h ≠ []) :
    attemptsOf env (h ++ [ev]) ≠ [] := by
  rw [attemptsOf_append]
  exact List.append_ne_nil_of_left_ne_nil hne _

/-- A request that is sent is attempted. -/
theorem wp_send_serving (hshard : ∀ shard, request.shard env shardCount = some shard →
    shard < shardCount) : (routeWithoutCustomerIdempotency env shardCount request).wp
      (serving shardCount) (fun h' _ => attemptsOf env h' ≠ []) h := by
  have hops : ∀ target, Hops env (serving shardCount) (request.forward env shardCount target)
      (fun attempted _ h' => attempted ≠ [] → attemptsOf env h' ≠ [])
      (fun _ h' => attemptsOf env h' ≠ []) (fun h' _ => attemptsOf env h' ≠ []) := by
    intro target
    refine ⟨?_, ?_, ?_, ?_, ?_⟩
    · intro attempted target h' hI
      exact ⟨trivial, fun hne => attempted_concat _ (hI hne)⟩
    · intro attempted target h' _ _
      refine ⟨trivial, ?_⟩
      intro reply _
      have hone : attemptsOf env (h' ++ [⟨.forwardOnce (request.attempt target), reply⟩]) ≠ [] := by
        rw [attemptsOf_append, attemptsOf_attempt]
        simp
      rw [forward_attempt]
      cases outcome env (request.attempt target) reply with
      | ambiguousTransport =>
        rw [AfterAttempt]
        split <;> exact hone
      | _ => exact hone
    · intro attempted h' hJ leader
      exact ⟨fun shard _ => ⟨trivial, fun answer _ =>
          ⟨attempted_concat _ hJ, fun _ _ _ _ => attempted_concat _ hJ⟩⟩,
        fun _ => ⟨trivial, fun answer _ =>
          ⟨attempted_concat _ hJ, fun _ _ _ _ => attempted_concat _ hJ⟩⟩⟩
    · intro attempted h' hJ
      exact ⟨trivial, fun answer _ =>
        ⟨fun _ _ _ => attempted_concat _ hJ, fun _ => attempted_concat _ hJ⟩⟩
    · intro attempted target h' hI hlength
      exact hI (List.ne_nil_of_length_pos (by rw [hlength]; decide))
  apply wp_routeWithoutCustomerIdempotency hops
  · intro shard hkey
    refine ⟨trivial, ?_⟩
    intro answer hr
    exact ⟨fun _ _ hne => absurd rfl hne, fun hnone => absurd hnone (hr (hshard shard hkey))⟩
  · intro _
    refine ⟨trivial, ?_⟩
    intro answer hr
    exact ⟨fun _ _ hne => absurd rfl hne, fun hnone => absurd hnone (hr rfl)⟩

/-- **A request that is not refused is attempted**, where the table knows nodes. -/
theorem wp_route_serving (hshards : env.ShardsInRange) (hpos : 0 < shardCount)
    (hrefusal : refusal env request = none) : (route env shardCount request).wp
      (serving shardCount) (fun h' _ => attemptsOf env h' ≠ []) [] := by
  have hshard : ∀ (request : Request) (shard : ShardId),
      request.shard env shardCount = some shard → shard < shardCount := by
    intro request shard hkey
    unfold Request.shard at hkey
    obtain ⟨key, -, rfl⟩ := Option.map_eq_some_iff.1 hkey
    exact hshards key shardCount hpos
  rcases route_of_no_refusal shardCount hrefusal with hroute | ⟨idempotency, hroute⟩
  · rw [hroute]
    exact wp_send_serving (hshard request)
  · rw [hroute, wp_routeWithCustomerIdempotency]
    refine Proc.wp_mono (wp_send_serving (hshard _)) ?_
    intro h' response hne
    unfold AfterClaim
    split
    · exact hne
    · refine Proc.wp_mono (Proc.wp_of_closed (P := fun h => attemptsOf env h ≠ [])
        (fun _ _ => trivial) (fun _ ev => attempted_concat ev) hne) ?_
      intro h'' response' hne
      exact Proc.wp_of_closed (fun _ _ => trivial) (fun _ ev => attempted_concat ev) hne

/-! ## Where it knows none -/

/-- The outside, where the table knows nobody; nothing is attempted. -/
def bare : Contract Call Call.Answer where
  rely _ e r :=
    match e, r with
    | .leaderFor _, answer => answer = none
    | .anyNodeExcluding _, answer => answer = none
    | _, _ => True
  guarantee _ e := e.IsTable

theorem wp_send_bare : (routeWithoutCustomerIdempotency env shardCount request).wp bare
    (fun _ response => response.status = .serviceUnavailable) h := by
  have hops : ∀ target, Hops env bare (request.forward env shardCount target)
      (fun _ _ _ => False) (fun _ _ => False)
      (fun _ response => response.status = .serviceUnavailable) := by
    intro target
    exact ⟨False.elim, fun h => h.elim, fun h => h.elim, fun h => h.elim, fun h => h.elim⟩
  apply wp_routeWithoutCustomerIdempotency hops
  · intro shard _
    refine ⟨trivial, ?_⟩
    intro answer hnone
    exact ⟨fun target hsome => absurd (hnone.symm.trans hsome) (by simp), fun _ => rfl⟩
  · intro _
    refine ⟨trivial, ?_⟩
    intro answer hnone
    exact ⟨fun target hsome => absurd (hnone.symm.trans hsome) (by simp), fun _ => rfl⟩

/-- **A request is refused, or told that there is no service**, where no node is known. -/
theorem wp_route_bare : (route env shardCount request).wp bare
    (fun _ response => refusal env request = some response ∨
      response.status = .serviceUnavailable) h := by
  cases hrefusal : refusal env request with
  | some response =>
    rw [route_of_refusal hrefusal]
    exact Or.inl rfl
  | none =>
    rcases route_of_no_refusal shardCount hrefusal with hroute | ⟨idempotency, hroute⟩
    · rw [hroute]
      exact Proc.wp_mono wp_send_bare fun _ _ => Or.inr
    · rw [hroute, wp_routeWithCustomerIdempotency]
      refine Proc.wp_mono wp_send_bare ?_
      intro h' response hstatus
      have hfailure : response.status.isSuccess = false := by
        rw [hstatus]
        rfl
      obtain ⟨detail, hdetail⟩ : ∃ detail, grantedToken env idempotency response =
          .error (idempotencyUnavailable env detail) := grantedToken_of_failure hfailure
      rw [hdetail]
      exact Or.inr rfl

end

end Proxy

/-! ## Readiness -/

namespace Server

open Proxy

def service : String := "fiducia-load-balance"

def healthz (env : Env) : Response :=
  jsonResponse env .ok (.ofFields [("status", .string "ok"), ("service", .string service)])

/-- Ready once the table is hydrated. -/
def readinessResponse (env : Env) (t : RouteTable) : Response :=
  if !t.isHydrated then
    jsonResponse env .serviceUnavailable (.ofFields
      [("status", .string "not_ready"), ("service", .string service),
        ("detail", .string "route table is not hydrated yet")])
  else jsonResponse env .ok (.ofFields [("status", .string "ok"), ("service", .string service)])

section

variable {env : Env} {shardCount : ℕ} {N : Type} {U : Upstreams N} {admits : Request → Prop}
  {s₀ : World N} {h : List (WorldMoment N)} {c : Config Call Call.Answer Response (World N)}
  {i : ℕ} {request : Request} {t : RouteTable}

theorem readinessResponse_status (env : Env) (t : RouteTable) :
    (readinessResponse env t).status = if t.isHydrated then .ok else .serviceUnavailable := by
  unfold readinessResponse
  cases t.isHydrated <;> rfl

theorem ready_iff (ht : t.Serves shardCount) (hpos : 1 ≤ shardCount) :
    (readinessResponse env t).status = .ok ↔ t.nodes ≠ [] := by
  rw [readinessResponse_status, ← ht.isHydrated_iff hpos]
  cases t.isHydrated <;> decide

/-- Where nodes are known, what a task asks the table is answered by a node. -/
theorem serving_of_exec {w w' : World N} {e : Call} {r : e.Answer}
    (hw : w.table.Serves shardCount) (hne : w.table.nodes ≠ []) (hexec : Exec env U i w e r w')
    (own : History) : (serving shardCount).rely own e r := by
  cases hexec with
  | attempt _ => trivial
  | table ht =>
    cases ht with
    | leaderFor shard => exact fun hlt => Option.isSome_iff_ne_none.1 (hw.leaderFor_isSome hne hlt)
    | anyNodeExcluding excluded =>
      rintro rfl
      exact Option.isSome_iff_ne_none.1 (RouteTable.anyNode_isSome hne)
    | _ => trivial

theorem bare_of_exec {w w' : World N} {e : Call} {r : e.Answer} (hw : w.table.Serves shardCount)
    (hnil : w.table.nodes = []) (hexec : Exec env U i w e r w') (own : History) :
    bare.rely own e r := by
  cases hexec with
  | attempt _ => trivial
  | table ht =>
    cases ht with
    | leaderFor shard => exact hw.leaderFor_eq_none hnil shard
    | anyNodeExcluding excluded =>
      show (w.table.anyNodeExcluding excluded).1 = none
      rw [RouteTable.anyNodeExcluding, if_pos hnil]
    | _ => trivial

/-- **A task that starts where nodes are known attempts its request**, unless it is refused. -/
theorem attempted_of_started (hshards : env.ShardsInRange) (hpos : 1 ≤ shardCount)
    {pre post : List (WorldMoment N)} {m : WorldMoment N}
    (hrun : (balancer env shardCount U admits).Run s₀ (pre ++ m :: post) c)
    (hstart : s₀.table.Serves shardCount) (hne : m.before.table.nodes ≠ [])
    (hlabel : m.label = .start i (route env shardCount request))
    (hrefusal : refusal env request = none) {response : Response}
    (hresult : c.result i = some response) :
    attemptsOf env (own i (pre ++ m :: post)) ≠ [] := by
  have hst : Started (pre ++ m :: post) i (route env shardCount request) :=
    ⟨m, by simp, hlabel⟩
  have hserves := (hrun.invariant keeps_serves hstart).2
  have hsince := (nodes_ne_nil_since hrun hne).1
  refine hrun.own_result hst (wp_route_serving hshards hpos hrefusal) ?_
    (Config.result_eq_some.1 hresult)
  intro hpre ev b a hpost hsplit
  have hmem : (⟨.answer i ev, b, a⟩ : WorldMoment N) ∈ pre ++ m :: post := by simp [hsplit]
  have hexec : Exec env U i b ev.1 ev.2 a := hrun.allowed _ hmem
  refine serving_of_exec (hserves _ hmem).1 ?_ hexec _
  -- before its start a task asks nothing
  rcases List.mem_append.1 hmem with hbefore | hafter
  · have hnone := hrun.own_before_start ⟨m, List.mem_cons_self, hlabel⟩
    have hown := mem_own hbefore rfl
    rw [hnone] at hown
    exact absurd hown (by simp)
  · rcases List.mem_cons.1 hafter with rfl | hafter
    · exact absurd hlabel (by simp)
    · exact hsince _ hafter

/-- **Where no node was ever known, nothing was attempted.** -/
theorem not_attempted (hrun : (balancer env shardCount U admits).Run s₀ h c)
    (hstart : s₀.table.Serves shardCount) (hnil : c.shared.table.nodes = [])
    (hst : Started h i (route env shardCount request)) : attemptsOf env (own i h) = [] ∧
      ∀ response, c.result i = some response →
        refusal env request = some response ∨ response.status = .serviceUnavailable := by
  have hserves := (hrun.invariant keeps_serves hstart).2
  have hrelied : OwnRelied bare i h := by
    rintro pre ev b a post rfl
    have hmem : (⟨.answer i ev, b, a⟩ : WorldMoment N) ∈ pre ++ ⟨.answer i ev, b, a⟩ :: post := by
      simp
    refine bare_of_exec (hserves _ hmem).1 ?_ (hrun.allowed _ hmem) _
    -- what was known then would be known now
    by_contra hne
    exact (nodes_ne_nil_since hrun hne).2 hnil
  refine ⟨?_, ?_⟩
  · refine List.eq_nil_iff_forall_not_mem.2 ?_
    intro p hp
    obtain ⟨before, reply, after, hown, -⟩ := mem_attemptsOf hp
    obtain ⟨pre, b, a, post, hsplit, -⟩ := own_split hown
    exact hrun.own_guarantee hst wp_route_bare hrelied hsplit
  · intro response hresult
    exact hrun.own_result hst wp_route_bare hrelied (Config.result_eq_some.1 hresult)

end

/-- **Readiness is truthful.**  In every run of the balancer, over any seeds, snapshots and
nodes: once it was ready it stays so, and each request that arrives after that and is not
refused is attempted at a node before it is answered.  As long as it is not ready, nothing has
been attempted, and each request that was answered was refused or told that there is no
service. -/
theorem ready_routes (env : Env) (hshards : env.ShardsInRange) {shardCount : ℕ}
    (hpos : 1 ≤ shardCount) (seeds : List String) {N : Type} (U : Upstreams N)
    (admits : Request → Prop) (n : N) {h : List (WorldMoment N)}
    {c : Config Call Call.Answer Response (World N)}
    (hrun : (balancer env shardCount U admits).Run (World.new env shardCount seeds n) h c) :
    (∀ pre m post, h = pre ++ m :: post →
      (readinessResponse env m.before.table).status = .ok →
        (readinessResponse env c.shared.table).status = .ok ∧
        ∀ i request response, m.label = .start i (route env shardCount request) →
          refusal env request = none → c.result i = some response →
            attemptsOf env (own i h) ≠ []) ∧
    ((readinessResponse env c.shared.table).status ≠ .ok →
      ∀ i request, Started h i (route env shardCount request) → attemptsOf env (own i h) = [] ∧
        ∀ response, c.result i = some response →
          refusal env request = some response ∨ response.status = .serviceUnavailable) := by
  have hstart : (World.new env shardCount seeds n).table.Serves shardCount := .new env _ seeds
  obtain ⟨hserves, hmoments⟩ := hrun.invariant keeps_serves hstart
  constructor
  · rintro pre m post rfl hready
    have hne := (ready_iff (hmoments m (by simp)).1 hpos).1 hready
    refine ⟨(ready_iff hserves hpos).2 (nodes_ne_nil_since hrun hne).2, ?_⟩
    intro i request response hlabel hrefusal hresult
    exact attempted_of_started hshards hpos hrun hstart hne hlabel hrefusal hresult
  · intro hnot i request hst
    have hnil : c.shared.table.nodes = [] := by
      by_contra hne
      exact hnot ((ready_iff hserves hpos).2 hne)
    exact not_attempted hrun hstart hnil hst

/-- A mutation with a key that arrives at a balancer that was ready from the start. -/
theorem ready_routes_put : ∃ h c, Sample.Cluster.Run Sample.world h c ∧
    (c.result 0).isSome ∧ attemptsOf Reference.env (own 0 h) ≠ [] := by
  obtain ⟨h₁, c₁, h₂, c₂, hplay₁, hplay₂, hfound⟩ := Sample.driver.exists_play
    (.initial Sample.world) [Sample.start []] (Sample.first []).tail
    (fun h₁ _ _ c₂ => h₁.all (fun m => (readinessResponse Reference.env m.before.table).status = .ok) ∧
      (c₂.result 0).isSome)
    (by decide +kernel)
  obtain ⟨hready, hdone⟩ := of_decide_eq_true hfound
  obtain ⟨response, hresult⟩ := Option.isSome_iff_exists.1 hdone
  obtain ⟨m, hm, hlabel⟩ := Sample.driver.started_of_play hplay₁ rfl
  have hrun : Sample.Cluster.Run Sample.world (h₁ ++ h₂) c₂ :=
    Sample.driver.run_of_play (Sample.driver.run_of_play .init hplay₁) hplay₂
  obtain ⟨pre, post, rfl⟩ := List.append_of_mem hm
  obtain ⟨-, hroutes⟩ := (ready_routes Reference.env Reference.shardsInRange le_rfl ["http://a:1"]
    _ _ _ hrun).1 pre m (post ++ h₂) (by simp) (by simpa using List.all_eq_true.1 hready m hm)
  have hrefusal : refusal Reference.env (Sample.put []) = none :=
    Option.isNone_iff_eq_none.1 (by decide +kernel)
  exact ⟨_, c₂, hrun, hdone, hroutes 0 _ response hlabel hrefusal hresult⟩

end Server

end LoadBalance
