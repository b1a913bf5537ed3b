import FiduciaLoadBalance.Concurrency.Schedule
import FiduciaLoadBalance.Proxy.NoReplay
import FiduciaLoadBalance.Table.Clock

/-!
# One bounce heals the leader cache

Requests that find a follower where the table has a leader are sent on to the leader, and
the table learns it.  The requests here are those that reach the nodes, each on its own:
a client's, and those the balancer sends for it to keep its idempotency record.

* `clocked` — the machine of such requests over one table, its refresh loop and a clock;
* `Served` — the whole history of a request for the shard, bounced at most once;
* `Regime` — the nodes agree who leads the shard, and the leader stays a member;
* `one_bounce_heals` — the result, for every run.
-/

namespace LoadBalance

open Http Text Conc Machine RouteTable

namespace Proxy

/-! ## The machine -/

/-- A call, at the time the clock shows.  The nodes may answer anything. -/
inductive ClockedExec (env : Env) : Clocked → (e : Call) → e.Answer → Clocked → Prop
  | leaderFor (s : Clocked) (shard : ShardId) :
      ClockedExec env s (.leaderFor shard) (s.table.leaderFor shard) s
  | anyNodeExcluding (s : Clocked) (excluded : List String) :
      ClockedExec env s (.anyNodeExcluding excluded) (s.table.anyNodeExcluding excluded).1
        (s.after env (.anyNodeExcluding excluded))
  | acceptLeaderHint (s : Clocked) (shard : ShardId) (nodeUrl : String) :
      ClockedExec env s (.acceptLeaderHint shard nodeUrl)
        (s.table.acceptLeaderHint env shard nodeUrl s.clock).1
        (s.after env (.acceptLeaderHint shard nodeUrl))
  | validateNodeHint (s : Clocked) (nodeUrl : String) :
      ClockedExec env s (.validateNodeHint nodeUrl) (s.table.validateNodeHint env nodeUrl) s
  | recordRegionRequest (s : Clocked) (nodeUrl : String) :
      ClockedExec env s (.recordRegionRequest nodeUrl) () (s.after env (.recordRegionRequest nodeUrl))
  | forwardOnce (s : Clocked) (a : Attempt) (reply : Reply) :
      ClockedExec env s (.forwardOnce a) reply s

/-- What happens besides: time goes on, and the refresh loop asks and is answered. -/
inductive ClockedTurn (env : Env) : Clocked → Clocked → Prop
  | tick {s : Clocked} {now : Instant} : s.clock ≤ now → ClockedTurn env s (s.tick now)
  | refreshFromBrain (s : Clocked) : ClockedTurn env s (s.after env .refreshFromBrain)
  | snapshot (s : Clocked) (nodes : List BrainNode) (shards : List BrainShard) :
      ClockedTurn env s (s.after env (.snapshot nodes shards))

/-- Any number of requests on their way to the nodes. -/
def clocked (env : Env) (shardCount : ℕ) : Machine Call Call.Answer Response Clocked where
  start _ p := ∃ request, p = routeWithoutCustomerIdempotency env shardCount request
  exec _ := ClockedExec env
  env := ClockedTurn env
  drop _ _ s s' := s' = s

abbrev ClockedMoment : Type := Moment Call Call.Answer Response Clocked

section

variable {env : Env} {shardCount : ℕ} {shard : ShardId} {leader : String}

theorem ClockedExec.leaderFor_answer {s s' : Clocked} {answer : Option String}
    (h : ClockedExec env s (.leaderFor shard) answer s') :
    answer = s.table.leaderFor shard ∧ s' = s := by
  cases h
  exact ⟨rfl, rfl⟩

theorem ClockedExec.acceptLeaderHint_answer {s s' : Clocked} {nodeUrl : String}
    {answer : Option String} (h : ClockedExec env s (.acceptLeaderHint shard nodeUrl) answer s') :
    answer = (s.table.acceptLeaderHint env shard nodeUrl s.clock).1 ∧
      s' = s.after env (.acceptLeaderHint shard nodeUrl) := by
  cases h with
  | acceptLeaderHint => exact ⟨rfl, rfl⟩

theorem keeps_sound (hurls : env.SpellsOrigins) : (clocked env shardCount).Keeps fun s =>
    Sound env s.table ∧ s.table.shardCount = shardCount where
  exec := by
    rintro i s e r s' ⟨hsound, hcount⟩ hexec
    cases hexec with
    | anyNodeExcluding excluded =>
      exact ⟨Clocked.sound_after hurls hsound _, (Clocked.shardCount_after _).trans hcount⟩
    | acceptLeaderHint shard nodeUrl =>
      exact ⟨Clocked.sound_after hurls hsound _, (Clocked.shardCount_after _).trans hcount⟩
    | recordRegionRequest nodeUrl =>
      exact ⟨Clocked.sound_after hurls hsound _, (Clocked.shardCount_after _).trans hcount⟩
    | _ => exact ⟨hsound, hcount⟩
  env := by
    rintro s s' ⟨hsound, hcount⟩ hturn
    cases hturn with
    | tick hnow => exact ⟨hsound, hcount⟩
    | _ => exact ⟨Clocked.sound_after hurls hsound _, (Clocked.shardCount_after _).trans hcount⟩
  drop := by
    rintro i p s s' hs rfl
    exact hs

/-! ## Hints come from the nodes -/

/-- The contract of a request: the hints it has accepted for its shard are those it was
told. -/
def told (env : Env) (shard : Option ShardId) : Contract Call Call.Answer where
  rely _ _ _ := True
  guarantee h e := ∀ shard' nodeUrl, e = .acceptLeaderHint shard' nodeUrl → shard = some shard' ∧
    ∃ a, ∃ reply : Reply, (⟨.forwardOnce a, reply⟩ : TaskEvent) ∈ h ∧
      outcome env a reply = .notLeader (some nodeUrl)

theorem told_other (h : History) {e : Call}
    (he : ∀ shard nodeUrl, e ≠ .acceptLeaderHint shard nodeUrl) {shard : Option ShardId} :
    (told env shard).guarantee h e := by
  intro shard' nodeUrl hcall
  exact absurd hcall (he shard' nodeUrl)

/-- What follows an attempt accepts no hint but the one it told. -/
theorem wp_afterAttempt_told {request : ForwardRequest} {attempted : List String}
    {retry : Task Response} {follow : String → Task Response} {h : History} {a : Attempt}
    {reply : Reply} (hlast : (⟨.forwardOnce a, reply⟩ : TaskEvent) ∈ h)
    (hretry : ∀ h', retry.wp (told env request.shard) (fun _ _ => True) h')
    (hfollow : ∀ next h', (follow next).wp (told env request.shard) (fun _ _ => True) h') :
    (afterAttempt env request attempted retry follow (outcome env a reply)).wp
      (told env request.shard) (fun _ _ => True) h := by
  have hanswer : ∀ k : Option String → Task Response, k none = retry →
      (∀ next, k (some next) = if next ∈ attempted then retry else follow next) →
        ∀ answer h', ((Proc.done answer).bind k).wp (told env request.shard)
          (fun _ _ => True) h' := by
    intro k hnone hsome answer h'
    rw [Proc.bind]
    cases answer with
    | none =>
      rw [hnone]
      exact hretry h'
    | some next =>
      rw [hsome]
      split
      · exact hretry h'
      · exact hfollow next h'
  cases hout : outcome env a reply with
  | served response => trivial
  | responseTooLarge => trivial
  | notSent => exact hretry h
  | ambiguousTransport =>
    rw [afterAttempt]
    split
    · exact hretry h
    · trivial
  | notLeader hint =>
    cases hint with
    | none => exact hretry h
    | some hint =>
      rw [afterAttempt]
      unfold redirectedLeaderTarget
      split
      · rename_i shard hshard
        refine ⟨?_, fun answer _ => hanswer _ rfl (fun _ => rfl) answer _⟩
        intro shard' nodeUrl hcall
        obtain ⟨rfl, rfl⟩ := Call.acceptLeaderHint.inj hcall
        exact ⟨hshard, a, reply, hlast, hout⟩
      · exact ⟨told_other h (by simp), fun answer _ => hanswer _ rfl (fun _ => rfl) answer _⟩

theorem wp_forwardLoop_told (request : ForwardRequest) {hops : ℕ} {attempted : List String}
    {target : String} {h : History} :
    (forwardLoop env request hops attempted target).wp (told env request.shard)
      (fun _ _ => True) h := by
  induction hops generalizing attempted target h with
  | zero => trivial
  | succ hops ih =>
    rw [forwardLoop]
    refine ⟨told_other h (by simp), fun _ _ => wp_forwardOnce.2 ⟨told_other _ (by simp),
      fun reply _ => wp_afterAttempt_told (by simp) (fun h' => ?_) fun _ _ => ih⟩⟩
    refine ⟨told_other h' (by simp), fun answer _ => ?_⟩
    cases answer with
    | none => trivial
    | some next => exact ih

theorem wp_request_told (request : Request) :
    (routeWithoutCustomerIdempotency env shardCount request).wp
      (told env (request.shard env shardCount)) (fun _ _ => True) [] := by
  have hfound : ∀ k : Option String → Task Response,
      k none = pure (noRouteResponse env (request.shard env shardCount)) →
      (∀ target, k (some target) =
        forwardWithRedirect env (request.forward env shardCount target)) →
        ∀ answer h, ((Proc.done answer).bind k).wp (told env (request.shard env shardCount))
          (fun _ _ => True) h := by
    intro k hnone hsome answer h
    rw [Proc.bind]
    cases answer with
    | none =>
      rw [hnone]
      trivial
    | some target =>
      rw [hsome]
      exact wp_forwardLoop_told (request.forward env shardCount target)
  rw [routeWithoutCustomerIdempotency]
  unfold firstTarget
  split
  · exact ⟨told_other _ (by simp), fun answer _ => hfound _ rfl (fun _ => rfl) answer _⟩
  · exact ⟨told_other _ (by simp), fun answer _ => hfound _ rfl (fun _ => rfl) answer _⟩

/-! ## At most one bounce -/

/-- The leader serves, and every other node names it. -/
def Obliging (env : Env) (leader : String) (a : Attempt) (reply : Reply) : Prop :=
  if a.nodeUrl = leader then ∃ response, outcome env a reply = .served response
  else ∃ hint, outcome env a reply = .notLeader (some hint) ∧
    normalizeNodeUrl env hint = some leader

theorem Obliging.served {a : Attempt} {reply : Reply} (h : Obliging env leader a reply)
    (hurl : a.nodeUrl = leader) : ∃ response, outcome env a reply = .served response := by
  rwa [Obliging, if_pos hurl] at h

theorem Obliging.notLeader {a : Attempt} {reply : Reply} (h : Obliging env leader a reply)
    (hurl : a.nodeUrl ≠ leader) : ∃ hint, outcome env a reply = .notLeader (some hint) ∧
      normalizeNodeUrl env hint = some leader := by
  rwa [Obliging, if_neg hurl] at h

/-- **The whole history of a request that was served by the leader**: at once, or after one
other node named the leader. -/
inductive Served (env : Env) (request : Request) (shard : ShardId) (leader : String)
    (response : Response) : History → Prop
  | direct (reply : Reply) :
      outcome env (request.attempt leader) reply = .served response →
      Served env request shard leader response
        [⟨.leaderFor shard, some leader⟩, ⟨.recordRegionRequest leader, ()⟩,
          ⟨.forwardOnce (request.attempt leader), reply⟩]
  | bounced (node hint : String) (told reply : Reply) : node ≠ leader →
      outcome env (request.attempt node) told = .notLeader (some hint) →
      outcome env (request.attempt leader) reply = .served response →
      Served env request shard leader response
        [⟨.leaderFor shard, some node⟩, ⟨.recordRegionRequest node, ()⟩,
          ⟨.forwardOnce (request.attempt node), told⟩,
          ⟨.acceptLeaderHint shard hint, some leader⟩, ⟨.recordRegionRequest leader, ()⟩,
          ⟨.forwardOnce (request.attempt leader), reply⟩]

/-- The contract of a request for the shard, among nodes that agree on its leader: it makes at
most six calls, two of them attempts, and one attempt only if it was sent to the leader. -/
def bounced (env : Env) (shard : ShardId) (leader : String) : Contract Call Call.Answer where
  rely _ e r :=
    match e, r with
    | .leaderFor shard', (answer : Option String) => shard' = shard → answer.isSome
    | .acceptLeaderHint _ nodeUrl, answer =>
      normalizeNodeUrl env nodeUrl = some leader → answer = some leader
    | .forwardOnce a, reply => Obliging env leader a reply
    | _, _ => True
  guarantee h e := h.length < 6 ∧ (∀ shard', e = .leaderFor shard' → h = []) ∧
    ∀ a, e = .forwardOnce a → (attemptsOf env h).length ≤ 1 ∧
      ((⟨.leaderFor shard, some leader⟩ : TaskEvent) ∈ h → attemptsOf env h = [])

theorem bounced_other {h : History} (hlength : h.length < 6) {e : Call}
    (hread : ∀ shard, e ≠ .leaderFor shard) (hsend : ∀ a, e ≠ .forwardOnce a) :
    (bounced env shard leader).guarantee h e := by
  refine ⟨hlength, ?_, ?_⟩
  · intro shard' hcall
    exact absurd hcall (hread shard')
  · intro a hcall
    exact absurd hcall (hsend a)

/-- The attempt on the leader is the last. -/
theorem wp_forwardLoop_leader (request : ForwardRequest) {hops : ℕ} {attempted : List String}
    {h : History} {Q : History → Response → Prop}
    (hsend : (bounced env shard leader).guarantee (h ++ [⟨.recordRegionRequest leader, ()⟩])
      (.forwardOnce (request.attempt leader)))
    (hserved : ∀ (reply : Reply) response,
      outcome env (request.attempt leader) reply = .served response →
        Q (h ++ [⟨.recordRegionRequest leader, ()⟩] ++
          [⟨.forwardOnce (request.attempt leader), reply⟩]) response) :
    (forwardLoop env request (hops + 1) attempted leader).wp (bounced env shard leader) Q h := by
  rw [forwardLoop]
  have hlength : h.length < 6 := by
    have hnext := hsend.1
    rw [List.length_append, List.length_singleton] at hnext
    omega
  refine ⟨bounced_other hlength (by simp) (by simp), fun _ _ => wp_forwardOnce.2
    ⟨hsend, fun reply hreply => ?_⟩⟩
  have hobliging : Obliging env leader (request.attempt leader) reply := hreply
  obtain ⟨response, hresponse⟩ := hobliging.served rfl
  rw [hresponse]
  exact hserved reply response hresponse

/-- **A request for the shard** is served by its leader, after at most one bounce. -/
theorem wp_request_bounced {request : Request}
    (hkeyed : request.shard env shardCount = some shard) :
    (routeWithoutCustomerIdempotency env shardCount request).wp (bounced env shard leader)
      (fun h response => Served env request shard leader response h) [] := by
  rw [routeWithoutCustomerIdempotency]
  unfold firstTarget
  rw [hkeyed]
  refine ⟨⟨by simp, fun _ _ => rfl, by simp⟩, fun answer hanswer => ?_⟩
  have hsome : answer.isSome := hanswer rfl
  obtain ⟨node, rfl⟩ := Option.isSome_iff_exists.1 hsome
  show (forwardLoop env (request.forward env shardCount node) (3 + 1) [] node).wp _ _
    [⟨.leaderFor shard, some node⟩]
  by_cases hnode : node = leader
  · subst hnode
    refine wp_forwardLoop_leader _ ⟨by simp, by simp, fun a _ => ⟨by simp [attemptsOf],
      fun _ => rfl⟩⟩ ?_
    intro reply response hresponse
    exact .direct reply hresponse
  · rw [forwardLoop]
    refine ⟨bounced_other (by simp) (by simp) (by simp), fun _ _ => wp_forwardOnce.2
      ⟨⟨by simp, by simp, fun a _ => ⟨by simp [attemptsOf], fun _ => rfl⟩⟩, fun reply hreply => ?_⟩⟩
    have hobliging : Obliging env leader (request.attempt node) reply := hreply
    obtain ⟨hint, hout, hnormal⟩ := hobliging.notLeader hnode
    rw [forward_attempt, hout, afterAttempt,
      show (request.forward env shardCount node).shard = some shard from hkeyed]
    refine ⟨bounced_other (by simp) (by simp) (by simp), fun answer haccepted => ?_⟩
    obtain rfl : answer = some leader := haccepted hnormal
    show (if leader ∈ [node] then _ else _ : Task Response).wp _ _ _
    rw [if_neg (by simpa using Ne.symm hnode)]
    refine wp_forwardLoop_leader _ ⟨by simp, by simp, fun a _ => ⟨by simp [attemptsOf], ?_⟩⟩ ?_
    · intro hread
      exact absurd hread (by simpa using Ne.symm hnode)
    · intro reply' response hresponse
      exact .bounced node hint reply reply' hnode hout hresponse

/-- What the contract says of the attempts of a whole history. -/
theorem attempts_of_bounced {tr : History} (hguar : ∀ pre ev post, tr = pre ++ ev :: post →
    (bounced env shard leader).guarantee pre ev.1) : (attemptsOf env tr).length ≤ 2 ∧
      ((⟨.leaderFor shard, some leader⟩ : TaskEvent) ∈ tr → (attemptsOf env tr).length ≤ 1) := by
  rcases attemptsOf_last env tr with hnone | ⟨pre, a, reply, post, htr, hpost⟩
  · simp [hnone]
  · obtain ⟨-, -, hsend⟩ := hguar pre _ post htr
    obtain ⟨hlength, hread⟩ := hsend a rfl
    have hcount : attemptsOf env tr = attemptsOf env pre ++ [(a, outcome env a reply)] := by
      rw [htr, attemptsOf_append, ← List.singleton_append, attemptsOf_append, hpost,
        attemptsOf_attempt, List.append_nil]
    rw [hcount, List.length_append, List.length_singleton]
    refine ⟨by omega, fun hmem => ?_⟩
    -- the leader is read first, so before the attempt
    have hpre : (⟨.leaderFor shard, some leader⟩ : TaskEvent) ∈ pre := by
      rw [htr] at hmem
      rcases List.mem_append.1 hmem with hmem | hmem
      · exact hmem
      · rcases List.mem_cons.1 hmem with heq | hmem
        · exact absurd (congrArg Sigma.fst heq) (by simp)
        · obtain ⟨post₁, post₂, rfl⟩ := List.append_of_mem hmem
          have hfirst := (hguar (pre ++ ⟨.forwardOnce a, reply⟩ :: post₁)
            ⟨.leaderFor shard, some leader⟩ post₂ (by rw [htr]; simp)).2.1 shard rfl
          exact absurd hfirst (by simp)
    rw [hread hpre]
    rfl

theorem Served.attempts {request : Request} {response : Response} {tr : History}
    (h : Served env request shard leader response tr)
    (hread : (⟨.leaderFor shard, some leader⟩ : TaskEvent) ∈ tr) :
    attemptsOf env tr = [(request.attempt leader, .served response)] := by
  cases h with
  | direct reply hresponse => simp [attemptsOf, hresponse]
  | bounced node hint told reply hnode _ _ => exact absurd hread (by simpa using Ne.symm hnode)

/-! ## Histories of the machine -/

/-- **Who leads the shard is settled** during `h`, which follows `h₀`: the leader stays a
member; and the requests for the shard that are under way find it serving, and every other
node naming it. -/
structure Regime (env : Env) (shardCount : ℕ) (shard : ShardId) (leader : String)
    (h₀ h : List ClockedMoment) : Prop where
  member : ∀ m ∈ h, leader ∈ m.before.table.nodes ∧ leader ∈ m.after.table.nodes
  obliging : ∀ i request,
    Started (h₀ ++ h) i (routeWithoutCustomerIdempotency env shardCount request) →
    request.shard env shardCount = some shard → own i h ≠ [] →
    ∀ a, ∀ reply : Reply, (⟨.forwardOnce a, reply⟩ : TaskEvent) ∈ own i (h₀ ++ h) →
      Obliging env leader a reply

/-- At this moment request `i` finds the leader in the table, or has the table learn it now:
`since` is when it was learned. -/
inductive Settles (shard : ShardId) (leader : String) (i : ℕ) :
    ClockedMoment → Option Instant → Prop
  | leaderFor (s s' : Clocked) :
      Settles shard leader i ⟨.answer i ⟨.leaderFor shard, some leader⟩, s, s'⟩ none
  | acceptLeaderHint (nodeUrl : String) (s s' : Clocked) :
      Settles shard leader i ⟨.answer i ⟨.acceptLeaderHint shard nodeUrl, some leader⟩, s, s'⟩
        (some s.clock)

/-- At this moment a snapshot requested after `since` changes the table. -/
def Overrules (since : Option Instant) (m : ClockedMoment) : Prop :=
  m.label = .env ∧ Overruled since m.before m.after

variable {seeds : List String} {h₀ h : List ClockedMoment}
  {c : Config Call Call.Answer Response Clocked}

/-- A request that was started is one request. -/
theorem request_of_started {s₀ : Clocked} (hrun : (clocked env shardCount).Run s₀ h c) {i : ℕ}
    {p : Task Response} (hst : Started h i p) :
    ∃ request, p = routeWithoutCustomerIdempotency env shardCount request := by
  obtain ⟨-, request, hp⟩ := hrun.start_of_started hst
  exact ⟨request, hp⟩

theorem sound_of_run (hurls : env.SpellsOrigins)
    (hrun : (clocked env shardCount).Run (.new env shardCount seeds) h c) :
    ∀ m ∈ h, Sound env m.before.table ∧ m.before.table.shardCount = shardCount := by
  intro m hm
  have hnew : Sound env (Clocked.new env shardCount seeds).table ∧
      (Clocked.new env shardCount seeds).table.shardCount = shardCount :=
    ⟨Sound.new hurls shardCount seeds, rfl⟩
  exact ((hrun.invariant (keeps_sound hurls) hnew).2 m hm).1

/-- **Every hint accepted for the shard names its leader.** -/
theorem normalize_of_accepted {s₀ : Clocked} (hrun : (clocked env shardCount).Run s₀ (h₀ ++ h) c)
    (hregime : Regime env shardCount shard leader h₀ h) {i : ℕ} {nodeUrl : String}
    {answer : Option String} {s s' : Clocked}
    (hm : (⟨.answer i ⟨.acceptLeaderHint shard nodeUrl, answer⟩, s, s'⟩ : ClockedMoment) ∈ h) :
    normalizeNodeUrl env nodeUrl = some leader := by
  obtain ⟨pre, post, rfl⟩ := List.append_of_mem hm
  have hlive : own i (pre ++ ⟨.answer i ⟨.acceptLeaderHint shard nodeUrl, answer⟩, s, s'⟩ :: post)
      ≠ [] := List.ne_nil_of_mem (mem_own hm rfl)
  rw [← List.append_assoc] at hrun
  obtain ⟨p, hst⟩ := hrun.started_before_answer
  have hst' : Started (h₀ ++ pre ++ (⟨.answer i ⟨.acceptLeaderHint shard nodeUrl, answer⟩, s, s'⟩ ::
      post)) i p := started_append.2 (Or.inl hst)
  obtain ⟨request, rfl⟩ := request_of_started hrun hst'
  obtain ⟨hshard, a, reply, hreply, hout⟩ := hrun.own_guarantee hst' (wp_request_told request)
    (fun _ _ _ _ _ _ => trivial) rfl shard nodeUrl rfl
  rw [List.append_assoc] at hst'
  have hobliging : Obliging env leader a reply := by
    refine hregime.obliging i request hst' hshard hlive a reply ?_
    rw [← List.append_assoc, own_append]
    exact List.mem_append_left _ hreply
  by_cases hurl : a.nodeUrl = leader
  · obtain ⟨response, hserved⟩ := hobliging.served hurl
    rw [hserved] at hout
    exact absurd hout (by simp)
  · obtain ⟨hint, hhint, hnormal⟩ := hobliging.notLeader hurl
    rw [hhint] at hout
    obtain rfl : hint = nodeUrl := by simpa using hout
    exact hnormal

/-- **What heals the shard lasts**, moment for moment. -/
theorem healed_of_allowed {since : Option Instant} {m : ClockedMoment}
    (hm : (clocked env shardCount).Allowed m) (hsound : Sound env m.before.table)
    (hmember : leader ∈ m.before.table.nodes ∧ leader ∈ m.after.table.nodes)
    (hhint : ∀ i nodeUrl answer, m.label = .answer i ⟨.acceptLeaderHint shard nodeUrl, answer⟩ →
      normalizeNodeUrl env nodeUrl = some leader)
    (hnot : ¬Overrules since m) (h : Healed shard leader since m.before) :
    Healed shard leader since m.after := by
  obtain ⟨label, s, s'⟩ := m
  cases label with
  | start i p =>
    have hsame : s' = s := hm.2
    rw [hsame]
    exact h
  | drop i =>
    obtain ⟨p, hsame⟩ := hm
    have hsame : s' = s := hsame
    rw [hsame]
    exact h
  | env =>
    have hturn : ClockedTurn env s s' := hm
    cases hturn with
    | tick hnow => exact h.tick hnow
    | refreshFromBrain => exact h.after_refreshFromBrain
    | snapshot nodes shards =>
      exact h.after_snapshot nodes shards hmember.2 fun hover => hnot ⟨rfl, hover⟩
  | answer i ev =>
    obtain ⟨e, r⟩ := ev
    have hexec : ClockedExec env s e r s' := hm
    cases hexec with
    | anyNodeExcluding excluded => exact h.after_anyNodeExcluding excluded
    | recordRegionRequest nodeUrl => exact h.after_recordRegionRequest nodeUrl
    | acceptLeaderHint shard' nodeUrl =>
      refine h.after_acceptLeaderHint hsound hmember.1 shard' fun heq => ?_
      subst heq
      exact hhint i nodeUrl _ rfl
    | _ => exact h

/-- A moment that settles the shard heals it. -/
theorem healed_of_settles {since : Option Instant} {m : ClockedMoment} {i : ℕ}
    (hm : (clocked env shardCount).Allowed m) (hsettles : Settles shard leader i m since) :
    Healed shard leader since m.after := by
  cases hsettles with
  | leaderFor s s' =>
    have hexec : ClockedExec env s (.leaderFor shard) (some leader) s' := hm
    obtain ⟨hanswer, rfl⟩ := hexec.leaderFor_answer
    exact ⟨hanswer.symm, by simp⟩
  | acceptLeaderHint nodeUrl s s' =>
    have hexec : ClockedExec env s (.acceptLeaderHint shard nodeUrl) (some leader) s' := hm
    obtain ⟨hanswer, rfl⟩ := hexec.acceptLeaderHint_answer
    exact healed_of_acceptLeaderHint hanswer.symm

/-- A request for the shard that was served found its leader in the table, or had the table
learn it. -/
theorem Served.settles {request : Request} {response : Response} {i : ℕ}
    (hserved : Served env request shard leader response (own i h)) :
    ∃ pre m post since, h = pre ++ m :: post ∧ Settles shard leader i m since := by
  have hevent : ∀ {ev : TaskEvent}, ev ∈ own i h →
      ∃ pre s s' post, h = pre ++ ⟨.answer i ev, s, s'⟩ :: post := exists_of_mem_own
  generalize own i h = tr at hserved hevent
  cases hserved with
  | direct reply _ =>
    obtain ⟨pre, s, s', post, hsplit⟩ := hevent List.mem_cons_self
    exact ⟨pre, _, post, none, hsplit, .leaderFor s s'⟩
  | bounced node hint told reply _ _ _ =>
    have hmem : (⟨.acceptLeaderHint shard hint, some leader⟩ : TaskEvent) ∈
        [⟨.leaderFor shard, some node⟩, ⟨.recordRegionRequest node, ()⟩,
          ⟨.forwardOnce (request.attempt node), told⟩,
          ⟨.acceptLeaderHint shard hint, some leader⟩, ⟨.recordRegionRequest leader, ()⟩,
          ⟨.forwardOnce (request.attempt leader), reply⟩] := by simp
    obtain ⟨pre, s, s', post, hsplit⟩ := hevent hmem
    exact ⟨pre, _, post, _, hsplit, .acceptLeaderHint hint s s'⟩

/-- What the table and the nodes answer a request for the shard. -/
theorem relied_bounced (hurls : env.SpellsOrigins) (hshard : shard < shardCount)
    (hrun : (clocked env shardCount).Run (.new env shardCount seeds) (h₀ ++ h) c)
    (hregime : Regime env shardCount shard leader h₀ h) {i : ℕ} {request : Request}
    (hst : Started h i (routeWithoutCustomerIdempotency env shardCount request))
    (hkeyed : request.shard env shardCount = some shard) :
    OwnRelied (bounced env shard leader) i (h₀ ++ h) := by
  intro pre ev s s' post hsplit
  have hall : (⟨.answer i ev, s, s'⟩ : ClockedMoment) ∈ h₀ ++ h := by
    rw [hsplit]
    exact List.mem_append_right _ List.mem_cons_self
  have hmem : (⟨.answer i ev, s, s'⟩ : ClockedMoment) ∈ h := by
    refine (List.mem_append.1 hall).resolve_left fun hearly => ?_
    have hown := mem_own hearly rfl
    rw [hrun.own_before_start hst] at hown
    exact absurd hown (by simp)
  obtain ⟨hsound, hcount⟩ := sound_of_run hurls hrun _ hall
  have hmember : leader ∈ s.table.nodes := (hregime.member _ hmem).1
  have hexec : ClockedExec env s ev.1 ev.2 s' := hrun.allowed _ hall
  obtain ⟨e, r⟩ := ev
  cases e with
  | leaderFor shard' =>
    rintro rfl
    cases hexec
    exact hsound.total (List.ne_nil_of_mem hmember) shard' (hcount ▸ hshard)
  | acceptLeaderHint shard' nodeUrl =>
    intro hnormal
    have hanswer := hexec.acceptLeaderHint_answer.1
    rw [hsound.acceptLeaderHint hnormal hmember shard' s.clock] at hanswer
    exact hanswer
  | forwardOnce a =>
    refine hregime.obliging i request (started_append.2 (Or.inr hst)) hkeyed ?_ a r ?_
    · exact List.ne_nil_of_mem (mem_own hmem rfl)
    · exact mem_own hall rfl
  | _ => trivial

/-- What holds of the shard after a moment that settles it, as long as no later snapshot
overrules that. -/
theorem healed_of_run (hurls : env.SpellsOrigins)
    (hrun : (clocked env shardCount).Run (.new env shardCount seeds) (h₀ ++ h) c)
    (hregime : Regime env shardCount shard leader h₀ h) {pre mid post : List ClockedMoment}
    {m : ClockedMoment} {i : ℕ} {since : Option Instant} (hsplit : h = pre ++ m :: mid ++ post)
    (hsettles : Settles shard leader i m since) (hnot : ∀ m' ∈ mid, ¬Overrules since m') :
    Healed shard leader since m.after ∧ ∀ m' ∈ mid, Healed shard leader since m'.before ∧
      Healed shard leader since m'.after := by
  have hsub : ∀ m' ∈ m :: mid, m' ∈ h := by
    intro m' hm'
    rw [hsplit]
    exact List.mem_append_left _ (List.mem_append_right _ hm')
  have hm := hrun.allowed m (List.mem_append_right _ (hsub m List.mem_cons_self))
  have hfirst := healed_of_settles hm hsettles
  have hkeep : ∀ m' ∈ mid, (clocked env shardCount).Allowed m' →
      Healed shard leader since m'.before → Healed shard leader since m'.after := by
    intro m' hm' hallowed hbefore
    have hmem := hsub m' (List.mem_cons_of_mem m hm')
    refine healed_of_allowed hallowed (sound_of_run hurls hrun m' (List.mem_append_right _ hmem)).1
      (hregime.member m' hmem) ?_ (hnot m' hm') hbefore
    intro j nodeUrl answer hlabel
    obtain ⟨label, s, s'⟩ := m'
    obtain rfl : label = _ := hlabel
    exact normalize_of_accepted hrun hregime hmem
  have hshort : h₀ ++ h = (h₀ ++ pre ++ [m]) ++ mid ++ post := by
    rw [hsplit]
    simp
  rw [hshort] at hrun
  obtain ⟨c₁, hrun₁⟩ := hrun.of_append
  have hstart : ∀ c', (clocked env shardCount).Run (.new env shardCount seeds)
      (h₀ ++ pre ++ [m]) c' → Healed shard leader since c'.shared := by
    intro c' hrun'
    obtain ⟨_, -, hstep⟩ := hrun'.of_concat
    rw [← hstep.after]
    exact hfirst
  have hbefore := (hrun₁.since hstart hkeep).1
  refine ⟨hfirst, fun m' hm' => ⟨hbefore m' hm', ?_⟩⟩
  exact hkeep m' hm' (hrun₁.allowed m' (List.mem_append_right _ hm')) (hbefore m' hm')

section

variable {i : ℕ} {request : Request}

/-- What a request for the shard did is what it did since it was started. -/
theorem own_of_started (hrun : (clocked env shardCount).Run (.new env shardCount seeds) (h₀ ++ h) c)
    (hst : Started h i (routeWithoutCustomerIdempotency env shardCount request)) :
    own i (h₀ ++ h) = own i h := by
  rw [own_append, hrun.own_before_start hst, List.nil_append]

variable (hurls : env.SpellsOrigins) (hshard : shard < shardCount)
  (hrun : (clocked env shardCount).Run (.new env shardCount seeds) (h₀ ++ h) c)
  (hregime : Regime env shardCount shard leader h₀ h)
  (hst : Started h i (routeWithoutCustomerIdempotency env shardCount request))
  (hkeyed : request.shard env shardCount = some shard)

include hurls hshard hrun hregime hst hkeyed

/-- Its attempts are two at most, and one if it found the leader in the table. -/
theorem attempts_of_run : (attemptsOf env (own i h)).length ≤ 2 ∧
    ((⟨.leaderFor shard, some leader⟩ : TaskEvent) ∈ own i h →
      (attemptsOf env (own i h)).length ≤ 1) := by
  have hrelied := relied_bounced hurls hshard hrun hregime hst hkeyed
  obtain ⟨q, hq, -⟩ := hrun.own_steps (started_append.2 (Or.inr hst))
  rw [← own_of_started hrun hst]
  refine attempts_of_bounced fun before ev after htr => ?_
  exact Proc.wp_guarantee (wp_request_bounced hkeyed) hq hrelied.relied htr

/-- It is done after six calls at most. -/
theorem calls_of_run {e : Call} {k : e.Answer → Task Response}
    (hlive : c.procs i = some (.call e k)) : (own i h).length < 6 := by
  have hrelied := relied_bounced hurls hshard hrun hregime hst hkeyed
  rw [← own_of_started hrun hst]
  exact (hrun.own_next (started_append.2 (Or.inr hst)) (wp_request_bounced hkeyed) hrelied hlive).1

/-- And then it was served by the leader. -/
theorem served_of_run {response : Response} (hdone : c.procs i = some (.done response)) :
    Served env request shard leader response (own i h) := by
  have hrelied := relied_bounced hurls hshard hrun hregime hst hkeyed
  rw [← own_of_started hrun hst]
  exact hrun.own_result (started_append.2 (Or.inr hst)) (wp_request_bounced hkeyed) hrelied hdone

end

/-- What a request reads from a healed table is the leader. -/
theorem read_of_healed (hrun : (clocked env shardCount).Run (.new env shardCount seeds) (h₀ ++ h) c)
    {mid : List ClockedMoment} (hmid : ∀ m ∈ mid, m ∈ h) {since : Option Instant}
    (hhealed : ∀ m ∈ mid, Healed shard leader since m.before) {j : ℕ} {answer : Option String}
    (hread : (⟨.leaderFor shard, answer⟩ : TaskEvent) ∈ own j mid) :
    (⟨.leaderFor shard, some leader⟩ : TaskEvent) ∈ own j h := by
  obtain ⟨mid₁, s, s', mid₂, rfl⟩ := exists_of_mem_own hread
  have hmem := hmid _ (List.mem_append_right mid₁ List.mem_cons_self)
  have hexec : ClockedExec env s (.leaderFor shard) answer s' :=
    hrun.allowed _ (List.mem_append_right h₀ hmem)
  have hleads : s.table.leaderFor shard = some leader :=
    (hhealed _ (List.mem_append_right mid₁ List.mem_cons_self)).leads
  obtain rfl : answer = some leader := hexec.leaderFor_answer.1.trans hleads
  exact mem_own hmem rfl

end

/-- **One bounce heals the leader cache.**  From any table the balancer can have, while the
nodes agree that `leader` leads the shard and it stays a member, whatever else goes on: each
request for the shard is done after at most six calls, two of them attempts; and when it is,
it was served by the leader, at once or after one bounce, and the table knew or learned the
leader then.  From such a moment on, until a snapshot requested later changes the table, the
leader is the one the table has for the shard, and the requests for the shard that ask the
table take one attempt. -/
theorem one_bounce_heals (env : Env) (hurls : env.SpellsOrigins) {shardCount : ℕ}
    (seeds : List String) {shard : ShardId} (hshard : shard < shardCount) {leader : String}
    {h₀ h : List ClockedMoment} {c : Config Call Call.Answer Response Clocked}
    (hrun : (clocked env shardCount).Run (.new env shardCount seeds) (h₀ ++ h) c)
    (hregime : Regime env shardCount shard leader h₀ h) :
    (∀ i request, Started h i (routeWithoutCustomerIdempotency env shardCount request) →
      request.shard env shardCount = some shard →
      (attemptsOf env (own i h)).length ≤ 2 ∧
      (∀ e k, c.procs i = some (.call e k) → (own i h).length < 6) ∧
      ∀ response, c.procs i = some (.done response) →
        Served env request shard leader response (own i h) ∧
        ∃ pre m post since, h = pre ++ m :: post ∧ Settles shard leader i m since) ∧
    ∀ pre m mid post i since, h = pre ++ m :: mid ++ post → Settles shard leader i m since →
      (∀ m' ∈ mid, ¬Overrules since m') →
      (∀ m' ∈ m :: mid, m'.after.table.leaderFor shard = some leader) ∧
      ∀ j request, Started h j (routeWithoutCustomerIdempotency env shardCount request) →
        request.shard env shardCount = some shard →
        ∀ answer : Option String, (⟨.leaderFor shard, answer⟩ : TaskEvent) ∈ own j mid →
          (attemptsOf env (own j h)).length ≤ 1 ∧
          ∀ response, c.procs j = some (.done response) →
            attemptsOf env (own j h) = [(request.attempt leader, .served response)] := by
  constructor
  · intro i request hst hkeyed
    refine ⟨(attempts_of_run hurls hshard hrun hregime hst hkeyed).1, fun e k hlive => ?_,
      fun response hdone => ?_⟩
    · exact calls_of_run hurls hshard hrun hregime hst hkeyed hlive
    · have hserved := served_of_run hurls hshard hrun hregime hst hkeyed hdone
      exact ⟨hserved, hserved.settles⟩
  · intro pre m mid post i since hsplit hsettles hnot
    obtain ⟨hfirst, hlater⟩ := healed_of_run hurls hrun hregime hsplit hsettles hnot
    constructor
    · intro m' hm'
      rcases List.mem_cons.1 hm' with rfl | hm'
      · exact hfirst.leads
      · exact (hlater m' hm').2.leads
    · intro j request hst hkeyed answer hread
      have hmid : ∀ m' ∈ mid, m' ∈ h := by
        intro m' hm'
        rw [hsplit]
        exact List.mem_append_left _ (List.mem_append_right _ (List.mem_cons_of_mem m hm'))
      have hfound := read_of_healed hrun hmid (fun m' hm' => (hlater m' hm').1) hread
      refine ⟨(attempts_of_run hurls hshard hrun hregime hst hkeyed).2 hfound,
        fun response hdone => ?_⟩
      exact (served_of_run hurls hshard hrun hregime hst hkeyed hdone).attempts hfound

/-! ## A follower that names the leader -/

/-- The answer to a call; the nodes answer `reply`. -/
def answerClocked (env : Env) (reply : Reply) (s : Clocked) : (e : Call) → e.Answer × Clocked
  | .leaderFor shard => (s.table.leaderFor shard, s)
  | .anyNodeExcluding excluded =>
    ((s.table.anyNodeExcluding excluded).1, s.after env (.anyNodeExcluding excluded))
  | .acceptLeaderHint shard nodeUrl =>
    ((s.table.acceptLeaderHint env shard nodeUrl s.clock).1,
      s.after env (.acceptLeaderHint shard nodeUrl))
  | .validateNodeHint nodeUrl => (s.table.validateNodeHint env nodeUrl, s)
  | .recordRegionRequest nodeUrl => ((), s.after env (.recordRegionRequest nodeUrl))
  | .forwardOnce _ => (reply, s)

theorem exec_answerClocked (env : Env) (reply : Reply) (s : Clocked) (e : Call) :
    ClockedExec env s e (answerClocked env reply s e).1 (answerClocked env reply s e).2 := by
  cases e with
  | leaderFor shard => exact .leaderFor s shard
  | anyNodeExcluding excluded =>
    dsimp only [answerClocked]
    exact .anyNodeExcluding s excluded
  | acceptLeaderHint shard nodeUrl =>
    dsimp only [answerClocked]
    exact .acceptLeaderHint s shard nodeUrl
  | validateNodeHint nodeUrl =>
    dsimp only [answerClocked]
    exact .validateNodeHint s nodeUrl
  | recordRegionRequest nodeUrl => exact .recordRegionRequest s nodeUrl
  | forwardOnce a => exact .forwardOnce s a reply

/-- Requests against nodes that answer as told, with nothing else going on. -/
def requests (env : Env) (shardCount : ℕ) : Driver (clocked env shardCount) where
  Job := Request
  Choice := Reply
  Turn := Empty
  start request _ := some (routeWithoutCustomerIdempotency env shardCount request)
  exec reply _ s e := some (answerClocked env reply s e)
  env turn _ := turn.elim
  start_sound := by
    intro request s p h
    exact ⟨request, (Option.some.inj h).symm⟩
  exec_sound := by
    intro reply i s e r s' h
    have hexec := exec_answerClocked env reply s e
    rw [Option.some.inj h] at hexec
    exact hexec
  env_sound := by
    intro turn
    exact turn.elim

namespace Sample

/-- A request for the one shard. -/
def keyed : Request where
  identity := some identity
  method := .get
  uri := ⟨none, none, "/v1/services", none, by decide⟩
  headers := .empty
  body := []

/-- A follower that says where the leader is. -/
def redirected : Reply :=
  .response .temporaryRedirect ⟨[("x-fiducia-leader", ⟨utf8 "b:1", by decide⟩)]⟩ [] .eof

def done : Response := { status := .ok, headers := .empty, body := .full (utf8 "done") }

/-- Did anything happen but requests? -/
def isTurn (m : ClockedMoment) : Bool :=
  match m.label with
  | .env => true
  | _ => false

/-- A request that is bounced, and one after it. -/
def bounce : List (requests Reference.env 1).Move :=
  [.start keyed, .answer 0 accepted, .answer 0 accepted, .answer 0 redirected,
    .answer 0 accepted, .answer 0 accepted, .answer 0 accepted, .start keyed,
    .answer 1 accepted, .answer 1 accepted, .answer 1 accepted]

/-- What the schedule comes to: the first request is bounced, the second is not. -/
def Bounced (h : List ClockedMoment) (c : Config Call Call.Answer Response Clocked) : Prop :=
  attemptsOf Reference.env (own 0 h) = [(keyed.attempt "http://a:1", .notLeader (some "b:1")),
      (keyed.attempt "http://b:1", .served done)] ∧
    attemptsOf Reference.env (own 1 h) = [(keyed.attempt "http://b:1", .served done)] ∧
    c.next = 2 ∧ (c.result 0).isSome ∧ (∀ m ∈ h, isTurn m = false) ∧
    ∀ m ∈ h, "http://b:1" ∈ m.before.table.nodes ∧ "http://b:1" ∈ m.after.table.nodes

instance (h : List ClockedMoment) (c : Config Call Call.Answer Response Clocked) :
    Decidable (Bounced h c) := by
  unfold Bounced
  infer_instance

end Sample

/-- The first request is bounced once, and the leader stays in the table from then on. -/
theorem one_bounce_heals_bounced : ∃ h c, (clocked Reference.env 1).Run
      (.new Reference.env 1 ["http://a:1", "http://b:1"]) h c ∧
    (attemptsOf Reference.env (own 0 h)).length ≤ 2 ∧
    ∃ pre m post, h = pre ++ m :: post ∧
      ∀ m' ∈ m :: post, m'.after.table.leaderFor 0 = some "http://b:1" := by
  obtain ⟨h, c, _, _, hplay, -, hfound⟩ := (requests Reference.env 1).exists_play
    (.initial (.new Reference.env 1 ["http://a:1", "http://b:1"])) Sample.bounce []
    (fun h c _ _ => decide (Sample.Bounced h c)) (by decide +kernel)
  obtain ⟨hfirst, hsecond, hnext, hdone, hquiet, hmember⟩ : Sample.Bounced h c :=
    of_decide_eq_true hfound
  have hrun : (clocked Reference.env 1).Run
      (.new Reference.env 1 ["http://a:1", "http://b:1"]) ([] ++ h) c :=
    (requests Reference.env 1).run_of_play .init hplay
  have hkeyed : Sample.keyed.shard Reference.env 1 = some 0 := by
    unfold Request.shard
    decide +kernel
  have hstarted : Started h 0 (routeWithoutCustomerIdempotency Reference.env 1 Sample.keyed) :=
    (requests Reference.env 1).started_of_play hplay rfl
  have hnormal : normalizeNodeUrl Reference.env "b:1" = some "http://b:1" := by decide +kernel
  have hregime : Regime Reference.env 1 0 "http://b:1" [] h := by
    refine ⟨hmember, fun i request hst _ _ a reply hreply => ?_⟩
    have hlt : i < 2 := hnext ▸ hrun.tracked.lt_next hst
    have hattempt : (a, outcome Reference.env a reply) ∈ attemptsOf Reference.env (own i h) :=
      List.mem_filterMap.2 ⟨_, hreply, rfl⟩
    have hleader : ∀ {a : Attempt} {reply : Reply}, a = Sample.keyed.attempt "http://b:1" →
        outcome Reference.env a reply = .served Sample.done →
        Obliging Reference.env "http://b:1" a reply := by
      rintro a reply rfl hout
      exact (if_pos rfl).mpr ⟨_, hout⟩
    rcases (show i = 0 ∨ i = 1 by omega) with rfl | rfl
    · rw [hfirst] at hattempt
      rcases List.mem_cons.1 hattempt with heq | hattempt
      · obtain ⟨rfl, hout⟩ := Prod.mk.inj heq
        rw [Obliging, if_neg (by decide)]
        exact ⟨_, hout, hnormal⟩
      · obtain ⟨ha, hout⟩ := Prod.mk.inj (List.mem_singleton.1 hattempt)
        exact hleader ha hout
    · rw [hsecond] at hattempt
      obtain ⟨ha, hout⟩ := Prod.mk.inj (List.mem_singleton.1 hattempt)
      exact hleader ha hout
  obtain ⟨hserved, hhealed⟩ := one_bounce_heals Reference.env Reference.spellsOrigins
    ["http://a:1", "http://b:1"] Nat.zero_lt_one hrun hregime
  obtain ⟨response, hresponse⟩ := Option.isSome_iff_exists.1 hdone
  obtain ⟨hlength, -, hsettled⟩ := hserved 0 Sample.keyed hstarted hkeyed
  obtain ⟨-, pre, m, post, since, hsplit, hsettles⟩ :=
    hsettled response (Config.result_eq_some.1 hresponse)
  refine ⟨h, c, hrun, hlength, pre, m, post, hsplit, ?_⟩
  refine (hhealed pre m post [] 0 since (by simpa using hsplit) hsettles ?_).1
  rintro m' hm' ⟨hturn, -⟩
  have hnone := hquiet m' (by rw [hsplit]; simp [hm'])
  rw [Sample.isTurn, hturn] at hnone
  exact absurd hnone (by simp)

end Proxy

end LoadBalance
