import FiduciaLoadBalance.Proxy.NoReplay
import FiduciaLoadBalance.Table.Scan

/-!
# Failover reaches every member

Over a fixed membership, the retry loop gives up only after it has tried every member, or
as many as it may: whatever hints the members return, and however other requests move the
cursor and the leaders between its calls.

* `failover` — the contract of the loop: what the table of a fixed membership answers;
* `Exhausted` — the loop gave up, and had a reason to;
* `forwardWithRedirect_reaches` — the result, for every run.
-/

namespace LoadBalance

open Http Text Conc

namespace Proxy

/-- An answer of the table in some state with these members, during which the cursor did
not pass its maximum. -/
def FromMembers (env : Env) (members : List String) (ev : TaskEvent) : Prop :=
  ev.1.IsTable → ∃ t t', TableStep env t ev.1 ev.2 t' ∧ t.nodes = members ∧ t.cursor ≤ t'.cursor

/-- The attempt ended so that the loop goes on, or with a response that was served. -/
def Failsafe (method : Method) (upstream : Upstream) : Prop :=
  upstream ≠ .responseTooLarge ∧
    (methodIsReplaySafe method = false → upstream ≠ .ambiguousTransport)

instance (method : Method) (upstream : Upstream) : Decidable (Failsafe method upstream) := by
  unfold Failsafe
  infer_instance

/-- The contract of the loop: a hint leads to a member, a scan to a member not excluded if
there is one, and attempts do not end the request unserved. -/
def failover (env : Env) (members : List String) (request : ForwardRequest) :
    Contract Call Call.Answer where
  rely _ e r :=
    match e, r with
    | .anyNodeExcluding excluded, answer =>
      (∀ node, answer = some node → node ∈ members ∧ node ∉ excluded) ∧
        (answer = none → members ⊆ excluded)
    | .acceptLeaderHint _ _, answer => ∀ node, answer = some node → node ∈ members
    | .validateNodeHint _, answer => ∀ node, answer = some node → node ∈ members
    | .forwardOnce a, reply => Failsafe request.method (outcome env a reply)
    | _, _ => True
  guarantee _ _ := True

/-- The attempts of the history all failed, on members only, and there is none left to
try: no member, or no hop. -/
def Exhausted (env : Env) (members : List String) (request : ForwardRequest) (h : History) :
    Prop :=
  ∃ attempted, Going env request attempted h ∧ attempted ⊆ members ∧
    (members ⊆ attempted ∨ attempted.length = maxHops)

/-- The response was served, or the loop gave up with a reason. -/
def ServedOrExhausted (env : Env) (members : List String) (request : ForwardRequest)
    (h : History) (response : Response) : Prop :=
  (∃ p ∈ attemptsOf env h, p.2 = .served response) ∨
    (response = noLeaderResponse env ∧ Exhausted env members request h)

section

variable {env : Env} {members : List String} {request : ForwardRequest}
  {attempted : List String} {h : History}

theorem retriable_of_failsafe {method : Method} {upstream : Upstream}
    (hsafe : Failsafe method upstream) (hserved : ∀ response, upstream ≠ .served response) :
    Retriable method upstream := by
  cases upstream with
  | served response => exact absurd rfl (hserved response)
  | notLeader leader => exact Or.inl id
  | notSent => exact Or.inl id
  | responseTooLarge => exact absurd rfl hsafe.1
  | ambiguousTransport =>
    refine Or.inr ⟨rfl, ?_⟩
    by_contra hnever
    exact hsafe.2 (Bool.eq_false_iff.2 hnever) rfl

theorem Retriable.ne_served {method : Method} {upstream : Upstream}
    (hret : Retriable method upstream) (response : Response) : upstream ≠ .served response := by
  rintro rfl
  rcases hret with hret | ⟨hret, -⟩
  · exact hret trivial
  · exact absurd hret (by simp)

/-- The loop meets its obligations: no branch gives up while a member is untried. -/
theorem hops_failover (env : Env) (members : List String) (request : ForwardRequest) :
    Hops env (failover env members request) request
      (fun attempted target h => Going env request attempted h ∧ attempted ⊆ members ∧
        target ∈ members ∧ target ∉ attempted)
      (fun attempted h => Going env request attempted h ∧ attempted ⊆ members)
      (ServedOrExhausted env members request) := by
  refine ⟨fun ⟨hgoing, hsub, hmem, hfresh⟩ => ⟨trivial, ?_⟩,
    fun {attempted target h} ⟨hgoing, hsub, hmem, hfresh⟩ hlen => ⟨trivial, fun reply hsafe => ?_⟩,
    fun {attempted h} ⟨hgoing, hsub⟩ leader => ?_,
    fun {attempted h} ⟨hgoing, hsub⟩ => ⟨trivial, fun answer hscan => ?_⟩,
    fun ⟨hgoing, hsub, _, _⟩ hlen => Or.inr ⟨rfl, _, hgoing, hsub, Or.inr hlen⟩⟩
  · exact ⟨hgoing.table (e := .recordRegionRequest _) trivial _, hsub, hmem, hfresh⟩
  · have hnext : (∀ response, outcome env (request.attempt target) reply ≠ .served response) →
        Going env request (target :: attempted)
            (h ++ [⟨.forwardOnce (request.attempt target), reply⟩]) ∧
          target :: attempted ⊆ members := fun hserved =>
      ⟨hgoing.attempt hfresh hlen (retriable_of_failsafe hsafe hserved),
        List.cons_subset.2 ⟨hmem, hsub⟩⟩
    generalize hout : outcome env (request.attempt target) reply = upstream at hnext
    rw [show (failover env members request).rely h (.forwardOnce (request.attempt target)) reply =
      Failsafe request.method (outcome env (request.attempt target) reply) from rfl, hout] at hsafe
    cases upstream with
    | served response =>
      refine Or.inl ⟨(request.attempt target, .served response), ?_, rfl⟩
      rw [attemptsOf_append, attemptsOf_attempt, hout]
      exact List.mem_concat_self
    | notLeader leader => exact hnext (by simp)
    | notSent => exact hnext (by simp)
    | responseTooLarge => exact absurd rfl hsafe.1
    | ambiguousTransport =>
      rw [AfterAttempt]
      split
      · exact hnext (by simp)
      · rename_i hnever
        exact absurd rfl (hsafe.2 (Bool.eq_false_iff.2 hnever))
  · refine ⟨fun shard _ => ⟨trivial, fun answer hknown => ?_⟩,
      fun _ => ⟨trivial, fun answer hknown => ?_⟩⟩
    · have hgoing' := hgoing.table (e := .acceptLeaderHint shard leader) trivial answer
      exact ⟨⟨hgoing', hsub⟩, fun target hfresh htarget =>
        ⟨hgoing', hsub, hknown target htarget, hfresh⟩⟩
    · have hgoing' := hgoing.table (e := .validateNodeHint leader) trivial answer
      exact ⟨⟨hgoing', hsub⟩, fun target hfresh htarget =>
        ⟨hgoing', hsub, hknown target htarget, hfresh⟩⟩
  · have hgoing' := hgoing.table (e := .anyNodeExcluding attempted) trivial answer
    refine ⟨fun target htarget => ?_, fun hnone => Or.inr ⟨rfl, attempted, hgoing', hsub, ?_⟩⟩
    · obtain ⟨hmem, hfresh⟩ := hscan.1 target htarget
      exact ⟨hgoing', hsub, hmem, hfresh⟩
    · exact Or.inl (hscan.2 hnone)

/-- A hint that is accepted names a node. -/
theorem TableStep.acceptLeaderHint_mem {t t' : RouteTable} {shard : ShardId}
    {nodeUrl : String} {answer : Option String}
    (h : TableStep env t (.acceptLeaderHint shard nodeUrl) answer t') {node : String}
    (hnode : answer = some node) : node ∈ t.nodes := by
  cases h with
  | acceptLeaderHint _ _ now =>
    generalize hanswer : (t.acceptLeaderHint env shard nodeUrl now).1 = answer at hnode
    rcases RouteTable.acceptLeaderHint_cases env t shard nodeUrl now with
      h | ⟨known, hknown, h⟩
    · rw [h] at hanswer
      exact absurd (hanswer.trans hnode) (by simp)
    · rw [h] at hanswer
      exact Option.some.inj (hanswer.trans hnode) ▸ hknown

theorem TableStep.validateNodeHint_mem {t t' : RouteTable} {nodeUrl : String}
    {answer : Option String} (h : TableStep env t (.validateNodeHint nodeUrl) answer t')
    {node : String} (hnode : answer = some node) : node ∈ t.nodes := by
  cases h with
  | validateNodeHint =>
    generalize hanswer : t.validateNodeHint env nodeUrl = answer at hnode
    exact RouteTable.knownNode_mem (hanswer.trans hnode)

/-- What the table of a fixed membership answers is what the contract relies on. -/
theorem relied_failover {tr : History} (hlen : members.length < 2 ^ 64)
    (htable : ∀ ev ∈ tr, FromMembers env members ev)
    (hends : ∀ p ∈ attemptsOf env tr, Failsafe request.method p.2) :
    (failover env members request).Relied [] tr := by
  refine Contract.along_iff.2 fun pre ev post htr => ?_
  have hev := htable ev (by simp [htr])
  obtain ⟨e, r⟩ := ev
  cases e with
  | forwardOnce a =>
    refine hends (a, outcome env a r) ?_
    rw [htr, attemptsOf_append, ← List.singleton_append, attemptsOf_append, attemptsOf_attempt]
    simp
  | anyNodeExcluding excluded =>
    obtain ⟨t, t', hstep, rfl, hcursor⟩ := hev trivial
    cases hstep with
    | anyNodeExcluding =>
      obtain ⟨c, -, hc⟩ := RouteTable.anyNodeExcluding_cases t excluded
      exact ⟨hc, RouteTable.anyNodeExcluding_none hlen hcursor⟩
  | acceptLeaderHint shard nodeUrl =>
    obtain ⟨t, t', hstep, rfl, -⟩ := hev trivial
    exact fun node hnode => hstep.acceptLeaderHint_mem hnode
  | validateNodeHint nodeUrl =>
    obtain ⟨t, t', hstep, rfl, -⟩ := hev trivial
    exact fun node hnode => hstep.validateNodeHint_mem hnode
  | _ => trivial

/-- The targets of the attempts are those in `attempted`. -/
theorem Going.map_nodeUrl (hg : Going env request attempted h) :
    ((attemptsOf env h).map (·.1.nodeUrl)).Perm attempted := by
  rw [hg.targets]
  exact List.reverse_perm _

/-- Without a member or a hop left, the members attempted are as many as can be. -/
theorem Exhausted.length (hnodup : members.Nodup) (hex : Exhausted env members request h) :
    (attemptsOf env h).length = min members.length maxHops := by
  obtain ⟨attempted, hgoing, hsub, hall⟩ := hex
  have hcount : (attemptsOf env h).length = attempted.length := by
    simpa using hgoing.map_nodeUrl.length_eq
  have hle : attempted.length ≤ members.length := (hgoing.nodup.subperm hsub).length_le
  have hmax := hgoing.length_le
  rcases hall with hall | hall
  · have hge : members.length ≤ attempted.length := (hnodup.subperm hall).length_le
    omega
  · omega

/-- With few members, all of them were attempted. -/
theorem Exhausted.mem (hex : Exhausted env members request h) (hfew : members.length ≤ maxHops)
    {member : String} (hmember : member ∈ members) :
    ∃ p ∈ attemptsOf env h, p.1.nodeUrl = member := by
  obtain ⟨attempted, hgoing, hsub, hall⟩ := hex
  have hmem : member ∈ attempted := by
    rcases hall with hall | hall
    · exact hall hmember
    · have hperm : attempted.Perm members :=
        (hgoing.nodup.subperm hsub).perm_of_length_le (by omega)
      exact hperm.mem_iff.2 hmember
  obtain ⟨p, hp, hurl⟩ := List.mem_map.1 (hgoing.map_nodeUrl.mem_iff.2 hmem)
  exact ⟨p, hp, hurl⟩

end

/-- **Failover reaches every member.**  Over a fixed membership of distinct nodes, as many
as a 64-bit length can count and with the first target among them, let no attempt end in a
response that is too large and no attempt of a mutation be ambiguous.  Then the loop returns
a response that was served, or it makes exactly as many attempts as there are members, or
hops if these are fewer, on distinct members, before it answers that there is no leader.  So
where the members are no more than the hops, a member that serves whenever it is asked makes
the request served. -/
theorem forwardWithRedirect_reaches (env : Env) {members : List String} (hnodup : members.Nodup)
    (hlen : members.length < 2 ^ 64) (request : ForwardRequest)
    (htarget : request.target ∈ members) {tr : History} {response : Response}
    (hrun : (forwardWithRedirect env request).Steps tr (.done response))
    (htable : ∀ ev ∈ tr, FromMembers env members ev)
    (hends : ∀ p ∈ attemptsOf env tr, Failsafe request.method p.2) :
    ((∃ p ∈ attemptsOf env tr, p.2 = .served response) ∨
      (response = noLeaderResponse env ∧
        (attemptsOf env tr).length = min members.length maxHops ∧
        ((attemptsOf env tr).map (·.1.nodeUrl)).Nodup ∧
        ∀ p ∈ attemptsOf env tr, p.1.nodeUrl ∈ members)) ∧
    (members.length ≤ maxHops →
      (∃ member ∈ members, ∀ p ∈ attemptsOf env tr, p.1.nodeUrl = member →
        ∃ served, p.2 = .served served) →
      ∃ p ∈ attemptsOf env tr, p.2 = .served response) := by
  have hstart : Going env request [] [] := ⟨by simp, rfl, List.nodup_nil, Nat.zero_le _, by simp⟩
  have hwp := wp_forwardWithRedirect (hops_failover env members request)
    ⟨hstart, List.nil_subset _, htarget, List.not_mem_nil⟩
  obtain ⟨-, hq⟩ := Proc.wp_sound hwp hrun (relied_failover hlen htable hends)
  rw [List.nil_append] at hq
  have hresult : ServedOrExhausted env members request tr response := hq
  rcases hresult with hserved | ⟨hnone, hex⟩
  · exact ⟨Or.inl hserved, fun _ _ => hserved⟩
  · have hex' := hex
    obtain ⟨attempted, hgoing, hsub, -⟩ := hex'
    refine ⟨Or.inr ⟨hnone, hex.length hnodup, hgoing.map_nodeUrl.nodup_iff.2 hgoing.nodup,
      fun p hp => hsub (hgoing.map_nodeUrl.mem_iff.1 (List.mem_map_of_mem hp))⟩, ?_⟩
    rintro hfew ⟨member, hmember, hserves⟩
    obtain ⟨p, hp, hurl⟩ := hex.mem hfew hmember
    obtain ⟨served, hserved⟩ := hserves p hp hurl
    exact absurd hserved ((hgoing.retriable p hp).ne_served served)

/-- The first node cannot be reached, the second serves. -/
theorem forwardWithRedirect_reaches_second :
    let request := (Sample.put []).forward Reference.env 1 "http://a:1"
    let run := (forwardWithRedirect Reference.env request).runWith Sample.oracle []
    ∃ p ∈ attemptsOf Reference.env run.1, p.2 = .served run.2 := by
  intro request run
  have hserves : ∀ p ∈ attemptsOf Reference.env run.1, p.1.nodeUrl = "http://b:1" →
      p.2 = .served { status := .ok, headers := .empty, body := .full (utf8 "done") } := by
    decide +kernel
  refine (forwardWithRedirect_reaches Reference.env (show Sample.table.nodes.Nodup by decide +kernel)
    (by decide +kernel) request (by decide +kernel) (Proc.steps_runWith Sample.oracle _ [])
    (fun ev hev htable => ?_) (by decide +kernel)).2 (by decide +kernel)
    ⟨"http://b:1", by decide +kernel, fun p hp hurl => ⟨_, hserves p hp hurl⟩⟩
  obtain ⟨h, hanswer⟩ := Proc.mem_runWith hev
  rw [hanswer]
  obtain ⟨t', hstep⟩ := Sample.tableStep_oracle h htable
  exact ⟨Sample.table, t', hstep, rfl, Nat.zero_le _⟩

end Proxy

end LoadBalance
