import FiduciaLoadBalance.Proxy.Route

/-!
# Complete mediation

No upstream attempt is made for a request that was not permitted, whatever the state
of the table and whatever the nodes answer: neither the client's own request on any
hop nor a step of the idempotency protocol.  And each attempt asks for its own method
and path, which for the client's request are those that were checked.
-/

namespace LoadBalance

open Http Conc

namespace Proxy

/-- The checks of `route` passed: no dot segment, and authorized for the route. -/
def Permitted (request : Request) : Prop :=
  ¬HasDotSegment request.uri.path ∧
    Authorized request.identity request.method request.uri

/-- An attempt of the idempotency protocol, on behalf of the request's caller. -/
def IsInternal (request : Request) (a : Attempt) : Prop :=
  a.identity = request.identity ∧ a.method = .post ∧
    (a.uri = claimUri ∨ a.uri = completeUri ∨ a.uri = abandonUri)

/-- What a request task sends: the client's request, or one of the idempotency protocol
on behalf of its caller. -/
def Sent (env : Env) (request sent : Request) : Prop :=
  sent = request ∨ ∃ uri body, (uri = claimUri ∨ uri = completeUri ∨ uri = abandonUri) ∧
    sent = internalRequest env request.identity uri body

/-- **The rule for `route`**, where only the calls matter and not the responses: a
permitted request task consists of sending. -/
theorem wp_route_of_sent {env : Env} {shardCount : ℕ} {request : Request}
    {c : Contract Call Call.Answer} {h : History}
    (hsend : Permitted request → ∀ {sent : Request} {Q : History → Response → Prop} {h : History},
      Sent env request sent → (∀ h response, Q h response) →
        (routeWithoutCustomerIdempotency env shardCount sent).wp c Q h) :
    (route env shardCount request).wp c (fun _ _ => True) h := by
  rw [route]
  split
  · trivial
  · rename_i hdot
    split
    · trivial
    · rename_i hauth
      have hp : Permitted request :=
        ⟨mt (pathHasDotSegment_iff _).2 hdot, (authorizeRoute_ok_iff _ _ _).1 hauth⟩
      have hinternal : ∀ {uri body} {Q : History → Response → Prop} {h},
          (uri = claimUri ∨ uri = completeUri ∨ uri = abandonUri) → (∀ h response, Q h response) →
          (routeWithoutCustomerIdempotency env shardCount
            (internalRequest env request.identity uri body)).wp c Q h := fun huri hQ =>
        hsend hp (Or.inr ⟨_, _, huri, rfl⟩) hQ
      split
      · trivial
      · split
        · trivial
        · exact hsend hp (Or.inl rfl) fun _ _ => trivial
      · rename_i idempotency _
        rw [wp_routeWithCustomerIdempotency]
        refine hinternal (Or.inl rfl) fun h' response => ?_
        unfold AfterClaim
        split
        · trivial
        · refine hsend hp (Or.inl rfl) fun h'' response => ?_
          rw [wp_settleCustomerIdempotency]
          split
          · exact hinternal (Or.inr (Or.inr rfl)) fun _ _ => trivial
          · exact hinternal (Or.inr (Or.inl rfl)) fun _ _ => trivial

/-- The contract of a request task: calls are made for a permitted request only, and
attempts are internal or the client's request as it is. -/
def mediated (request : Request) : Contract Call Call.Answer where
  rely _ _ _ := True
  guarantee _ e := Permitted request ∧ ∀ a, e = .forwardOnce a →
    IsInternal request a ∨ a = request.attempt a.nodeUrl

theorem wp_route_mediated {env : Env} {shardCount : ℕ} {request : Request} {h : History} :
    (route env shardCount request).wp (mediated request) (fun _ _ => True) h := by
  refine wp_route_of_sent fun hp {sent Q h} hsent hQ => ?_
  have hattempt : ∀ nodeUrl, IsInternal request (sent.attempt nodeUrl) ∨
      sent.attempt nodeUrl = request.attempt nodeUrl := by
    rcases hsent with rfl | ⟨uri, body, huri, rfl⟩
    · exact fun _ => Or.inr rfl
    · exact fun _ => Or.inl ⟨rfl, rfl, huri⟩
  have hsending : Sending env (mediated request) sent (fun _ => True) Q := by
    refine ⟨fun {h e} _ he => ⟨⟨hp, fun a ha => ?_⟩, fun _ _ => trivial⟩,
      fun _ nodeUrl => ⟨⟨hp, fun a ha => ?_⟩, fun reply _ => ?_⟩, fun _ _ => hQ _ _,
      fun _ => hQ _ _⟩
    · rw [ha] at he
      exact he.elim
    · obtain rfl := Call.forwardOnce.inj ha
      exact hattempt nodeUrl
    · cases outcome env (sent.attempt nodeUrl) reply with
      | ambiguousTransport =>
        rw [AfterAttempt]
        split
        · trivial
        · exact hQ _ _
      | notLeader _ => trivial
      | notSent => trivial
      | _ => exact hQ _ _
  exact wp_of_sending hsending (fun _ _ => trivial) trivial

/-- An attempt of a history is one of its calls. -/
theorem mem_attemptsOf {env : Env} {h : History} {p : Attempt × Upstream}
    (hp : p ∈ attemptsOf env h) : ∃ pre, ∃ reply : Reply, ∃ post,
      h = pre ++ ⟨.forwardOnce p.1, reply⟩ :: post ∧ p.2 = outcome env p.1 reply := by
  obtain ⟨⟨e, r⟩, hev, hmatch⟩ := List.mem_filterMap.1 hp
  obtain ⟨pre, post, hsplit⟩ := List.append_of_mem hev
  cases e with
  | forwardOnce a =>
    obtain rfl := Option.some.inj hmatch
    exact ⟨pre, r, post, hsplit, rfl⟩
  | _ => exact absurd hmatch (by simp)

/-- **Complete mediation.**  If a request task makes any upstream attempt, the path of
the request has no dot segment and the request is authorized for its route.  Each
attempt is a step of the idempotency protocol or the client's request as it is; and
what it sends has its method, and a URL on which the URL parser reads exactly its path. -/
theorem route_mediates (env : Env) (shardCount : ℕ) (request : Request) {tr : History}
    {q : Task Response} (hrun : (route env shardCount request).Steps tr q) :
    (attemptsOf env tr ≠ [] → Permitted request) ∧
    ∀ p ∈ attemptsOf env tr,
      (IsInternal request p.1 ∨ p.1 = request.attempt p.1.nodeUrl) ∧
      ∀ sent, prepare env p.1 = .send sent → sent.method = p.1.method ∧
        ∃ parsed, env.parseUrl sent.url = some parsed ∧ parsed.path = p.1.uri.path := by
  have hrelied : (mediated request).Relied [] tr :=
    Contract.along_iff.2 fun _ _ _ _ => trivial
  have hguar : ∀ p ∈ attemptsOf env tr, Permitted request ∧
      (IsInternal request p.1 ∨ p.1 = request.attempt p.1.nodeUrl) := by
    intro p hp
    obtain ⟨pre, reply, post, hsplit, -⟩ := mem_attemptsOf hp
    obtain ⟨hperm, hform⟩ := Proc.wp_guarantee wp_route_mediated hrun hrelied hsplit
    exact ⟨hperm, hform p.1 rfl⟩
  refine ⟨fun hne => ?_, fun p hp => ?_⟩
  · obtain ⟨p, hp⟩ := List.exists_mem_of_ne_nil _ hne
    exact (hguar p hp).1
  · refine ⟨(hguar p hp).2, fun sent hsent => ?_⟩
    obtain ⟨hmethod, -, hurl⟩ := prepare_send hsent
    exact ⟨hmethod, hurl⟩

/-- A mutation that is claimed at a node: it was permitted. -/
theorem route_mediates_put : Permitted (Sample.put []) :=
  (route_mediates Reference.env 1 (Sample.put []) (Proc.steps_runWith Sample.oracle _ [])).1
    (by decide +kernel)

end Proxy

end LoadBalance
