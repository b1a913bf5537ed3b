import FiduciaLoadBalance.Proxy.Grants
import FiduciaLoadBalance.Proxy.Simulation

/-!
# What an answer says

A client that is answered wants to know whether its mutation was carried out, and whether it
may send the request again.

* `Final`, `Unsure` — the two ways to be told that it may have been;
* `sendingOnce` — the contract of a task: it sends a mutation only while none can have been
  carried out;
* `answers_truthful` — so a mutation is carried out at most once for a request, and whoever is
  told neither way can be sure that it was not, and will not be.
-/

namespace LoadBalance

open Http Text Json Conc Machine

namespace Proxy

/-! ## What a response tells -/

/-- The code of an error that is told in JSON. -/
def errorCode (env : Env) (response : Response) : Option String :=
  match response.body with
  | .full bytes => ((env.fromSlice bytes).bind (·.get? "error")).bind (·.asStr)
  | .stream _ _ => none

/-- Is the request handled under a key? -/
def Keyed (env : Env) (request : Request) : Prop :=
  ∃ idempotency, CustomerIdempotency.fromRequest env request.identity request.method request.uri
    request.headers request.body = .ok (some idempotency)

/-- A final response; with a key it is marked as one. -/
def Final (keyed : Prop) (response : Response) : Prop :=
  isCacheableIdempotentResponse response.status = true ∧
    (keyed → response.headers.get fiduciaIdempotencyHeader = some storedHeader ∨
      response.headers.get fiduciaIdempotencyHeader = some storeFailedHeader)

/-- An answer that says that nobody knows. -/
structure Unsure (env : Env) (response : Response) : Prop where
  status : response.status = .badGateway
  code : errorCode env response = some "ambiguous_upstream_result" ∨
    errorCode env response = some "upstream_response_too_large"
  mark : response.headers.get fiduciaIdempotencyHeader = none ∨
    response.headers.get fiduciaIdempotencyHeader = some notStoredHeader

/-- If the mutation may have been carried out, the response tells. -/
def Truthful (env : Env) (keyed : Prop) (h : History) (response : Response) : Prop :=
  Touched (attemptsOf env h) → Final keyed response ∨ Unsure env response

section

variable {env : Env} {shardCount : ℕ} {request : Request} {idempotency : CustomerIdempotency}
  {fencingToken : UInt64} {h : History} {response : Response}

theorem errorCode_jsonResponse (hjson : env.JsonRoundTrips) (status : StatusCode)
    (code detail : String) :
    errorCode env (jsonResponse env status (.ofFields
      [("error", .string code), ("detail", .string detail)])) = some code := by
  have hregular : (Value.ofFields
      [("error", .string code), ("detail", .string detail)]).Regular := by
    refine Value.regular_ofFields fun f hf => ?_
    rcases List.mem_pair.1 hf with rfl | rfl
    · exact .string _
    · exact .string _
  show ((env.fromSlice (env.toVec _)).bind _).bind _ = _
  rw [hjson _ hregular, Option.bind_some]
  simp [List.lookup, Value.asStr]

theorem unsure_jsonResponse (hjson : env.JsonRoundTrips) {code : String} (detail : String)
    (hcode : code = "ambiguous_upstream_result" ∨ code = "upstream_response_too_large") :
    Unsure env (jsonResponse env .badGateway (.ofFields
      [("error", .string code), ("detail", .string detail)])) := by
  refine ⟨rfl, ?_, Or.inl (fiduciaHeader_jsonResponse _ _)⟩
  rw [errorCode_jsonResponse hjson]
  rcases hcode with rfl | rfl
  · exact Or.inl rfl
  · exact Or.inr rfl

/-- An error that was told is still told once it was buffered. -/
theorem errorCode_captured {captured : CapturedResponse} {code : String}
    (hcapture : CapturedResponse.fromResponse env response = .ok captured)
    (hcode : errorCode env response = some code) :
    errorCode env captured.intoResponse = some code := by
  obtain ⟨-, -, hbody⟩ := fromResponse_eq_ok hcapture
  unfold errorCode at hcode
  cases hfull : response.body with
  | full bytes =>
    rw [hfull] at hcode
    rw [hfull, toBytes] at hbody
    split at hbody
    · obtain rfl := Option.some.inj hbody
      exact hcode
    · exact absurd hbody (by simp)
  | stream chunks ending =>
    rw [hfull] at hcode
    exact absurd hcode (by simp)

/-- Who is not told of a result that was stored, is told as before. -/
theorem unsure_of_finalCapture (hjson : env.JsonRoundTrips) {error : Response}
    (herror : finalCapture env response = .error error)
    (htold : Final False response ∨ Unsure env response) : Unsure env error := by
  obtain ⟨detail, rfl⟩ | ⟨captured, hcapture, hpassing, rfl⟩ := finalCapture_eq_error herror
  · exact unsure_jsonResponse hjson detail (Or.inr rfl)
  · obtain ⟨hstatus, -, -⟩ := fromResponse_eq_ok hcapture
    rcases htold with ⟨hfinal, -⟩ | hunsure
    · rw [hstatus, hfinal] at hpassing
      exact absurd hpassing (by decide)
    · refine ⟨hstatus.trans hunsure.status, ?_, Or.inr ?_⟩
      · exact hunsure.code.imp (errorCode_captured hcapture) (errorCode_captured hcapture)
      · rw [Response.withHeader_headers, HeaderMap.get_insert_self]

/-! ## What a task tells -/

/-- The contract of a task: it sends a mutation only while none can have been carried out. -/
def sendingOnce (env : Env) : Contract Call Call.Answer where
  rely _ _ _ := True
  guarantee h e := ∀ a, e = .forwardOnce a → mutates a = true → ¬Touched (attemptsOf env h)

theorem sendingOnce_table (h : History) {e : Call} (he : e.IsTable) :
    (sendingOnce env).guarantee h e := by
  rintro a rfl
  exact he.elim

/-- **A request of a client**, sent once. -/
theorem wp_send_truthful (hjson : env.JsonRoundTrips) (huntouched : ¬Touched (attemptsOf env h)) :
    (routeWithoutCustomerIdempotency env shardCount request).wp (sendingOnce env)
      (Truthful env False) h := by
  refine wp_of_sending (K := fun h => ¬Touched (attemptsOf env h)) ⟨fun {h e} hK he =>
    ⟨sendingOnce_table h he, fun r _ => by rwa [attemptsOf_concat_table env h he r]⟩,
    fun {h} hK nodeUrl => ⟨fun a ha _ => hK, fun reply _ => ?_⟩, fun hK _ ht => absurd ht hK,
    fun hK ht => absurd ht hK⟩ (fun _ _ => trivial) huntouched
  cases hout : outcome env (request.attempt nodeUrl) reply with
  | served response =>
    intro ht
    rw [touched_attempt, hout] at ht
    exact Or.inl ⟨(ht.resolve_left hK).2, fun hfalse => hfalse.elim⟩
  | notLeader leader => exact untouched_attempt hK fun _ => by simp [hout, Upstream.Effective]
  | notSent => exact untouched_attempt hK fun _ => by simp [hout, Upstream.Effective]
  | ambiguousTransport =>
    rw [AfterAttempt]
    split
    · rename_i hsafe
      refine untouched_attempt hK fun hmutates => ?_
      have hmethod := (Bool.and_eq_true_iff.1 hmutates).1
      exact absurd (hsafe.symm.trans (not_replaySafe hmethod)) (by decide)
    · exact fun _ => Or.inr (unsure_jsonResponse hjson _ (Or.inl rfl))
  | responseTooLarge => exact fun _ => Or.inr (unsure_jsonResponse hjson _ (Or.inr rfl))

/-- A request of the protocol's own leaves it as it is. -/
theorem wp_internal_truthful (hstep : ∀ nodeUrl, isProtocolStep (request.attempt nodeUrl) = true)
    {Q : History → Response → Prop} (hQ : ∀ h' response,
      (Touched (attemptsOf env h') ↔ Touched (attemptsOf env h)) → Q h' response) :
    (routeWithoutCustomerIdempotency env shardCount request).wp (sendingOnce env) Q h := by
  have hnone (nodeUrl : String) : mutates (request.attempt nodeUrl) = false :=
    mutates_of_step (hstep nodeUrl)
  refine wp_of_sending (K := fun h' => Touched (attemptsOf env h') ↔ Touched (attemptsOf env h))
    ⟨fun {h' e} hK he =>
      ⟨sendingOnce_table h' he, fun r _ => by rwa [attemptsOf_concat_table env h' he r]⟩,
    fun {h'} hK nodeUrl => ⟨?_, fun reply _ => ?_⟩, fun hK _ => hQ _ _ hK, fun hK => hQ _ _ hK⟩
    (fun _ _ => trivial) Iff.rfl
  · rintro a ha hmutates
    obtain rfl := Call.forwardOnce.inj ha
    rw [hnone] at hmutates
    exact absurd hmutates (by simp)
  · have hsame : Touched (attemptsOf env
        (h' ++ [⟨.forwardOnce (request.attempt nodeUrl), reply⟩])) ↔
          Touched (attemptsOf env h) := by
      rw [touched_attempt, hnone]
      simpa using hK
    cases outcome env (request.attempt nodeUrl) reply with
    | served response => exact hQ _ _ hsame
    | notLeader leader => exact hsame
    | notSent => exact hsame
    | ambiguousTransport =>
      rw [AfterAttempt]
      split
      · exact hsame
      · exact hQ _ _ hsame
    | responseTooLarge => exact hQ _ _ hsame

/-- What follows the mutation marks what is final, and leaves the rest as it was told. -/
theorem wp_settle_truthful (hjson : env.JsonRoundTrips)
    (htold : Truthful env False h response) :
    (settleCustomerIdempotency env shardCount request idempotency fencingToken response).wp
      (sendingOnce env) (Truthful env True) h := by
  rw [wp_settleCustomerIdempotency]
  cases hfinal : finalCapture env response with
  | error error =>
    refine wp_internal_truthful isProtocolStep_abandon fun h' _ hsame htouched => Or.inr ?_
    exact unsure_of_finalCapture hjson hfinal (htold (hsame.1 htouched))
  | ok captured =>
    refine wp_internal_truthful (isProtocolStep_complete _) fun h' said _ _ => Or.inl ⟨?_, fun _ => ?_⟩
    · exact (finalCapture_eq_ok hfinal).2
    · rw [Response.withHeader_headers, HeaderMap.get_insert_self]
      split
      · exact Or.inl rfl
      · exact Or.inr rfl

/-- **A task is truthful**: what it answers tells if its mutation may have been carried out. -/
theorem wp_route_truthful (hjson : env.JsonRoundTrips) (shardCount : ℕ) (request : Request) :
    (route env shardCount request).wp (sendingOnce env) (Truthful env (Keyed env request)) [] := by
  have hstart : ¬Touched (attemptsOf env []) := by
    rintro ⟨p, hp, -⟩
    exact absurd hp List.not_mem_nil
  have hrefused (response : Response) : Truthful env (Keyed env request) [] response :=
    fun htouched => absurd htouched hstart
  unfold route
  split
  · exact hrefused _
  split
  · exact hrefused _
  split
  · exact hrefused _
  · rename_i hkeyless
    have hnone : ¬Keyed env request := by
      rintro ⟨idempotency, hidem⟩
      rw [hkeyless] at hidem
      exact absurd hidem (by simp)
    split
    · exact hrefused _
    · refine Proc.wp_mono (wp_send_truthful hjson hstart) fun h' response htold htouched => ?_
      exact (htold htouched).imp_left fun hfinal => ⟨hfinal.1, fun hkeyed => absurd hkeyed hnone⟩
  · rename_i idempotency hidem
    have hkeyed : Keyed env request := ⟨idempotency, hidem⟩
    refine wp_routeWithCustomerIdempotency.2 ?_
    refine wp_internal_truthful isProtocolStep_claim fun h' claimed hsame => ?_
    have huntouched : ¬Touched (attemptsOf env h') := mt hsame.1 hstart
    cases grantedToken env idempotency claimed with
    | error response => exact fun htouched => absurd htouched huntouched
    | ok fencingToken =>
      refine Proc.wp_mono (wp_send_truthful hjson huntouched) fun h'' response htold => ?_
      refine Proc.wp_mono (wp_settle_truthful hjson htold) fun _ _ htold' htouched => ?_
      exact (htold' htouched).imp_left fun hfinal => ⟨hfinal.1, fun _ => hfinal.2 trivial⟩

end

/-! ## What the nodes did -/

/-- How many mutations of task `i` were carried out, or may still be. -/
def Nodes.carried (i : ℕ) (s : Nodes) : ℕ :=
  (s.applied ++ s.inFlight).countP fun p => p.1 = i ∧ mutates p.2 = true

section

variable {env : Env} {s s' : Nodes} {i j : ℕ} {a : Attempt} {report : Report}

theorem carried_send : (s.send env i a).carried j =
    s.carried j + if i = j ∧ mutates a = true then 1 else 0 := by
  unfold Nodes.carried Nodes.send
  rw [List.countP_append, List.countP_append, List.countP_cons]
  simp only [decide_eq_true_eq]
  omega

theorem carried_performs (h : Performs env i a s report s') :
    s'.carried j ≤ s.carried j + if i = j ∧ mutates a = true then 1 else 0 := by
  cases h with
  | mutation hnone hmutates =>
    unfold Nodes.carried
    rw [List.cons_append, List.countP_cons]
    simp
  | _ => exact Nat.le_add_right _ _

/-- What arrives after all was on its way. -/
theorem carried_deliver (hflying : (i, a) ∈ s.inFlight)
    (h : Performs env i a { s with inFlight := s.inFlight.erase (i, a) } report s') :
    s'.carried j ≤ s.carried j := by
  refine (carried_performs h).trans (le_of_eq ?_)
  unfold Nodes.carried
  have hperm := List.perm_cons_erase hflying
  have hcount := hperm.countP_eq fun p => decide (p.1 = j ∧ mutates p.2 = true)
  rw [List.countP_append, List.countP_append, hcount, List.countP_cons]
  simp only [decide_eq_true_eq]
  omega

end

section

variable {env : Env} {shardCount : ℕ} {admits : Request → Prop} {expires : Bool}
  {h : List (WorldMoment Nodes)} {c c' : Config Call Call.Answer Response (World Nodes)}
  {m : WorldMoment Nodes} {i : ℕ}

/-- A task that waits for an attempt at a mutation has not made one that may have been
carried out. -/
theorem untouched_of_waiting {w₀ : World Nodes} (hjson : env.JsonRoundTrips)
    (hrun : (balancer env shardCount (upstreams env expires) admits).Run w₀ h c) {a : Attempt}
    {k : Reply → Task Response} (hlive : c.procs i = some (.call (.forwardOnce a) k))
    (hmutates : mutates a = true) : ¬Touched (attemptsOf env (own i h)) ∧ ¬Gone c i := by
  obtain ⟨p, hst⟩ := hrun.tracked.started hlive
  obtain ⟨-, request, -, rfl⟩ := hrun.start_of_started hst
  refine ⟨hrun.own_next hst (wp_route_truthful hjson shardCount request)
    (fun _ _ _ _ _ _ => trivial) hlive a rfl hmutates, fun hgone => ?_⟩
  rw [hgone.1] at hlive
  exact absurd hlive (by simp)

/-- What was carried out for a task: one mutation at most, and the task knows, or is gone. -/
def Accounted (env : Env) (h : List (WorldMoment Nodes))
    (c : Config Call Call.Answer Response (World Nodes)) (i : ℕ) : Prop :=
  c.shared.nodes.carried i ≤ 1 ∧
    (c.shared.nodes.carried i ≠ 0 → Touched (attemptsOf env (own i h)) ∨ Gone c i)

/-- A step that carries nothing more out for the task. -/
theorem Accounted.still {M : Machine Call Call.Answer Response (World Nodes)}
    (hstep : M.Step c m c') (haccounted : Accounted env h c i)
    (hle : c'.shared.nodes.carried i ≤ c.shared.nodes.carried i) :
    Accounted env (h ++ [m]) c' i := by
  refine ⟨hle.trans haccounted.1, fun hne => ?_⟩
  have hbefore : c.shared.nodes.carried i ≠ 0 := by omega
  rcases haccounted.2 hbefore with ⟨p, hp, heffective⟩ | hgone
  · refine Or.inl ⟨p, ?_, heffective⟩
    rw [own_append, attemptsOf_append]
    exact List.mem_append_left _ hp
  · exact Or.inr (hstep.gone hgone)

/-- A step that may carry out one mutation, of a task that has none yet. -/
theorem Accounted.first {M : Machine Call Call.Answer Response (World Nodes)}
    (hstep : M.Step c m c') (haccounted : Accounted env h c i) {j : ℕ} {a : Attempt}
    (hle : c'.shared.nodes.carried i ≤
      c.shared.nodes.carried i + if j = i ∧ mutates a = true then 1 else 0)
    (hnone : mutates a = true → ¬Touched (attemptsOf env (own j h)) ∧ ¬Gone c j)
    (hknown : mutates a = true → Touched (attemptsOf env (own j (h ++ [m]))) ∨ Gone c' j) :
    Accounted env (h ++ [m]) c' i := by
  by_cases hfirst : j = i ∧ mutates a = true
  · obtain ⟨rfl, hmutates⟩ := hfirst
    have hzero : c.shared.nodes.carried j = 0 := by
      by_contra hne
      obtain ⟨huntouched, hhere⟩ := hnone hmutates
      exact (haccounted.2 hne).elim huntouched hhere
    rw [hzero, if_pos ⟨rfl, hmutates⟩] at hle
    exact ⟨hle, fun _ => hknown hmutates⟩
  · rw [if_neg hfirst] at hle
    exact haccounted.still hstep hle

/-- What was carried out is accounted for, in every state of a run. -/
theorem accounted_of_run (hjson : env.JsonRoundTrips) {seeds : List String}
    (hrun : (balancer env shardCount (upstreams env expires) admits).Run
      (World.new env shardCount seeds Nodes.empty) h c) (i : ℕ) : Accounted env h c i := by
  induction hrun with
  | init => exact ⟨Nat.zero_le _, fun hne => absurd rfl hne⟩
  | @step h c c' m hrun hstep ih =>
    cases hstep with
    | start hstart => exact ih.still (.start hstart) le_rfl
    | @answer j e k r s' hlive hexec =>
      have hstep : (balancer env shardCount (upstreams env expires) admits).Step c _ _ :=
        .answer hlive hexec
      have hexec : Exec env (upstreams env expires) j c.shared e r s' := hexec
      cases hexec with
      | table htable => exact ih.still hstep le_rfl
      | @attempt a reply n hanswers =>
        have hanswers : Answers env j a c.shared.nodes reply n := hanswers
        have hknown (heffective : (outcome env a reply).Effective) (hmutates : mutates a = true) :
            Touched (attemptsOf env (own j (h ++ [⟨.answer j ⟨.forwardOnce a, reply⟩, c.shared,
              { c.shared with nodes := n }⟩]))) := by
          rw [own_append, own_answer_self, own_nil, touched_attempt]
          exact Or.inr ⟨hmutates, heffective⟩
        cases hanswers with
        | refused hrefused => exact ih.still hstep le_rfl
        | failed hserved hfail => exact ih.still hstep le_rfl
        | lost hlost =>
          refine ih.first hstep (le_of_eq carried_send) (untouched_of_waiting hjson hrun hlive)
            fun hmutates => Or.inl (hknown ?_ hmutates)
          rcases hlost with hlost | hlost
          · rw [hlost]
            trivial
          · rw [hlost]
            trivial
        | served hserved hperforms hfinal hsays =>
          refine ih.first hstep (carried_performs hperforms) (untouched_of_waiting hjson hrun hlive)
            fun hmutates => Or.inl (hknown ?_ hmutates)
          rw [hserved]
          exact hfinal hmutates
    | env harrives =>
      have hstep : (balancer env shardCount (upstreams env expires) admits).Step c _ _ :=
        .env harrives
      have harrives : Arrives env (upstreams env expires) c.shared _ := harrives
      cases harrives with
      | snapshot nodes shards fetchedAt => exact ih.still hstep le_rfl
      | nodes hbackground =>
        have hbackground : Background env expires c.shared.nodes _ := hbackground
        cases hbackground with
        | deliver hflying hperforms =>
          exact ih.still hstep (carried_deliver hflying hperforms)
        | expire hexpires => exact ih.still hstep le_rfl
    | @drop j p s' hlive hcancels =>
      have hstep : (balancer env shardCount (upstreams env expires) admits).Step c _ _ :=
        .drop hlive hcancels
      have hcancels : Cancels (upstreams env expires) j p c.shared s' := hcancels
      cases hcancels with
      | still => exact ih.still hstep le_rfl
      | @attempt w a k n hsent =>
        obtain rfl : n = c.shared.nodes.send env j a := hsent
        exact ih.first hstep (le_of_eq carried_send) (untouched_of_waiting hjson hrun hlive)
          fun _ => Or.inr ⟨Function.update_self .., hrun.lt_next hlive⟩

/-- **The answer says what became of a mutation.**  In every run of the balancer over nodes
that keep records, which may expire, with any tasks cancelled and any attempts lost: for no
request is more than one mutation carried out, at once or when a lost attempt arrives; and if
one was, or may yet be, the client is answered with a final response, which is marked as
`stored` or `store_failed` if the request is handled under a key, or with a 502 that says that
the result is ambiguous or too large.  So whoever is answered anything else knows that the mutation was not
carried out, and will not be. -/
theorem answers_truthful (hjson : env.JsonRoundTrips) {seeds : List String}
    (hrun : (balancer env shardCount (upstreams env expires) admits).Run
      (World.new env shardCount seeds Nodes.empty) h c) (i : ℕ) :
    c.shared.nodes.carried i ≤ 1 ∧
    ∀ request, Started h i (route env shardCount request) →
      ∀ response, c.result i = some response → c.shared.nodes.carried i ≠ 0 →
        Final (Keyed env request) response ∨ Unsure env response := by
  obtain ⟨hone, hknown⟩ := accounted_of_run hjson hrun i
  refine ⟨hone, fun request hst response hresult hne => ?_⟩
  have hdone := Config.result_eq_some.1 hresult
  have htold := hrun.own_result hst (wp_route_truthful hjson shardCount request)
    (fun _ _ _ _ _ _ => trivial) hdone
  rcases hknown hne with htouched | hgone
  · exact htold htouched
  · rw [hgone.1] at hdone
    exact absurd hdone (by simp)

end

/-- A mutation whose reply is lost, played: it may yet be carried out, and the client is told
that nobody knows. -/
theorem answers_truthful_lost : ∃ h c response, Sample.Cluster.Run Sample.world h c ∧
    c.result 0 = some response ∧ c.shared.nodes.carried 0 = 1 ∧
    Unsure Reference.env response := by
  obtain ⟨h, c, _, _, hplay, -, hfound⟩ := Sample.driver.exists_play (.initial Sample.world)
    (Sample.start [] :: (Sample.hop 0 (.perform Sample.accepted) ++
      Sample.hop 0 (.reply .transportError) ++ Sample.hop 0 (.perform Sample.accepted))) []
    (fun _ c _ _ => ((c.result 0).any fun response =>
      !isCacheableIdempotentResponse response.status) ∧ c.shared.nodes.carried 0 = 1)
    (by decide +kernel)
  obtain ⟨hanswer, hcarried⟩ := of_decide_eq_true hfound
  obtain ⟨response, hresult, hpassing⟩ := (Option.any_eq_true _ _).1 hanswer
  have hrun : Sample.Cluster.Run Sample.world ([] ++ h) c :=
    Sample.driver.run_of_play .init hplay
  have hst := Sample.driver.started_of_play hplay rfl
  have hne : c.shared.nodes.carried 0 ≠ 0 := by omega
  have htold := (answers_truthful Reference.jsonRoundTrips hrun 0).2 _ hst _ hresult hne
  refine ⟨h, c, response, hrun, hresult, hcarried, htold.resolve_left fun hfinal => ?_⟩
  rw [hfinal.1] at hpassing
  exact absurd hpassing (by decide)

end Proxy

end LoadBalance
