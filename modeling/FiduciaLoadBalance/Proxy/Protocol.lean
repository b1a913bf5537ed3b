import FiduciaLoadBalance.Proxy.Duplicate
import FiduciaLoadBalance.Proxy.NoReplay

/-!
# The task of a request with a key

What a task does that holds a key, told from its own attempts: it forwards the client's
request only after its claim was granted, and after nothing that may have applied it;
it completes and releases only what it was granted; and it answers `stored` only right
after a node said that the record was completed.

* `Granted`, `Touched`, `Abandoned` — what the attempts so far amount to;
* `protocol` — the contract, with `wp_route_protocol`.
-/

namespace LoadBalance

open Http Text Json Conc

namespace Proxy

/-! ## What the attempts amount to -/

/-- The attempts of a task, each with what it told. -/
abbrev Attempts : Type := List (Attempt × Upstream)

/-- The claim was granted under this token. -/
def Granted (env : Env) (request : Request) (idempotency : CustomerIdempotency)
    (fencingToken : UInt64) (attempts : Attempts) : Prop :=
  ∃ p ∈ attempts, p.1 = claimAttempt env request idempotency p.1.nodeUrl ∧
    ∃ response, p.2 = .served response ∧
      grantedToken env idempotency response = .ok fencingToken

/-- The mutation may have been applied by an attempt that ended so, transient failures
of a node not being counted. -/
def Upstream.Effective : Upstream → Prop
  | .notSent => False
  | .notLeader _ => False
  | .served response => isCacheableIdempotentResponse response.status = true
  | _ => True

/-- The client's mutation may have been applied. -/
def Touched (attempts : Attempts) : Prop := ∃ p ∈ attempts, mutates p.1 = true ∧ p.2.Effective

/-- The task began to release its claim. -/
def Abandoned (attempts : Attempts) : Prop := ∃ p ∈ attempts, p.1.uri = abandonUri

/-- The balancer knows what became of an attempt that ended so: an answer came back, and
it can be buffered if it is final. -/
def Upstream.Conclusive (env : Env) : Upstream → Prop
  | .ambiguousTransport => False
  | .responseTooLarge => False
  | .served response => isCacheableIdempotentResponse response.status = true →
    ∃ captured, CapturedResponse.fromResponse env response = .ok captured
  | _ => True

instance (env : Env) (upstream : Upstream) : Decidable (upstream.Conclusive env) :=
  match upstream with
  | .served response => decidable_of_iff (isCacheableIdempotentResponse response.status = true →
      (CapturedResponse.fromResponse env response).isOk) (by
        show _ ↔ (isCacheableIdempotentResponse response.status = true →
          ∃ captured, CapturedResponse.fromResponse env response = .ok captured)
        cases CapturedResponse.fromResponse env response <;> simp [Except.isOk, Except.toBool])
  | .notLeader _ => .isTrue trivial
  | .notSent => .isTrue trivial
  | .ambiguousTransport => .isFalse id
  | .responseTooLarge => .isFalse id

section

variable {env : Env} {request : Request} {idempotency : CustomerIdempotency}
  {fencingToken : UInt64} {attempts : Attempts} {a : Attempt} {upstream : Upstream}

theorem Granted.concat (h : Granted env request idempotency fencingToken attempts)
    (p : Attempt × Upstream) :
    Granted env request idempotency fencingToken (attempts ++ [p]) := by
  obtain ⟨q, hq, hrest⟩ := h
  exact ⟨q, List.mem_append_left _ hq, hrest⟩

theorem touched_concat :
    Touched (attempts ++ [(a, upstream)]) ↔
      Touched attempts ∨ (mutates a = true ∧ upstream.Effective) := by
  simp [Touched, or_and_right, exists_or]

theorem abandoned_concat :
    Abandoned (attempts ++ [(a, upstream)]) ↔ Abandoned attempts ∨ a.uri = abandonUri := by
  simp [Abandoned, or_and_right, exists_or]

theorem not_effective (h : ¬upstream.MayHaveApplied) : ¬upstream.Effective := by
  rcases Upstream.not_mayHaveApplied_iff.1 h with rfl | ⟨leader, rfl⟩ <;> exact id

/-- A step of the protocol is no mutation of the client's. -/
theorem mutates_of_step (h : isProtocolStep a = true) : mutates a = false := by
  rw [mutates, h]
  simp

/-- A step of the protocol has a path of the protocol's. -/
theorem primitive_of_step (h : isProtocolStep a = true) : isIdempotencyPrimitive a.uri = true := by
  rw [isProtocolStep, decide_eq_true_eq] at h
  rw [isIdempotencyPrimitive]
  rcases h.2 with hpath | hpath | hpath <;> rw [hpath] <;> decide

/-- A write outside the protocol's paths is a mutation of the client's. -/
theorem mutates_of_not_primitive (hmethod : methodSupportsCustomerIdempotency a.method = true)
    (hprimitive : isIdempotencyPrimitive a.uri = false) : mutates a = true := by
  have hstep : isProtocolStep a = false := by
    by_contra hstep
    rw [primitive_of_step (Bool.eq_true_of_not_eq_false hstep)] at hprimitive
    exact absurd hprimitive (by simp)
  rw [mutates, hmethod, hstep]
  rfl

theorem isProtocolStep_claim (nodeUrl : String) :
    isProtocolStep ((claimRequest env request idempotency).attempt nodeUrl) = true :=
  decide_eq_true ⟨rfl, Or.inl claimUri_path⟩

theorem isProtocolStep_complete (stored : StoredIdempotencyResponse) (nodeUrl : String) :
    isProtocolStep ((completeRequest env request idempotency fencingToken stored).attempt nodeUrl)
      = true :=
  decide_eq_true ⟨rfl, Or.inr (Or.inl completeUri_path)⟩

theorem isProtocolStep_abandon (nodeUrl : String) :
    isProtocolStep ((abandonRequest env request idempotency fencingToken).attempt nodeUrl) = true :=
  decide_eq_true ⟨rfl, Or.inr (Or.inr abandonUri_path)⟩

theorem claimUri_primitive : isIdempotencyPrimitive claimUri = true := by decide +kernel

theorem completeUri_primitive : isIdempotencyPrimitive completeUri = true := by decide +kernel

theorem abandonUri_primitive : isIdempotencyPrimitive abandonUri = true := by decide +kernel

theorem claimAttempt_mutates (nodeUrl : String) :
    mutates ((claimRequest env request idempotency).attempt nodeUrl) = false :=
  mutates_of_step (isProtocolStep_claim nodeUrl)

/-- A request with a key is a mutation of the client's. -/
theorem mutates_of_fromRequest
    (hidem : CustomerIdempotency.fromRequest env request.identity request.method request.uri
      request.headers request.body = .ok (some idempotency)) :
    methodSupportsCustomerIdempotency request.method = true ∧
      isIdempotencyPrimitive request.uri = false := by
  obtain ⟨hmethod, hprimitive, -⟩ := CustomerIdempotency.fromRequest_eq_some_iff.1 hidem
  exact ⟨hmethod, hprimitive⟩

theorem not_replaySafe (h : methodSupportsCustomerIdempotency request.method = true) :
    methodIsReplaySafe request.method = false := by
  rw [methodSupportsCustomerIdempotency, decide_eq_true_eq] at h
  rcases h with h | h | h | h <;> rw [h] <;> decide

theorem touched_attempt (h : History) (a : Attempt) (reply : Reply) :
    Touched (attemptsOf env (h ++ [⟨.forwardOnce a, reply⟩])) ↔
      Touched (attemptsOf env h) ∨ (mutates a = true ∧ (outcome env a reply).Effective) := by
  rw [attemptsOf_append, attemptsOf_attempt, touched_concat]

/-- Nothing was carried out by an attempt that was not a mutation, or had no effect. -/
theorem untouched_attempt {h : History} (huntouched : ¬Touched (attemptsOf env h)) {a : Attempt}
    {reply : Reply} (hnone : mutates a = true → ¬(outcome env a reply).Effective) :
    ¬Touched (attemptsOf env (h ++ [⟨.forwardOnce a, reply⟩])) := by
  rw [touched_attempt]
  exact not_or.2 ⟨huntouched, fun heffective => hnone heffective.1 heffective.2⟩

end

theorem post_not_replaySafe : methodIsReplaySafe .post = false := by decide

/-! ## The rule for a request that is not sent again -/

section

variable {env : Env} {shardCount : ℕ} {c : Contract Call Call.Answer} {request : Request}
  {Q : History → Response → Prop}

/-- **The rule for one request** that must not be sent again once it may have been
applied, from an invariant of the attempts. -/
theorem wp_of_attempts {K : Attempts → Prop} (htable : ∀ h e, e.IsTable → c.guarantee h e)
    (hrecord : ∀ h nodeUrl, c.rely h (.recordRegionRequest nodeUrl) ())
    (hnever : methodIsReplaySafe request.method = false)
    (hsend : ∀ {h}, K (attemptsOf env h) → ∀ nodeUrl,
      c.guarantee h (.forwardOnce (request.attempt nodeUrl)))
    (hrefused : ∀ {attempts}, K attempts → ∀ nodeUrl upstream, ¬upstream.MayHaveApplied →
      K (attempts ++ [(request.attempt nodeUrl, upstream)]))
    (hserved : ∀ {h}, K (attemptsOf env h) → ∀ nodeUrl, ∀ reply : Reply, ∀ response,
      c.rely h (.forwardOnce (request.attempt nodeUrl)) reply →
      outcome env (request.attempt nodeUrl) reply = .served response →
      Q (h ++ [⟨.forwardOnce (request.attempt nodeUrl), reply⟩]) response)
    (hlost : ∀ {h}, K (attemptsOf env h) → ∀ nodeUrl, ∀ reply : Reply, ∀ response : Response,
      c.rely h (.forwardOnce (request.attempt nodeUrl)) reply →
      outcome env (request.attempt nodeUrl) reply = .ambiguousTransport ∨
        outcome env (request.attempt nodeUrl) reply = .responseTooLarge →
      response.status.isSuccess = false →
      Q (h ++ [⟨.forwardOnce (request.attempt nodeUrl), reply⟩]) response)
    (hfail : ∀ {h}, K (attemptsOf env h) → ∀ response : Response,
      response.status.isSuccess = false → Q h response)
    {h : History} (hK : K (attemptsOf env h)) :
    (routeWithoutCustomerIdempotency env shardCount request).wp c Q h := by
  refine wp_of_sending (K := fun h => K (attemptsOf env h)) ⟨fun {h e} hK he => ⟨htable h e he,
    fun r _ => ?_⟩, fun {h} hK nodeUrl => ⟨hsend hK nodeUrl, fun reply hr => ?_⟩,
    fun hK _ => hfail hK _ rfl, fun hK => hfail hK _ rfl⟩ hrecord hK
  · rwa [attemptsOf_concat_table env h he r]
  · have hgo : ∀ upstream, outcome env (request.attempt nodeUrl) reply = upstream →
        ¬upstream.MayHaveApplied →
        K (attemptsOf env (h ++ [⟨.forwardOnce (request.attempt nodeUrl), reply⟩])) := by
      rintro upstream rfl hnot
      rw [attemptsOf_append, attemptsOf_attempt]
      exact hrefused hK nodeUrl _ hnot
    cases hout : outcome env (request.attempt nodeUrl) reply with
    | served response => exact hserved hK nodeUrl reply response hr hout
    | notLeader leader => exact hgo _ hout id
    | notSent => exact hgo _ hout id
    | ambiguousTransport =>
      rw [AfterAttempt, if_neg (by simp [hnever])]
      exact hlost hK nodeUrl reply _ hr (Or.inl hout) rfl
    | responseTooLarge => exact hlost hK nodeUrl reply _ hr (Or.inr hout) rfl

end

/-! ## The contract -/

/-- The calls of a task that holds a key, or wants to: attempts to claim it, to forward
the request, to complete the record, and to release the claim. -/
inductive Step (env : Env) (request : Request) (idempotency : CustomerIdempotency)
    (watched : Prop) (attempts : Attempts) (a : Attempt) : Prop
  | claim : a = claimAttempt env request idempotency a.nodeUrl →
      Step env request idempotency watched attempts a
  | forward {fencingToken : UInt64} : a = request.attempt a.nodeUrl →
      Granted env request idempotency fencingToken attempts → ¬Abandoned attempts →
      ¬Touched attempts → Step env request idempotency watched attempts a
  | complete {fencingToken : UInt64} {stored : StoredIdempotencyResponse} :
      a = (completeRequest env request idempotency fencingToken stored).attempt a.nodeUrl →
      Granted env request idempotency fencingToken attempts →
      Step env request idempotency watched attempts a
  | abandon {fencingToken : UInt64} :
      a = (abandonRequest env request idempotency fencingToken).attempt a.nodeUrl →
      Granted env request idempotency fencingToken attempts → (watched → ¬Touched attempts) →
      Step env request idempotency watched attempts a

/-- **The contract of a task with a key.**  If the task is `watched`, every attempt of the
client's mutation is taken to end conclusively. -/
def protocol (env : Env) (request : Request) (idempotency : CustomerIdempotency)
    (watched : Prop) : Contract Call Call.Answer where
  rely _ e r :=
    match e, r with
    | .forwardOnce a, reply => watched → a = request.attempt a.nodeUrl →
      (outcome env a reply).Conclusive env
    | _, _ => True
  guarantee h e := ∀ a, e = .forwardOnce a →
    Step env request idempotency watched (attemptsOf env h) a

/-- The history ends with a node saying that the record was completed with the response. -/
def Completed (env : Env) (request : Request) (idempotency : CustomerIdempotency) (h : History)
    (response : Response) : Prop :=
  ∃ pre fencingToken captured nodeUrl, ∃ reply : Reply, ∃ said,
    Granted env request idempotency fencingToken (attemptsOf env pre) ∧
    h = pre ++ [⟨.forwardOnce ((completeRequest env request idempotency fencingToken
      (.fromCaptured idempotency captured)).attempt nodeUrl), reply⟩] ∧
    outcome env ((completeRequest env request idempotency fencingToken
      (.fromCaptured idempotency captured)).attempt nodeUrl) reply = .served said ∧
    readCompleted env said = true ∧
    response = captured.intoResponse.withHeader fiduciaIdempotencyHeader storedHeader

/-- A response marked as stored is one whose record was completed. -/
def MarkedRight (env : Env) (request : Request) (idempotency : CustomerIdempotency) (h : History)
    (response : Response) : Prop :=
  response.headers.get fiduciaIdempotencyHeader = some storedHeader →
    Completed env request idempotency h response

/-! ## The marks of the responses -/

section

variable {env : Env} {shardCount : ℕ} {request : Request} {idempotency : CustomerIdempotency}
  {watched : Prop} {fencingToken : UInt64} {h : History} {response : Response}

theorem fiduciaHeader_jsonResponse (status : StatusCode) (value : Value) :
    (jsonResponse env status value).headers.get fiduciaIdempotencyHeader = none := by
  have hheaders : (jsonResponse env status value).headers =
      ⟨[("content-type", applicationJson)]⟩ := rfl
  rw [hheaders]
  decide +kernel

theorem markedRight_jsonResponse (status : StatusCode) (value : Value) :
    MarkedRight env request idempotency h (jsonResponse env status value) := fun hmark =>
  absurd ((fiduciaHeader_jsonResponse status value).symm.trans hmark) (by simp)

theorem markedRight_of_header {value : HeaderValue} (hne : value ≠ storedHeader) :
    MarkedRight env request idempotency h
      (response.withHeader fiduciaIdempotencyHeader value) := by
  intro hmark
  rw [Response.withHeader_headers, HeaderMap.get_insert_self] at hmark
  exact absurd (Option.some.inj hmark) hne

theorem markedRight_replay (stored : StoredIdempotencyResponse) :
    MarkedRight env request idempotency h (stored.intoReplayResponse env) := by
  rw [StoredIdempotencyResponse.intoReplayResponse]
  split
  · exact markedRight_jsonResponse _ _
  · dsimp only
    split
    · exact markedRight_jsonResponse _ _
    · intro hmark
      rw [HeaderMap.get_insert_self] at hmark
      exact absurd (Option.some.inj hmark) (by decide)

theorem markedRight_inProgress :
    MarkedRight env request idempotency h (idempotencyKeyInProgress env) := by
  intro hmark
  rw [idempotencyKeyInProgress, Response.withHeader_headers,
    HeaderMap.get_insert_of_ne _ _ (by decide)] at hmark
  exact absurd ((fiduciaHeader_jsonResponse _ _).symm.trans hmark) (by simp)

theorem markedRight_readClaim {said error : Response} (herror : readClaim env said = .error error) :
    MarkedRight env request idempotency h error := by
  rw [readClaim] at herror
  split at herror
  · obtain rfl := Except.error.inj herror
    exact markedRight_jsonResponse _ _
  · split at herror
    · obtain rfl := Except.error.inj herror
      exact markedRight_jsonResponse _ _
    · split at herror
      · obtain rfl := Except.error.inj herror
        exact markedRight_jsonResponse _ _
      · split at herror
        · obtain rfl := Except.error.inj herror
          exact markedRight_jsonResponse _ _
        · exact absurd herror (by simp)

theorem markedRight_duplicate {claim : IdempotencyClaim} {error : Response}
    (herror : responseForDuplicateClaim env idempotency claim = some error) :
    MarkedRight env request idempotency h error := by
  rw [responseForDuplicateClaim] at herror
  split at herror
  · exact absurd herror (by simp)
  · split at herror
    · obtain rfl := Option.some.inj herror
      exact markedRight_jsonResponse _ _
    · split at herror
      · obtain rfl := Option.some.inj herror
        exact markedRight_jsonResponse _ _
      · split at herror
        · obtain rfl := Option.some.inj herror
          exact markedRight_jsonResponse _ _
        · split at herror
          · split at herror
            · obtain rfl := Option.some.inj herror
              exact markedRight_jsonResponse _ _
            · split at herror
              · split at herror
                · obtain rfl := Option.some.inj herror
                  exact markedRight_replay _
                · obtain rfl := Option.some.inj herror
                  exact markedRight_jsonResponse _ _
              · obtain rfl := Option.some.inj herror
                exact markedRight_jsonResponse _ _
          · obtain rfl := Option.some.inj herror
            exact markedRight_inProgress

/-- A claim that is not granted is not answered `stored`. -/
theorem markedRight_grantedToken {said error : Response}
    (herror : grantedToken env idempotency said = .error error) :
    MarkedRight env request idempotency h error := by
  rw [grantedToken] at herror
  split at herror
  · rename_i hread
    obtain rfl := Except.error.inj herror
    exact markedRight_readClaim hread
  · split at herror
    · rename_i hduplicate
      obtain rfl := Except.error.inj herror
      exact markedRight_duplicate hduplicate
    · split at herror
      · obtain rfl := Except.error.inj herror
        exact markedRight_jsonResponse _ _
      · exact absurd herror (by simp)

/-- What is stored was buffered, and is final. -/
theorem finalCapture_eq_ok {said : Response} {captured : CapturedResponse}
    (hok : finalCapture env said = .ok captured) :
    CapturedResponse.fromResponse env said = .ok captured ∧
      isCacheableIdempotentResponse captured.status = true := by
  rw [finalCapture] at hok
  split at hok
  · exact absurd hok (by simp)
  · rename_i hcapture
    split at hok
    · exact absurd hok (by simp)
    · rename_i hfinal
      obtain rfl := Except.ok.inj hok
      exact ⟨hcapture, by simpa using hfinal⟩

/-- What is not stored could not be buffered, or is not final. -/
theorem finalCapture_eq_error {said error : Response}
    (herror : finalCapture env said = .error error) :
    (∃ detail, error = jsonResponse env .badGateway (.ofFields
      [("error", .string "upstream_response_too_large"), ("detail", .string detail)])) ∨
    ∃ captured, CapturedResponse.fromResponse env said = .ok captured ∧
      isCacheableIdempotentResponse captured.status = false ∧
      error = captured.intoResponse.withHeader fiduciaIdempotencyHeader notStoredHeader := by
  rw [finalCapture] at herror
  split at herror
  · rename_i hcapture
    obtain rfl := Except.error.inj herror
    exact Or.inl (fromResponse_eq_error hcapture)
  · rename_i captured hcapture
    split at herror
    · rename_i hpassing
      exact Or.inr ⟨captured, hcapture, by simpa using hpassing, (Except.error.inj herror).symm⟩
    · exact absurd herror (by simp)

/-- A response that cannot be stored is not answered `stored`. -/
theorem markedRight_finalCapture {said error : Response}
    (herror : finalCapture env said = .error error) :
    MarkedRight env request idempotency h error := by
  obtain ⟨detail, rfl⟩ | ⟨captured, -, -, rfl⟩ := finalCapture_eq_error herror
  · exact markedRight_jsonResponse _ _
  · exact markedRight_of_header (by decide)

theorem readCompleted_of_failure {said : Response} (hfail : said.status.isSuccess = false) :
    readCompleted env said = false := by
  rw [readCompleted]
  split
  · rfl
  · rename_i hcapture
    rw [(fromResponse_eq_ok hcapture).1, hfail]
    rfl

/-! ## The task keeps the contract -/

theorem protocol_table (h : History) {e : Call} (he : e.IsTable) :
    (protocol env request idempotency watched).guarantee h e := by
  rintro a rfl
  exact he.elim

/-- Completing the record with a captured response. -/
theorem wp_complete {captured : CapturedResponse}
    (hgranted : Granted env request idempotency fencingToken (attemptsOf env h)) :
    (routeWithoutCustomerIdempotency env shardCount (completeRequest env request idempotency
      fencingToken (.fromCaptured idempotency captured))).wp
      (protocol env request idempotency watched) (fun h' said => MarkedRight env request idempotency
        h' (captured.intoResponse.withHeader fiduciaIdempotencyHeader
          (if readCompleted env said then storedHeader else storeFailedHeader))) h := by
  have hnot : ∀ {h : History} {said : Response}, said.status.isSuccess = false →
      MarkedRight env request idempotency h (captured.intoResponse.withHeader
        fiduciaIdempotencyHeader
        (if readCompleted env said then storedHeader else storeFailedHeader)) := by
    intro h said hfail
    rw [readCompleted_of_failure hfail]
    exact markedRight_of_header (by decide)
  refine wp_of_attempts (K := Granted env request idempotency fencingToken)
    (fun h e he => protocol_table h he) (fun _ _ => trivial) post_not_replaySafe
    (fun {h} hK nodeUrl a ha => ?_) (fun hK _ _ _ => hK.concat _)
    (fun {h} hK nodeUrl reply said _ hout => ?_) (fun _ _ _ _ _ _ hfail => hnot hfail)
    (fun _ _ hfail => hnot hfail) hgranted
  · obtain rfl := Call.forwardOnce.inj ha
    exact .complete rfl hK
  · by_cases hdone : readCompleted env said = true
    · rw [if_pos hdone]
      exact fun _ => ⟨h, fencingToken, captured, nodeUrl, reply, said, hK, rfl, hout, hdone, rfl⟩
    · rw [if_neg hdone]
      exact markedRight_of_header (by decide)

/-- Releasing the claim. -/
theorem wp_abandon {error : Response} (hmarked : ∀ h, MarkedRight env request idempotency h error)
    (hgranted : Granted env request idempotency fencingToken (attemptsOf env h))
    (htouched : watched → ¬Touched (attemptsOf env h)) :
    (routeWithoutCustomerIdempotency env shardCount (abandonRequest env request idempotency
      fencingToken)).wp (protocol env request idempotency watched)
      (fun h' _ => MarkedRight env request idempotency h' error) h := by
  refine wp_of_attempts (K := fun attempts =>
      Granted env request idempotency fencingToken attempts ∧ (watched → ¬Touched attempts))
    (fun h e he => protocol_table h he) (fun _ _ => trivial) post_not_replaySafe
    (fun {h} hK nodeUrl a ha => ?_) (fun hK nodeUrl upstream hnot => ⟨hK.1.concat _, fun hw => ?_⟩)
    (fun _ _ _ _ _ _ => hmarked _) (fun _ _ _ _ _ _ _ => hmarked _) (fun _ _ _ => hmarked _)
    ⟨hgranted, htouched⟩
  · obtain rfl := Call.forwardOnce.inj ha
    exact .abandon rfl hK.1 hK.2
  · rw [touched_concat, not_or]
    exact ⟨hK.2 hw, fun h => not_effective hnot h.2⟩

/-- What follows the mutation, once it is known what to expect of it. -/
theorem wp_settle {response : Response}
    (hgranted : Granted env request idempotency fencingToken (attemptsOf env h))
    (htouched : watched → ∀ error, finalCapture env response = .error error →
      ¬Touched (attemptsOf env h)) :
    (settleCustomerIdempotency env shardCount request idempotency fencingToken response).wp
      (protocol env request idempotency watched) (MarkedRight env request idempotency) h := by
  rw [wp_settleCustomerIdempotency]
  split
  · rename_i error herror
    exact wp_abandon (fun _ => markedRight_finalCapture herror) hgranted fun hw =>
      htouched hw error herror
  · exact wp_complete hgranted

/-- A final response that cannot be buffered is not a conclusive one. -/
theorem not_effective_of_conclusive {response error : Response}
    (hconclusive : (Upstream.served response).Conclusive env)
    (herror : finalCapture env response = .error error) :
    ¬(Upstream.served response).Effective := by
  intro hfinal
  obtain ⟨captured, hcapture⟩ := hconclusive hfinal
  have hstatus := (fromResponse_eq_ok hcapture).1
  rw [finalCapture, hcapture] at herror
  dsimp only at herror
  rw [hstatus, show isCacheableIdempotentResponse response.status = true from hfinal] at herror
  exact absurd herror (by simp)

/-- Forwarding the client's request, and what follows. -/
theorem wp_forward
    (hidem : CustomerIdempotency.fromRequest env request.identity request.method request.uri
      request.headers request.body = .ok (some idempotency))
    (hgranted : Granted env request idempotency fencingToken (attemptsOf env h))
    (habandoned : ¬Abandoned (attemptsOf env h)) (htouched : ¬Touched (attemptsOf env h)) :
    (routeWithoutCustomerIdempotency env shardCount request).wp
      (protocol env request idempotency watched) (fun h' response =>
        (settleCustomerIdempotency env shardCount request idempotency fencingToken response).wp
          (protocol env request idempotency watched) (MarkedRight env request idempotency) h')
      h := by
  obtain ⟨hmethod, hprimitive⟩ := mutates_of_fromRequest hidem
  have huri : request.uri ≠ abandonUri := by
    intro heq
    rw [heq, abandonUri_primitive] at hprimitive
    exact absurd hprimitive (by simp)
  refine wp_of_attempts (K := fun attempts =>
      Granted env request idempotency fencingToken attempts ∧
        ¬Abandoned attempts ∧ ¬Touched attempts)
    (fun h e he => protocol_table h he) (fun _ _ => trivial) (not_replaySafe hmethod)
    (fun {h} hK nodeUrl a ha => ?_) (fun hK nodeUrl upstream hnot => ⟨hK.1.concat _, ?_, ?_⟩)
    (fun {h} hK nodeUrl reply response hr hout => ?_)
    (fun {h} hK nodeUrl reply response hr hout hfail => ?_)
    (fun hK response hfail => wp_settle hK.1 fun _ _ _ => hK.2.2) ⟨hgranted, habandoned, htouched⟩
  · obtain rfl := Call.forwardOnce.inj ha
    exact .forward rfl hK.1 hK.2.1 hK.2.2
  · rw [abandoned_concat, not_or]
    exact ⟨hK.2.1, huri⟩
  · rw [touched_concat, not_or]
    exact ⟨hK.2.2, fun h => not_effective hnot h.2⟩
  · have happend := attemptsOf_append env h [⟨.forwardOnce (request.attempt nodeUrl), reply⟩]
    rw [attemptsOf_attempt] at happend
    refine wp_settle (by rw [happend]; exact hK.1.concat _) fun hw error herror => ?_
    have hconclusive := hr hw rfl
    rw [hout] at hconclusive
    rw [happend, touched_concat, not_or, hout]
    exact ⟨hK.2.2, fun h => not_effective_of_conclusive hconclusive herror h.2⟩
  · have happend := attemptsOf_append env h [⟨.forwardOnce (request.attempt nodeUrl), reply⟩]
    rw [attemptsOf_attempt] at happend
    refine wp_settle (by rw [happend]; exact hK.1.concat _) fun hw error herror => ?_
    have hconclusive := hr hw rfl
    rcases hout with hout | hout <;>
    · rw [hout] at hconclusive
      exact hconclusive.elim

/-- **The task of a request with a key keeps the contract.** -/
theorem wp_route_protocol
    (hidem : CustomerIdempotency.fromRequest env request.identity request.method request.uri
      request.headers request.body = .ok (some idempotency)) :
    (route env shardCount request).wp (protocol env request idempotency watched)
      (MarkedRight env request idempotency) [] := by
  rw [route]
  split
  · exact markedRight_jsonResponse _ _
  split
  · exact markedRight_jsonResponse _ _
  rw [hidem]
  dsimp only
  rw [wp_routeWithCustomerIdempotency]
  have hnot : ∀ {h : History} {response : Response}, response.status.isSuccess = false →
      AfterClaim env shardCount (protocol env request idempotency watched) request idempotency
        (MarkedRight env request idempotency) h (grantedToken env idempotency response) := by
    intro h response hfail
    obtain ⟨detail, hdetail⟩ : ∃ detail, grantedToken env idempotency response =
        .error (idempotencyUnavailable env detail) := grantedToken_of_failure hfail
    rw [hdetail]
    exact markedRight_jsonResponse _ _
  refine wp_of_attempts (K := fun attempts => ¬Abandoned attempts ∧ ¬Touched attempts)
    (fun h e he => protocol_table h he) (fun _ _ => trivial) post_not_replaySafe
    (fun {h} hK nodeUrl a ha => ?_) (fun hK nodeUrl upstream hrefused => ⟨?_, ?_⟩)
    (fun {h} hK nodeUrl reply response hr hout => ?_) (fun _ _ _ _ _ _ hfail => hnot hfail)
    (fun _ _ hfail => hnot hfail) (by simp [Abandoned, Touched])
  · obtain rfl := Call.forwardOnce.inj ha
    exact .claim rfl
  · rw [abandoned_concat, not_or]
    exact ⟨hK.1, show claimUri ≠ abandonUri by decide⟩
  · rw [touched_concat, not_or]
    exact ⟨hK.2, fun h => not_effective hrefused h.2⟩
  · have happend := attemptsOf_append env h
      [⟨.forwardOnce ((claimRequest env request idempotency).attempt nodeUrl), reply⟩]
    rw [attemptsOf_attempt, hout] at happend
    unfold AfterClaim
    split
    · rename_i error herror
      exact markedRight_grantedToken herror
    · rename_i fencingToken htoken
      refine wp_forward hidem ?_ ?_ ?_
      · rw [happend]
        exact ⟨_, List.mem_append_right _ (List.mem_singleton.2 rfl), rfl, response, rfl, htoken⟩
      · rw [happend, abandoned_concat, not_or]
        exact ⟨hK.1, show claimUri ≠ abandonUri by decide⟩
      · rw [happend, touched_concat, not_or]
        refine ⟨hK.2, fun h => ?_⟩
        rw [claimAttempt_mutates] at h
        exact absurd h.1 (by simp)

end

end Proxy

end LoadBalance
