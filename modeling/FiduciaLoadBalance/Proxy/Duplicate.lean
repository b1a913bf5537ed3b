import FiduciaLoadBalance.Proxy.Mediation
import FiduciaLoadBalance.Proxy.Records

/-!
# A request whose key is taken

What becomes of a request whose key has a record when its claim is answered: it makes
no attempt but claims, and its response is read off the record (`duplicateAnswer`).
The record may change until then, and the claim may never be answered.
-/

namespace LoadBalance

open Http Text Json Conc

namespace Proxy

/-! ## Reading the answer to a claim -/

/-- The response to a request whose key has this record. -/
def duplicateAnswer (env : Env) (idempotency : CustomerIdempotency) (record : Record) : Response :=
  if ((record.metadata.asObject.bind fun metadata => metadata.lookup "fingerprint").bind
      (·.asStr)) ≠ some idempotency.fingerprint then
    idempotencyConflict env "idempotency key was already used with a different request"
  else
    match record.result with
    | none => idempotencyKeyInProgress env
    | some result =>
      match StoredIdempotencyResponse.fromValue result with
      | some stored =>
        if stored.fingerprint = idempotency.fingerprint then stored.intoReplayResponse env
        else idempotencyUnavailable env "stored response was not replayable"
      | none => idempotencyUnavailable env "stored response was not replayable"

section

variable {env : Env} {idempotency : CustomerIdempotency} {response : Response}

theorem fromResponse_eq_ok {captured : CapturedResponse}
    (h : CapturedResponse.fromResponse env response = .ok captured) :
    captured.status = response.status ∧ captured.headers = response.headers ∧
      toBytes maxCaptureBytes response.body = some captured.body := by
  rw [CapturedResponse.fromResponse] at h
  split at h
  · rename_i body hbody
    obtain rfl := Except.ok.inj h
    exact ⟨rfl, rfl, hbody⟩
  · exact absurd h (by simp)

theorem fromResponse_eq_error {error : Response}
    (h : CapturedResponse.fromResponse env response = .error error) :
    ∃ detail, error = jsonResponse env .badGateway (.ofFields
      [("error", .string "upstream_response_too_large"), ("detail", .string detail)]) := by
  rw [CapturedResponse.fromResponse] at h
  split at h
  · exact absurd h (by simp)
  · exact ⟨_, (Except.error.inj h).symm⟩

/-- A successful response with an output is a claim to read. -/
theorem readClaim_of_outputIn (hsuccess : response.status.isSuccess = true) {output : Value}
    (h : outputIn env response = some output) :
    readClaim env response = .ok (claimFromOutput output) := by
  rw [outputIn] at h
  rw [readClaim]
  cases hcapture : CapturedResponse.fromResponse env response with
  | error _ => exact absurd h (by simp [hcapture])
  | ok captured =>
    rw [hcapture] at h
    obtain ⟨value, hvalue, houtput⟩ := Option.bind_eq_some_iff.1 h
    simp [(fromResponse_eq_ok hcapture).1, hsuccess, hvalue, houtput]

/-- And an answer to a complete request. -/
theorem readCompleted_of_outputIn (hsuccess : response.status.isSuccess = true) {output : Value}
    (h : outputIn env response = some output) :
    readCompleted env response = ((output.get? "completed").bind (·.asBool)).getD false := by
  rw [outputIn] at h
  rw [readCompleted]
  cases hcapture : CapturedResponse.fromResponse env response with
  | error _ => exact absurd h (by simp [hcapture])
  | ok captured =>
    rw [hcapture] at h
    simp only [(fromResponse_eq_ok hcapture).1, hsuccess, Bool.true_and, h, Option.bind_some]

/-- A response that is not a success claims nothing. -/
theorem grantedToken_of_failure (h : response.status.isSuccess = false) :
    ∃ detail, grantedToken env idempotency response =
      .error (idempotencyUnavailable env detail) := by
  rw [grantedToken, readClaim]
  cases hcapture : CapturedResponse.fromResponse env response with
  | error _ => exact ⟨_, rfl⟩
  | ok captured => exact ⟨_, by simp only [(fromResponse_eq_ok hcapture).1, h]; rfl⟩

/-- **The answer to a duplicate claim is read off the record.** -/
theorem grantedToken_of_duplicate (hsuccess : response.status.isSuccess = true) {record : Record}
    (h : (Report.duplicate record).Says env response) :
    grantedToken env idempotency response = .error (duplicateAnswer env idempotency record) := by
  obtain ⟨output, value, houtput, hclaimed, hduplicate, hrecord, hshown⟩ := h
  have hfinger : recordedFingerprint value =
      (record.metadata.asObject.bind fun metadata => metadata.lookup "fingerprint").bind
        (·.asStr) := by
    rw [recordedFingerprint, hshown.metadata, Option.bind_some]
  rw [grantedToken, readClaim_of_outputIn hsuccess houtput]
  dsimp only
  have hanswer : responseForDuplicateClaim env idempotency (claimFromOutput output) =
      some (duplicateAnswer env idempotency record) := by
    rw [responseForDuplicateClaim, duplicateAnswer, claimFromOutput, hclaimed, hduplicate, hrecord]
    simp only [Option.bind_some, Value.asBool_bool, Option.getD_some, Bool.false_eq_true,
      if_false, Bool.not_true, hfinger, hshown.status, Value.asStr_string, Option.some.injEq]
    split
    · rfl
    · cases hresult : record.result with
      | none => simp
      | some result =>
        simp only [Option.isSome_some, if_true, hshown.result result hresult]
        cases StoredIdempotencyResponse.fromValue result with
        | none => rfl
        | some stored =>
          dsimp only
          split <;> rfl
  rw [hanswer]

/-- What a claim needs to be granted: a successful response that says so. -/
theorem grantedToken_eq_ok {fencingToken : UInt64}
    (h : grantedToken env idempotency response = .ok fencingToken) :
    response.status.isSuccess = true ∧ ∀ output, outputIn env response = some output →
      (output.get? "fencing_token").bind (·.asU64) = some fencingToken := by
  have hsuccess : response.status.isSuccess = true := by
    by_contra hfail
    obtain ⟨detail, herror⟩ := grantedToken_of_failure
      (Bool.eq_false_iff.2 hfail)
    rw [herror] at h
    exact absurd h (by simp)
  refine ⟨hsuccess, fun output houtput => ?_⟩
  rw [grantedToken, readClaim_of_outputIn hsuccess houtput] at h
  dsimp only at h
  split at h
  · exact absurd h (by simp)
  · split at h
    · exact absurd h (by simp)
    · rename_i token htoken
      rw [← Except.ok.inj h]
      exact htoken

end

/-! ## A task that is not granted its key -/

/-- The claim of a history was answered with a success. -/
def ClaimAnswered (env : Env) (h : History) : Prop :=
  ∃ p ∈ attemptsOf env h, ∃ response, p.2 = .served response ∧ response.status.isSuccess = true

instance (upstream : Upstream) :
    Decidable (∃ response, upstream = .served response ∧ response.status.isSuccess = true) :=
  match upstream with
  | .served response => decidable_of_iff (response.status.isSuccess = true) (by simp)
  | .notLeader _ => .isFalse (by simp)
  | .notSent => .isFalse (by simp)
  | .ambiguousTransport => .isFalse (by simp)
  | .responseTooLarge => .isFalse (by simp)

instance (env : Env) (h : History) : Decidable (ClaimAnswered env h) :=
  inferInstanceAs (Decidable (∃ p ∈ attemptsOf env h, _))

/-- The attempt to claim the key at a node. -/
def claimAttempt (env : Env) (request : Request) (idempotency : CustomerIdempotency)
    (nodeUrl : String) : Attempt :=
  (claimRequest env request idempotency).attempt nodeUrl

/-- The contract of a task that is not granted its key: where every successful answer to
the claim comes to `answer`, it makes no attempt but claims. -/
def refusing (env : Env) (request : Request) (idempotency : CustomerIdempotency)
    (answer : Response) : Contract Call Call.Answer where
  rely _ e r :=
    match e, r with
    | .forwardOnce a, reply => a = claimAttempt env request idempotency a.nodeUrl →
      ∀ response, outcome env a reply = .served response → response.status.isSuccess = true →
        grantedToken env idempotency response = .error answer
    | _, _ => True
  guarantee _ e := ∀ a, e = .forwardOnce a → a = claimAttempt env request idempotency a.nodeUrl

/-- What a task that is not granted its key responds. -/
def Refused (env : Env) (answer : Response) (h : History) (response : Response) : Prop :=
  (ClaimAnswered env h → response = answer) ∧
    (¬ClaimAnswered env h → response.headers.get idempotencyReplayedHeader = none)

section

variable {env : Env} {shardCount : ℕ} {request : Request} {idempotency : CustomerIdempotency}
  {answer : Response} {h : History}

theorem claimAnswered_table {e : Call} (he : e.IsTable) (r : e.Answer) :
    ClaimAnswered env (h ++ [⟨e, r⟩]) ↔ ClaimAnswered env h := by
  rw [ClaimAnswered, attemptsOf_concat_table env h he r, ClaimAnswered]

theorem claimAnswered_attempt (h₀ : ¬ClaimAnswered env h) (a : Attempt) (reply : Reply) :
    ClaimAnswered env (h ++ [⟨.forwardOnce a, reply⟩]) ↔
      ∃ response, outcome env a reply = .served response ∧ response.status.isSuccess = true := by
  rw [ClaimAnswered, attemptsOf_append, attemptsOf_attempt]
  constructor
  · rintro ⟨p, hp, hserved⟩
    rcases List.mem_append.1 hp with hp | hp
    · exact absurd ⟨p, hp, hserved⟩ h₀
    · rwa [List.mem_singleton.1 hp] at hserved
  · rintro ⟨response, hserved⟩
    exact ⟨_, List.mem_append_right _ (List.mem_singleton.2 rfl), response, hserved⟩

/-- An error of the balancer's own is not marked as a replay. -/
theorem replayedHeader_jsonResponse (status : StatusCode) (value : Value) :
    (jsonResponse env status value).headers.get idempotencyReplayedHeader = none := by
  have hheaders : (jsonResponse env status value).headers =
      ⟨[("content-type", applicationJson)]⟩ := rfl
  rw [hheaders]
  decide +kernel

/-- The contract, where the request's claim comes to nothing. -/
theorem refused_of_failure {response : Response} (hfail : response.status.isSuccess = false)
    (hnot : ¬ClaimAnswered env h) :
    ∃ error, grantedToken env idempotency response = .error error ∧ Refused env answer h error := by
  obtain ⟨detail, hdetail⟩ : ∃ detail, grantedToken env idempotency response =
      .error (idempotencyUnavailable env detail) := grantedToken_of_failure hfail
  exact ⟨_, hdetail, fun h => absurd h hnot, fun _ => replayedHeader_jsonResponse _ _⟩

theorem wp_route_refusing
    (hidem : CustomerIdempotency.fromRequest env request.identity request.method request.uri
      request.headers request.body = .ok (some idempotency)) :
    (route env shardCount request).wp (refusing env request idempotency answer)
      (Refused env answer) [] := by
  have hnone : ¬ClaimAnswered env [] := by simp [ClaimAnswered]
  rw [route]
  split
  · exact ⟨fun h => absurd h hnone, fun _ => replayedHeader_jsonResponse _ _⟩
  split
  · exact ⟨fun h => absurd h hnone, fun _ => replayedHeader_jsonResponse _ _⟩
  rw [hidem]
  dsimp only
  rw [wp_routeWithCustomerIdempotency]
  -- nothing but the claim is left to do, whatever comes of it
  have hpost : ∀ {h : History} {response : Response},
      (∃ error, grantedToken env idempotency response = .error error ∧ Refused env answer h error) →
      AfterClaim env shardCount (refusing env request idempotency answer) request idempotency
        (Refused env answer) h (grantedToken env idempotency response) := by
    rintro h response ⟨error, herror, hrefused⟩
    rw [herror]
    exact hrefused
  refine wp_of_sending (K := fun h => ¬ClaimAnswered env h) ⟨fun {h e} hK he => ⟨?_, fun r _ => ?_⟩,
    fun {h} hK nodeUrl => ⟨?_, fun reply hr => ?_⟩, fun hK _ => hpost (refused_of_failure rfl hK),
    fun hK => hpost (refused_of_failure rfl hK)⟩ (fun _ _ => trivial) hnone
  · rintro a rfl
    exact he.elim
  · rwa [claimAnswered_table he]
  · rintro a ha
    obtain rfl := Call.forwardOnce.inj ha
    rfl
  · have hanswered := claimAnswered_attempt hK
      ((claimRequest env request idempotency).attempt nodeUrl) reply
    cases hout : outcome env ((claimRequest env request idempotency).attempt nodeUrl) reply with
    | served response =>
      refine hpost ?_
      by_cases hsuccess : response.status.isSuccess = true
      · refine ⟨answer, hr rfl response hout hsuccess, fun _ => rfl, fun h => absurd ?_ h⟩
        exact hanswered.2 ⟨response, hout, hsuccess⟩
      · refine refused_of_failure (Bool.eq_false_iff.2 hsuccess) fun h => ?_
        obtain ⟨response', hout', hsuccess'⟩ := hanswered.1 h
        rw [hout] at hout'
        obtain rfl := Upstream.served.inj hout'
        exact hsuccess hsuccess'
    | notLeader leader =>
      rw [AfterAttempt, hanswered]
      simp [hout]
    | notSent =>
      rw [AfterAttempt, hanswered]
      simp [hout]
    | ambiguousTransport =>
      have hnever : ¬methodIsReplaySafe (claimRequest env request idempotency).method = true := by
        show ¬methodIsReplaySafe Method.post = true
        decide
      rw [AfterAttempt, if_neg hnever]
      exact hpost (refused_of_failure rfl (by rw [hanswered]; simp [hout]))
    | responseTooLarge =>
      exact hpost (refused_of_failure rfl (by rw [hanswered]; simp [hout]))

end

/-! ## In a run -/

section

variable {env : Env} {expires : Bool} {shardCount : ℕ} {admits : Request → Prop}
  {w₀ : World Nodes} {h : List (WorldMoment Nodes)}
  {c : Config Call Call.Answer Response (World Nodes)} {j : ℕ} {request : Request}
  {idempotency : CustomerIdempotency} {answer : Response}

/-- A successful answer to a claim of a key with a record is read off the record. -/
theorem Answers.duplicate {i : ℕ} {a : Attempt} {s s' : Nodes} {reply : Reply}
    (h : Answers env i a s reply s') {key owner : String} {metadata : Value}
    (hop : operationOf env a = some (.claim key owner metadata)) {record : Record}
    (hrecord : s.records key = some record) {response : Response}
    (hout : outcome env a reply = .served response) (hsuccess : response.status.isSuccess = true) :
    grantedToken env idempotency response = .error (duplicateAnswer env idempotency record) := by
  cases h with
  | refused hrefused => exact absurd hrefused (by simp [hout])
  | lost hlost => exact absurd hlost (by simp [hout])
  | failed hserved hfail =>
    obtain rfl := Upstream.served.inj (hout.symm.trans hserved)
    exact absurd hsuccess (by simp [hfail])
  | served hserved hperforms _ hreport =>
    obtain rfl := Upstream.served.inj (hout.symm.trans hserved)
    cases hperforms with
    | duplicate hop' hrecord' =>
      obtain ⟨rfl, -, -⟩ := Operation.claim.inj (Option.some.inj (hop.symm.trans hop'))
      obtain rfl := Option.some.inj (hrecord.symm.trans hrecord')
      exact grantedToken_of_duplicate hsuccess (hreport hsuccess)
    | grant hop' hnone =>
      obtain ⟨rfl, -, -⟩ := Operation.claim.inj (Option.some.inj (hop.symm.trans hop'))
      exact absurd (hrecord.symm.trans hnone) (by simp)
    | complete hop' => exact absurd (hop.symm.trans hop') (by simp)
    | abandon hop' => exact absurd (hop.symm.trans hop') (by simp)
    | mutation hop' _ => exact absurd (hop.symm.trans hop') (by simp)
    | other hop' => exact absurd (hop.symm.trans hop') (by simp)

/-- **A request whose key is taken**, in any run: as long as the record that answers its
claim comes to `answer`, it makes no attempt but claims; and its response is `answer`
if its claim was answered, and not a replay otherwise. -/
theorem refused_of_records (answer : Response) (hjson : env.JsonRoundTrips)
    (hrun : (balancer env shardCount (upstreams env expires) admits).Run w₀ h c)
    (hst : Machine.Started h j (route env shardCount request))
    (hidem : CustomerIdempotency.fromRequest env request.identity request.method request.uri
      request.headers request.body = .ok (some idempotency))
    (hrecord : ∀ m ∈ h, ∀ nodeUrl, ∀ reply : Reply,
      m.label = .answer j ⟨.forwardOnce (claimAttempt env request idempotency nodeUrl), reply⟩ →
        ∃ record, m.before.nodes.records idempotency.internalKey = some record ∧
          duplicateAnswer env idempotency record = answer) :
    (∀ p ∈ attemptsOf env (Machine.own j h),
      p.1 = claimAttempt env request idempotency p.1.nodeUrl) ∧
    (∀ a k, c.procs j = some (.call (.forwardOnce a) k) →
      a = claimAttempt env request idempotency a.nodeUrl) ∧
    ∀ response, c.procs j = some (.done response) →
      Refused env answer (Machine.own j h) response := by
  have hwp : (route env shardCount request).wp (refusing env request idempotency answer)
      (Refused env answer) [] := wp_route_refusing hidem
  have hrelied : Machine.OwnRelied (refusing env request idempotency answer) j h := by
    intro pre ev before after post hsplit
    have hmem : (⟨.answer j ev, before, after⟩ : WorldMoment Nodes) ∈ h := by simp [hsplit]
    have hexec : Exec env (upstreams env expires) j before ev.1 ev.2 after := hrun.allowed _ hmem
    obtain ⟨e, r⟩ := ev
    cases e with
    | forwardOnce a =>
      intro ha response hout hsuccess
      obtain ⟨record, hsome, hanswer⟩ := hrecord _ hmem a.nodeUrl r (by rw [← ha])
      cases hexec with
      | table ht => cases ht
      | attempt hanswers =>
        rw [← hanswer]
        exact Answers.duplicate hanswers (by rw [ha]; exact operationOf_claim hjson _) hsome hout
          hsuccess
    | _ => trivial
  refine ⟨fun p hp => ?_, fun a k hlive => hrun.own_next hst hwp hrelied hlive a rfl,
    fun response hdone => hrun.own_result hst hwp hrelied hdone⟩
  obtain ⟨pre, reply, post, hown, -⟩ := mem_attemptsOf hp
  obtain ⟨hpre, before, after, hpost, hsplit, hown'⟩ := Machine.own_split hown
  exact hrun.own_guarantee hst hwp hrelied hsplit p.1 rfl

end

end Proxy

end LoadBalance
