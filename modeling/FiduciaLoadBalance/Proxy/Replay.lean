import FiduciaLoadBalance.Proxy.Grants
import FiduciaLoadBalance.Proxy.Reuse

/-!
# Replay fidelity

What a duplicate of a completed request is answered with: the response of the first
execution, as long as the nodes retain its record.  The response goes through capture,
hexadecimal, JSON, the record, and back; each stage is undone by the next but truncation,
which is told of instead.
-/

namespace LoadBalance

open Http Text Json Conc

namespace Proxy

/-! ## From a captured response to its replay -/

section

variable {env : Env} {idempotency : CustomerIdempotency} {captured : CapturedResponse}

theorem hexToBytes_toHex (bytes : Bytes) : hexToBytes (toHex bytes) = some bytes := by
  rw [hexToBytes, map_utf8_of_ascii (toHex_ascii bytes), bytesOfHex_toHex]

/-- A body that fits is replayed with its status and its readable content type. -/
theorem replay_of_fits (env : Env) (idempotency : CustomerIdempotency)
    (hfits : captured.body.length ≤ maxReplayBodyBytes) :
    let replay := (StoredIdempotencyResponse.fromCaptured idempotency captured).intoReplayResponse env
    replay.status = captured.status ∧ replay.body = .full captured.body ∧
      contentTypeText replay.headers = contentTypeText captured.headers := by
  have hcode : (UInt16.ofNat captured.status.code).toNat = captured.status.code := by
    have := captured.status.valid
    rw [UInt16.toNat_ofNat']
    exact Nat.mod_eq_of_lt (by omega)
  have hstatus : (StatusCode.fromU16 (UInt16.ofNat captured.status.code).toNat).getD .ok =
      captured.status := by
    rw [hcode, StatusCode.fromU16_code, Option.getD_some]
  rw [StoredIdempotencyResponse.intoReplayResponse]
  simp only [StoredIdempotencyResponse.fromCaptured, decide_eq_true_eq, not_lt.2 hfits, if_false,
    if_pos hfits, hexToBytes_toHex, hstatus, true_and]
  have hone : "content-type" ≠ fiduciaIdempotencyHeader := by decide
  have htwo : "content-type" ≠ idempotencyReplayedHeader := by decide
  rw [contentTypeText, HeaderMap.get_insert_of_ne _ _ hone, HeaderMap.get_insert_of_ne _ _ htwo]
  cases htext : contentTypeText captured.headers with
  | none => rfl
  | some text =>
    obtain ⟨value, -, hvalue⟩ := Option.bind_eq_some_iff.1 htext
    simp [HeaderValue.fromStr_of_toStr hvalue, hvalue]

/-- A body that does not fit is not replayed. -/
theorem replay_of_truncated (hlong : maxReplayBodyBytes < captured.body.length) :
    (StoredIdempotencyResponse.fromCaptured idempotency captured).intoReplayResponse env =
      idempotencyReplayUnavailable env "stored response exceeded the replay body limit" := by
  rw [StoredIdempotencyResponse.intoReplayResponse, if_pos (by
    simpa [StoredIdempotencyResponse.fromCaptured] using hlong)]

/-- The answer to a duplicate of the request a record was completed for. -/
theorem duplicateAnswer_completed {first second : CustomerIdempotency} {record : Record}
    (hmetadata : record.metadata = first.metadata)
    (hresult : record.result =
      some (StoredIdempotencyResponse.fromCaptured first captured).toValue)
    (hsame : first.fingerprint = second.fingerprint) :
    duplicateAnswer env second record =
      (StoredIdempotencyResponse.fromCaptured first captured).intoReplayResponse env := by
  have hfinger := metadata_fingerprint first
  rw [duplicateAnswer, hmetadata, hfinger, if_neg (by simp [hsame]), hresult]
  dsimp only
  rw [fromValue_toValue]
  dsimp only
  rw [if_pos (show (StoredIdempotencyResponse.fromCaptured first captured).fingerprint =
    second.fingerprint from hsame)]

end

/-! ## The record of a completed request -/

section

variable {env : Env} {expires : Bool} {shardCount : ℕ} {admits : Request → Prop}

/-- Carrying out a request changes no completed record. -/
theorem completed_performs {i : ℕ} {a : Attempt} {s s' : Nodes} {report : Report}
    (h : Performs env i a s report s') {key : String} {record : Record}
    (hdone : record.result.isSome) (hrecord : s.records key = some record) :
    s'.records key = some record := by
  have hresult : record.result ≠ none := Option.isSome_iff_ne_none.1 hdone
  cases h with
  | @grant key' owner metadata fencingToken _ hnone _ =>
    rw [Nodes.grant_records, if_neg]
    · exact hrecord
    · rintro rfl
      exact absurd (hrecord.symm.trans hnone) (by simp)
  | @complete key' owner fencingToken result _ =>
    rw [Nodes.complete_records, if_neg]
    · exact hrecord
    · rintro ⟨rfl, hholds⟩
      obtain ⟨held, hheld, -, -, hopen⟩ := Nodes.holds_iff.1 hholds
      obtain rfl := Option.some.inj (hrecord.symm.trans hheld)
      exact hresult hopen
  | @abandon key' fencingToken _ =>
    rw [Nodes.abandon_records, if_neg]
    · exact hrecord
    · rintro ⟨rfl, hheld⟩
      rw [hrecord] at hheld
      simp [hresult] at hheld
  | duplicate => exact hrecord
  | mutation => exact hrecord
  | other => exact hrecord

/-- **A completed record is final**: a moment that leaves the key a record leaves it this
one. -/
theorem completed_moves {s s' : Nodes} (h : Moves env expires s s') {key : String}
    {record : Record} (hdone : record.result.isSome) (hrecord : s.records key = some record)
    (hlive : (s'.records key).isSome) : s'.records key = some record := by
  cases h with
  | stay => exact hrecord
  | send => exact hrecord
  | perform hperforms => exact completed_performs hperforms hdone hrecord
  | background hbackground =>
    cases hbackground with
    | deliver _ hperforms => exact completed_performs hperforms hdone hrecord
    | @expire key' _ =>
      by_cases hkey : key = key'
      · rw [hkey] at hlive
        exact absurd hlive (by simp)
      · exact (Function.update_of_ne hkey _ _).trans hrecord

/-- The answer to a complete request that says so leaves the record completed. -/
theorem Answers.completed {i : ℕ} {a : Attempt} {s s' : Nodes} {reply : Reply}
    (h : Answers env i a s reply s') {key owner : String} {fencingToken : UInt64} {result : Value}
    (hop : operationOf env a = some (.complete key owner fencingToken result))
    {said : Response} (hout : outcome env a reply = .served said)
    (hcompleted : readCompleted env said = true) :
    ∃ record, s.records key = some record ∧ record.fencingToken = fencingToken ∧
      s'.records key = some { record with result := some result } := by
  have hsuccess : said.status.isSuccess = true := by
    by_contra hfail
    rw [readCompleted_of_failure (Bool.eq_false_iff.2 hfail)] at hcompleted
    exact absurd hcompleted (by simp)
  cases h with
  | refused hrefused => exact absurd hrefused (by simp [hout])
  | lost hlost => exact absurd hlost (by simp [hout])
  | failed hserved hfail =>
    obtain rfl := Upstream.served.inj (hout.symm.trans hserved)
    exact absurd hsuccess (by simp [hfail])
  | served hserved hperforms _ hreport =>
    obtain rfl := Upstream.served.inj (hout.symm.trans hserved)
    cases hperforms with
    | @complete key' owner' fencingToken' result' hop' =>
      obtain ⟨rfl, rfl, rfl, rfl⟩ := Operation.complete.inj (Option.some.inj (hop.symm.trans hop'))
      obtain ⟨output, houtput, hsaid⟩ := hreport hsuccess
      have hholds : s.holds key owner fencingToken = true := by
        rw [readCompleted_of_outputIn hsuccess houtput, hsaid] at hcompleted
        simpa using hcompleted
      obtain ⟨record, hrecord, -, htoken, -⟩ := Nodes.holds_iff.1 hholds
      refine ⟨record, hrecord, htoken, ?_⟩
      rw [Nodes.complete_records, if_pos ⟨rfl, hholds⟩, hrecord]
      rfl
    | grant hop' => exact absurd (hop.symm.trans hop') (by simp)
    | duplicate hop' => exact absurd (hop.symm.trans hop') (by simp)
    | abandon hop' => exact absurd (hop.symm.trans hop') (by simp)
    | mutation hop' _ => exact absurd (hop.symm.trans hop') (by simp)
    | other hop' => exact absurd (hop.symm.trans hop') (by simp)

/-- **The record of a completed request**: when a task responds with a response marked as
stored, the record of its key is its own and holds the response. -/
theorem record_of_stored (hjson : env.JsonRoundTrips) {seeds : List String}
    {h : List (WorldMoment Nodes)} {i : ℕ} {ev : TaskEvent} {before after : World Nodes}
    {c : Config Call Call.Answer Response (World Nodes)}
    (hrun : (balancer env shardCount (upstreams env expires) admits).Run
      (World.new env shardCount seeds Nodes.empty) (h ++ [⟨.answer i ev, before, after⟩]) c)
    {request : Request} {idempotency : CustomerIdempotency}
    (hst : Machine.Started (h ++ [⟨.answer i ev, before, after⟩]) i
      (route env shardCount request))
    (hidem : CustomerIdempotency.fromRequest env request.identity request.method request.uri
      request.headers request.body = .ok (some idempotency)) {response : Response}
    (hdone : c.procs i = some (.done response))
    (hstored : response.headers.get fiduciaIdempotencyHeader = some storedHeader) :
    ∃ record captured, after.nodes.records idempotency.internalKey = some record ∧
      record.metadata = idempotency.metadata ∧
      record.result = some (StoredIdempotencyResponse.fromCaptured idempotency captured).toValue ∧
      response = captured.intoResponse.withHeader fiduciaIdempotencyHeader storedHeader := by
  have hwp : (route env shardCount request).wp (protocol env request idempotency False)
      (MarkedRight env request idempotency) [] := wp_route_protocol hidem
  have hrelied : Machine.OwnRelied (protocol env request idempotency False) i
      (h ++ [⟨.answer i ev, before, after⟩]) := by
    rintro pre ⟨e, r⟩ b a post -
    cases e <;> first | trivial | exact fun hw => hw.elim
  obtain ⟨pre, fencingToken, captured, nodeUrl, reply, said, hgranted, hown, hout, hcompleted,
      hresponse⟩ :=
    hrun.own_result hst hwp hrelied hdone hstored
  rw [Machine.own_append, Machine.own_answer_self, Machine.own_nil] at hown
  obtain ⟨rfl, hev⟩ := List.append_inj' hown rfl
  obtain rfl := List.singleton_inj.1 hev
  obtain ⟨c', hrun', hstep⟩ := hrun.of_concat
  have hexec : Exec env (upstreams env expires) i before (.forwardOnce _) reply after :=
    hstep.allowed
  have hbefore : before = c'.shared := hstep.before
  have hgrant := grant_of_granted hjson hrun' hgranted
  have hinv : c'.shared.nodes.Inv := (hrun'.invariant keeps_inv Nodes.Inv.empty).1
  rw [← hbefore] at hgrant hinv
  cases hexec with
  | table ht => cases ht
  | attempt hanswers =>
    obtain ⟨record, hrecord, htoken, hafter⟩ := Answers.completed hanswers
      (operationOf_complete hjson _ _ _) hout hcompleted
    obtain ⟨g, hg, -, hsame, hmetadata⟩ := hinv.granted _ _ hrecord
    obtain rfl := hinv.unique _ hg _ hgrant (hsame.trans htoken)
    exact ⟨_, captured, hafter, hmetadata.symm, rfl, hresponse⟩

end

/-- **Replay fidelity.**  Let a task answer a request with a response marked as stored, and
a request of the same org, with the same key and the same fingerprint, arrive later.  As
long as the nodes retain the record of the key, the later request is never forwarded; and if
its claim is answered, it gets the status, the body and the readable content type of the
first response if the body fits a record, and is told that there is no replay if not. -/
theorem replay_fidelity (env : Env) (hjson : env.JsonRoundTrips) {expires : Bool}
    {shardCount : ℕ} {admits : Request → Prop} {seeds : List String}
    {h₁ h₂ : List (WorldMoment Nodes)} {i j : ℕ} {ev : TaskEvent} {before after : World Nodes}
    {c₁ c : Config Call Call.Answer Response (World Nodes)}
    (hfirst : (balancer env shardCount (upstreams env expires) admits).Run
      (World.new env shardCount seeds Nodes.empty) (h₁ ++ [⟨.answer i ev, before, after⟩]) c₁)
    (hrun : (balancer env shardCount (upstreams env expires) admits).Run
      (World.new env shardCount seeds Nodes.empty)
      (h₁ ++ [⟨.answer i ev, before, after⟩] ++ h₂) c)
    {first second : Request} {f s : CustomerIdempotency} {response : Response}
    (hf : CustomerIdempotency.fromRequest env first.identity first.method first.uri first.headers
      first.body = .ok (some f))
    (hs : CustomerIdempotency.fromRequest env second.identity second.method second.uri
      second.headers second.body = .ok (some s))
    (hst₁ : Machine.Started (h₁ ++ [⟨.answer i ev, before, after⟩]) i (route env shardCount first))
    (hdone : c₁.procs i = some (.done response))
    (hstored : response.headers.get fiduciaIdempotencyHeader = some storedHeader)
    (horg : first.orgId = second.orgId)
    (hkey : idempotencyKeyText first.headers = idempotencyKeyText second.headers)
    (hsame : f.fingerprint = s.fingerprint)
    (hst₂ : Machine.Started h₂ j (route env shardCount second))
    (hlive : ∀ m ∈ h₂, (m.after.nodes.records f.internalKey).isSome) :
    (∀ p ∈ attemptsOf env (Machine.own j h₂), p.1 = claimAttempt env second s p.1.nodeUrl) ∧
    (∀ a k, c.procs j = some (.call (.forwardOnce a) k) →
      a = claimAttempt env second s a.nodeUrl) ∧
    ∃ body, response.body = .full body ∧ ∀ answer, c.procs j = some (.done answer) →
      (ClaimAnswered env (Machine.own j h₂) →
        (body.length ≤ maxReplayBodyBytes →
          answer.status = response.status ∧ answer.body = .full body ∧
            contentTypeText answer.headers = contentTypeText response.headers) ∧
        (maxReplayBodyBytes < body.length → answer = idempotencyReplayUnavailable env
          "stored response exceeded the replay body limit")) ∧
      (¬ClaimAnswered env (Machine.own j h₂) →
        answer.headers.get idempotencyReplayedHeader = none) := by
  obtain ⟨record, captured, hrecord, hmetadata, hresult, rfl⟩ :=
    record_of_stored hjson hfirst hst₁ hf hdone hstored
  -- the record stays the one it was completed as
  have hkept := (hrun.since (P := fun w => w.nodes.records f.internalKey = some record)
    (fun c' hrun' => by rw [hrun'.shared_eq]; simpa using hrecord)
    fun m hm hallowed hbefore => completed_moves (moves_of_allowed hallowed) (by simp [hresult])
      hbefore (hlive m hm)).1
  have hown : Machine.own j (h₁ ++ [⟨.answer i ev, before, after⟩]) = [] :=
    hrun.own_before_start hst₂
  obtain ⟨hattempts, hpending, hend⟩ := refused_of_records
    ((StoredIdempotencyResponse.fromCaptured f captured).intoReplayResponse env) hjson hrun
    (Machine.started_append.2 (Or.inr hst₂)) hs fun m hm nodeUrl reply hlabel => by
      rcases List.mem_append.1 hm with hm | hm
      · have hmem := Machine.mem_own hm hlabel
        rw [hown] at hmem
        exact absurd hmem (by simp)
      · refine ⟨record, ?_, duplicateAnswer_completed hmetadata hresult hsame⟩
        rw [← internalKey_eq hf hs horg hkey]
        exact hkept m hm
  rw [Machine.own_append, hown, List.nil_append] at hattempts hend
  refine ⟨hattempts, hpending, captured.body, rfl, fun answer hanswer => ?_⟩
  obtain ⟨hclaimed, hnot⟩ := hend answer hanswer
  refine ⟨fun hanswered => ⟨fun hfits => ?_, fun hlong => ?_⟩, hnot⟩
  · rw [hclaimed hanswered]
    obtain ⟨hstatus, hbody, htype⟩ := replay_of_fits env f hfits
    refine ⟨hstatus, hbody, htype.trans ?_⟩
    have hne : "content-type" ≠ fiduciaIdempotencyHeader := by decide
    rw [contentTypeText, contentTypeText, Response.withHeader_headers,
      HeaderMap.get_insert_of_ne _ _ hne]
    rfl
  · rw [hclaimed hanswered]
    exact replay_of_truncated hlong

/-- A retry of a stored request, played: it gets the stored body. -/
theorem replay_fidelity_retry : ∃ h c answer, Sample.Cluster.Run Sample.world h c ∧
    c.procs 1 = some (.done answer) ∧ answer.status = .ok ∧ answer.body = .full (utf8 "done") := by
  obtain ⟨h₁, c₁, h₂, c₂, hplay₁, hplay₂, hfound⟩ := Sample.driver.exists_play
    (.initial Sample.world) (Sample.first []) (Sample.second []) (fun h₁ c₁ h₂ c₂ =>
      (h₁.getLast?.bind fun m => m.label.own 0).isSome ∧ c₁.next = 1 ∧
        (∃ r ∈ c₁.result 0, r.headers.get fiduciaIdempotencyHeader = some storedHeader ∧
          r.status = .ok ∧ r.body = .full (utf8 "done")) ∧
        (c₂.result 1).isSome ∧ ClaimAnswered Reference.env (Machine.own 1 h₂) ∧
        ∀ m ∈ h₂, (m.after.nodes.records (Sample.claimed []).internalKey).isSome)
    (by decide +kernel)
  obtain ⟨hlast, hnext, ⟨response, hresponse, hstored, hok, hbody⟩, hdone, hanswered, hlive⟩ :=
    of_decide_eq_true hfound
  have hrun₁ : Sample.Cluster.Run Sample.world h₁ c₁ := Sample.driver.run_of_play .init hplay₁
  have hrun := Sample.driver.run_of_play hrun₁ hplay₂
  have hst₁ := Sample.driver.started_of_play hplay₁ rfl
  have hst₂ := Sample.driver.started_of_play hplay₂ rfl
  rw [hnext] at hst₂
  obtain ⟨answer, hanswer⟩ := Option.isSome_iff_exists.1 hdone
  obtain ⟨ev, hev⟩ := Option.isSome_iff_exists.1 hlast
  obtain ⟨m, hm, hown⟩ := Option.bind_eq_some_iff.1 hev
  obtain ⟨h₀, rfl⟩ := List.getLast?_eq_some_iff.1 hm
  obtain ⟨label, before, after⟩ := m
  obtain rfl : label = .answer 0 ev := Label.eq_answer_of_own hown
  rw [Config.result_eq_some] at hanswer
  obtain ⟨-, -, body, hfull, hreplay⟩ := replay_fidelity Reference.env Reference.jsonRoundTrips
    hrun₁ hrun (Sample.fromRequest_put []) (Sample.fromRequest_put []) hst₁
    (Config.result_eq_some.1 hresponse) hstored rfl rfl rfl hst₂ hlive
  rw [hfull] at hbody
  obtain rfl := Body.full.inj hbody
  obtain ⟨hstatus, hbody', -⟩ := ((hreplay answer hanswer).1 hanswered).1 (by decide)
  exact ⟨_, c₂, answer, hrun, hanswer, hstatus.trans hok, hbody'⟩

end Proxy

end LoadBalance
