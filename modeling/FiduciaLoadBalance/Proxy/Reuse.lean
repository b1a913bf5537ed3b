import FiduciaLoadBalance.Proxy.Duplicate
import FiduciaLoadBalance.Proxy.Simulation

/-!
# A key used again

What a request derives from its key: keys of different orgs never share a record, and
within an org the fingerprint tells requests apart.  So a request that reuses the key of
a different request is told of the conflict, and neither forwarded nor answered with the
other's response; unless its path begins with `/v1/idempotency`, where no key is looked for.
-/

namespace LoadBalance

open Http Text Json Conc

namespace Proxy

/-! ## Fingerprints -/

section

variable {env : Env}

/-- **What a fingerprint digests can be taken apart again**: a body may hold NUL bytes,
but nothing before it does. -/
theorem fingerprintInput_inj {method method' : Method} {uri uri' : Uri}
    {headers headers' : HeaderMap} {body body' : Bytes}
    (h : fingerprintInput method uri.target headers body =
      fingerprintInput method' uri'.target headers' body') :
    method = method' ∧ uri.target = uri'.target ∧
      (contentTypeText headers).getD "" = (contentTypeText headers').getD "" ∧ body = body' := by
  have htype : ∀ headers : HeaderMap, (0 : UInt8) ∉ utf8 ((contentTypeText headers).getD "") := by
    intro headers
    cases ht : contentTypeText headers with
    | none => simp
    | some text =>
      obtain ⟨value, -, hvalue⟩ := Option.bind_eq_some_iff.1 ht
      exact HeaderValue.nul_notMem_toStr hvalue
  simp only [fingerprintInput, List.append_assoc, List.singleton_append] at h
  obtain ⟨hmethod, h⟩ := append_cons_inj_of_first (nul_notMem_utf8 method.nul_notMem)
    (nul_notMem_utf8 method'.nul_notMem) h
  obtain ⟨htarget, h⟩ := append_cons_inj_of_first (nul_notMem_utf8 uri.nul_notMem_target)
    (nul_notMem_utf8 uri'.nul_notMem_target) h
  obtain ⟨hcontent, hbody⟩ := append_cons_inj_of_first (htype headers) (htype headers') h
  refine ⟨?_, utf8_injective htarget, utf8_injective hcontent, hbody⟩
  obtain ⟨name, token⟩ := method
  obtain ⟨name', token'⟩ := method'
  obtain rfl : name = name' := utf8_injective hmethod
  rfl

/-! ## Keys -/

theorem orgScope_eq_iff {identity identity' : Option VerifiedIdentity} :
    CustomerIdempotency.orgScope identity = CustomerIdempotency.orgScope identity' ↔
      identity.map (·.orgId) = identity'.map (·.orgId) := by
  have horg : ∀ org : String, "org:" ++ org ≠ "anonymous" := by
    intro org h
    have := congrArg String.toList h
    simp at this
  cases identity with
  | none =>
    cases identity' with
    | none => simp
    | some identity' =>
      simpa [CustomerIdempotency.orgScope] using (horg identity'.orgId).symm
  | some identity =>
    cases identity' with
    | none => simpa [CustomerIdempotency.orgScope] using horg identity.orgId
    | some identity' =>
      simp only [CustomerIdempotency.orgScope, Option.map_some, Option.some.injEq]
      constructor
      · intro h
        exact String.toList_injective (by simpa using congrArg String.toList h)
      · exact fun h => by rw [h]

section

variable {first second : Request} {f s : CustomerIdempotency}
  (hf : CustomerIdempotency.fromRequest env first.identity first.method first.uri
    first.headers first.body = .ok (some f))
  (hs : CustomerIdempotency.fromRequest env second.identity second.method second.uri
    second.headers second.body = .ok (some s))

include hf hs

/-- Requests of one org that name one key share its record. -/
theorem internalKey_eq (horg : first.orgId = second.orgId)
    (hkey : idempotencyKeyText first.headers = idempotencyKeyText second.headers) :
    f.internalKey = s.internalKey := by
  obtain ⟨trimmed, htrimmed, rfl⟩ := CustomerIdempotency.fromRequest_eq_some hf
  obtain ⟨trimmed', htrimmed', rfl⟩ := CustomerIdempotency.fromRequest_eq_some hs
  obtain rfl := Option.some.inj (htrimmed.symm.trans (hkey.trans htrimmed'))
  simp only [CustomerIdempotency.ofKey, orgScope_eq_iff.2 horg]

/-- Requests of different orgs never do. -/
theorem orgId_eq_of_internalKey_eq (hinj : env.CollisionFree)
    (hkey : f.internalKey = s.internalKey) : first.orgId = second.orgId := by
  obtain ⟨trimmed, -, rfl⟩ := CustomerIdempotency.fromRequest_eq_some hf
  obtain ⟨trimmed', -, rfl⟩ := CustomerIdempotency.fromRequest_eq_some hs
  have htext := congrArg String.toList hkey
  simp only [CustomerIdempotency.ofKey, String.toList_append, List.append_assoc] at htext
  obtain ⟨hhash, -⟩ := append_cons_inj_of_first (slash_notMem_toHex _) (slash_notMem_toHex _)
    (List.append_cancel_left htext)
  exact orgScope_eq_iff.1 (utf8_injective (hinj (toHex_injective (String.toList_injective hhash))))

/-- The fingerprint tells requests apart. -/
theorem eq_of_fingerprint_eq (hinj : env.CollisionFree) (h : f.fingerprint = s.fingerprint) :
    first.method = second.method ∧ first.uri.target = second.uri.target ∧
      (contentTypeText first.headers).getD "" = (contentTypeText second.headers).getD "" ∧
      first.body = second.body := by
  obtain ⟨trimmed, -, rfl⟩ := CustomerIdempotency.fromRequest_eq_some hf
  obtain ⟨trimmed', -, rfl⟩ := CustomerIdempotency.fromRequest_eq_some hs
  exact fingerprintInput_inj (hinj (toHex_injective h))

end

/-- A record claimed for a request with another fingerprint is a conflict. -/
theorem duplicateAnswer_conflict {first second : CustomerIdempotency} {record : Record}
    (hmetadata : record.metadata = first.metadata) (hne : first.fingerprint ≠ second.fingerprint) :
    duplicateAnswer env second record =
      idempotencyConflict env "idempotency key was already used with a different request" := by
  have hfinger := metadata_fingerprint first
  rw [duplicateAnswer, hmetadata, hfinger, if_pos (by simpa using hne)]

/-- A mutation that names the key of another one derives a record too, unless its path begins
with `/v1/idempotency`. -/
theorem fromRequest_of_same_key {first second : Request} {f : CustomerIdempotency}
    (hf : CustomerIdempotency.fromRequest env first.identity first.method first.uri
      first.headers first.body = .ok (some f))
    (hmethod : methodSupportsCustomerIdempotency second.method = true)
    (hpath : isIdempotencyPrimitive second.uri = false)
    (hkey : idempotencyKeyText first.headers = idempotencyKeyText second.headers) :
    ∃ s, CustomerIdempotency.fromRequest env second.identity second.method second.uri
      second.headers second.body = .ok (some s) := by
  obtain ⟨-, -, trimmed, htrimmed, hvalid, -⟩ := CustomerIdempotency.fromRequest_eq_some_iff.1 hf
  exact ⟨_, CustomerIdempotency.fromRequest_eq_some_iff.2
    ⟨hmethod, hpath, trimmed, hkey.symm.trans htrimmed, hvalid, rfl⟩⟩

end

/-- **A reused key never crosses requests or tenants.**  Let a mutation, whose path does not
begin with `/v1/idempotency`, name the key of another request of its org, and differ from it
in method, target, content type or body.  As long as the record that answers its claim is the
other request's, it is never forwarded; if its claim is answered it gets the conflict, and
otherwise no replay.  And requests of different orgs have different records, whatever the
keys. -/
theorem reused_key_conflicts (env : Env) (hjson : env.JsonRoundTrips) (hinj : env.CollisionFree) :
    (∀ {expires : Bool} {shardCount : ℕ} {admits : Request → Prop} {w₀ : World Nodes}
      {h : List (WorldMoment Nodes)} {c : Config Call Call.Answer Response (World Nodes)},
      (balancer env shardCount (upstreams env expires) admits).Run w₀ h c →
      ∀ {first second : Request} {f : CustomerIdempotency} {j : ℕ},
      CustomerIdempotency.fromRequest env first.identity first.method first.uri first.headers
        first.body = .ok (some f) →
      methodSupportsCustomerIdempotency second.method = true →
      isIdempotencyPrimitive second.uri = false →
      first.orgId = second.orgId →
      idempotencyKeyText first.headers = idempotencyKeyText second.headers →
      (first.method ≠ second.method ∨ first.uri.target ≠ second.uri.target ∨
        (contentTypeText first.headers).getD "" ≠ (contentTypeText second.headers).getD "" ∨
        first.body ≠ second.body) →
      Machine.Started h j (route env shardCount second) →
      (∀ m ∈ h, ∀ a, ∀ reply : Reply, m.label = .answer j ⟨.forwardOnce a, reply⟩ →
        a.uri = claimUri → ∃ record, m.before.nodes.records f.internalKey = some record ∧
          record.metadata = f.metadata) →
      ∃ s, CustomerIdempotency.fromRequest env second.identity second.method second.uri
          second.headers second.body = .ok (some s) ∧
        (∀ p ∈ attemptsOf env (Machine.own j h),
          p.1 = claimAttempt env second s p.1.nodeUrl) ∧
        (∀ a k, c.procs j = some (.call (.forwardOnce a) k) →
          a = claimAttempt env second s a.nodeUrl) ∧
        ∀ response, c.procs j = some (.done response) →
          (ClaimAnswered env (Machine.own j h) → response = idempotencyConflict env
            "idempotency key was already used with a different request") ∧
          (¬ClaimAnswered env (Machine.own j h) →
            response.headers.get idempotencyReplayedHeader = none)) ∧
    ∀ {first second : Request} {f s : CustomerIdempotency},
      CustomerIdempotency.fromRequest env first.identity first.method first.uri first.headers
        first.body = .ok (some f) →
      CustomerIdempotency.fromRequest env second.identity second.method second.uri second.headers
        second.body = .ok (some s) →
      first.orgId ≠ second.orgId → f.internalKey ≠ s.internalKey := by
  refine ⟨fun hrun first second f j hf hmethod hpath horg hkey hdiff hst hlive => ?_,
    fun hf hs horg hkey => horg (orgId_eq_of_internalKey_eq hf hs hinj hkey)⟩
  obtain ⟨s, hs⟩ := fromRequest_of_same_key hf hmethod hpath hkey
  have hne : f.fingerprint ≠ s.fingerprint := by
    intro h
    obtain ⟨hmethod, htarget, hcontent, hbody⟩ := eq_of_fingerprint_eq hf hs hinj h
    rcases hdiff with hd | hd | hd | hd
    · exact hd hmethod
    · exact hd htarget
    · exact hd hcontent
    · exact hd hbody
  refine ⟨s, hs, refused_of_records _ hjson hrun hst hs fun m hm nodeUrl reply hlabel => ?_⟩
  obtain ⟨record, hrecord, hmetadata⟩ := hlive m hm _ reply hlabel rfl
  rw [internalKey_eq hf hs horg hkey] at hrecord
  exact ⟨record, hrecord, duplicateAnswer_conflict hmetadata hne⟩

/-- A stored key used again with another body, played: the request gets the conflict. -/
theorem reused_key_conflicts_played : ∃ h c, Sample.Cluster.Run Sample.world h c ∧
    c.procs 1 = some (.done (idempotencyConflict Reference.env
      "idempotency key was already used with a different request")) := by
  obtain ⟨h₁, c₁, h₂, c, hplay₁, hplay₂, hfound⟩ := Sample.driver.exists_play
    (.initial Sample.world) (Sample.first []) (Sample.second (utf8 "w"))
    (fun h₁ c₁ h₂ c => c₁.next = 1 ∧ (c.result 1).isSome ∧
      ClaimAnswered Reference.env (Machine.own 1 (h₁ ++ h₂)) ∧
      ∀ m ∈ h₁ ++ h₂, (m.label.own 1).isSome →
        ∃ record ∈ m.before.nodes.records (Sample.claimed []).internalKey,
          record.metadata = (Sample.claimed []).metadata)
    (by decide +kernel)
  obtain ⟨hnext, hdone, hanswered, hlive⟩ := of_decide_eq_true hfound
  have hrun₁ : Sample.Cluster.Run Sample.world h₁ c₁ := Sample.driver.run_of_play .init hplay₁
  have hrun := Sample.driver.run_of_play hrun₁ hplay₂
  have hst := Sample.driver.started_of_play hplay₂ rfl
  rw [hnext] at hst
  obtain ⟨answer, hanswer⟩ := Option.isSome_iff_exists.1 hdone
  rw [Config.result_eq_some] at hanswer
  have hmethod : methodSupportsCustomerIdempotency (Sample.put (utf8 "w")).method = true := by
    decide
  have horg : (Sample.put []).orgId = (Sample.put (utf8 "w")).orgId := rfl
  have hkey : idempotencyKeyText (Sample.put []).headers =
      idempotencyKeyText (Sample.put (utf8 "w")).headers := rfl
  have hbody : (Sample.put []).body ≠ (Sample.put (utf8 "w")).body := by decide
  obtain ⟨s, -, -, -, hconflict⟩ := (reused_key_conflicts Reference.env Reference.jsonRoundTrips
    Reference.collisionFree).1 hrun (Sample.fromRequest_put []) hmethod (Sample.admits_put _) horg
    hkey (Or.inr (Or.inr (Or.inr hbody))) (Machine.started_append.2 (Or.inr hst))
    fun m hm a reply hlabel _ => hlive m hm (by simp [hlabel, Label.own])
  rw [(hconflict answer hanswer).1 hanswered] at hanswer
  exact ⟨_, c, hrun, hanswer⟩

/-- **A reused key crosses requests** if the path begins as the protocol's do: a mutation is
stored under a key, and another one of the org, with the same key and another target, is
forwarded while the record is live, and carried out. -/
theorem not_reused_key_conflicts : ∃ h c, Sample.OpenCluster.Run Sample.world h c ∧
    Machine.Started h 1 (route Reference.env 1 Sample.putKeys) ∧
    (∀ m ∈ h, (m.label.own 1).isSome →
      ∃ record ∈ m.before.nodes.records (Sample.claimed []).internalKey,
        record.metadata = (Sample.claimed []).metadata) ∧
    (methodSupportsCustomerIdempotency Sample.putKeys.method = true ∧
      (Sample.put []).orgId = Sample.putKeys.orgId ∧
      idempotencyKeyText (Sample.put []).headers = idempotencyKeyText Sample.putKeys.headers ∧
      (Sample.put []).uri.target ≠ Sample.putKeys.uri.target) ∧
    (∃ p ∈ attemptsOf Reference.env (Machine.own 1 h),
      p.1 = Sample.putKeys.attempt p.1.nodeUrl) ∧
    ∃ response, c.procs 1 = some (.done response) ∧ response.status = .ok := by
  obtain ⟨h₁, c₁, h₂, c, hplay₁, hplay₂, hfound⟩ := Sample.openDriver.exists_play
    (.initial Sample.world) Sample.completed (Sample.unclaimed 1)
    (fun h₁ c₁ h₂ c => c₁.next = 1 ∧ (c.result 1).any (fun response => response.status = .ok) ∧
      (∀ m ∈ h₁ ++ h₂, (m.label.own 1).isSome →
        ∃ record ∈ m.before.nodes.records (Sample.claimed []).internalKey,
          record.metadata = (Sample.claimed []).metadata) ∧
      ∃ p ∈ attemptsOf Reference.env (Machine.own 1 (h₁ ++ h₂)),
        p.1 = Sample.putKeys.attempt p.1.nodeUrl)
    (by decide +kernel)
  obtain ⟨hnext, hdone, hlive, hattempt⟩ := of_decide_eq_true hfound
  obtain ⟨response, hresult, hok⟩ := (Option.any_eq_true _ _).1 hdone
  have hrun₁ : Sample.OpenCluster.Run Sample.world h₁ c₁ :=
    Sample.openDriver.run_of_play .init hplay₁
  have hst := Sample.openDriver.started_of_play hplay₂ rfl
  rw [hnext] at hst
  refine ⟨_, c, Sample.openDriver.run_of_play hrun₁ hplay₂,
    Machine.started_append.2 (Or.inr hst), hlive, ⟨by decide, rfl, rfl, by decide +kernel⟩,
    hattempt, response, Config.result_eq_some.1 hresult, of_decide_eq_true hok⟩

end Proxy

end LoadBalance
