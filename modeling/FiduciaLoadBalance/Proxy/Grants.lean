import FiduciaLoadBalance.Proxy.Protocol

/-!
# The invariant of the records

In every run of the balancer over nodes that keep records: a fencing token is granted
once, and each record is that of a grant (`Nodes.Inv`).  A task whose claim was granted,
going by the responses it got, has its grant among the nodes' (`grant_of_granted`).
-/

namespace LoadBalance

open Http Text Json Conc

namespace Proxy

/-! ## What a moment does to the nodes -/

/-- What any moment of a run can do to the nodes. -/
inductive Moves (env : Env) (expires : Bool) : Nodes → Nodes → Prop
  | stay (s : Nodes) : Moves env expires s s
  | send (s : Nodes) (i : ℕ) (a : Attempt) : Moves env expires s (s.send env i a)
  | perform {s s' : Nodes} {i : ℕ} {a : Attempt} {report : Report} :
      Performs env i a s report s' → Moves env expires s s'
  | background {s s' : Nodes} : Background env expires s s' → Moves env expires s s'

section

variable {env : Env} {expires : Bool} {shardCount : ℕ} {admits : Request → Prop}

theorem Answers.moves {i : ℕ} {a : Attempt} {s s' : Nodes} {reply : Reply}
    (h : Answers env i a s reply s') : Moves env expires s s' := by
  cases h with
  | refused _ => exact .stay s
  | lost _ => exact .send s i a
  | failed _ _ => exact .stay s
  | served _ hperforms _ _ => exact .perform hperforms

theorem moves_of_allowed {m : WorldMoment Nodes}
    (h : (balancer env shardCount (upstreams env expires) admits).Allowed m) :
    Moves env expires m.before.nodes m.after.nodes := by
  obtain ⟨label, before, after⟩ := m
  cases label with
  | start i p =>
    obtain ⟨-, hsame⟩ := h
    obtain rfl : after = before := hsame
    exact .stay _
  | answer i ev =>
    obtain ⟨e, r⟩ := ev
    have hexec : Exec env (upstreams env expires) i before e r after := h
    cases hexec with
    | table _ => exact .stay _
    | attempt hanswers => exact Answers.moves hanswers
  | env =>
    have harrives : Arrives env (upstreams env expires) before after := h
    cases harrives with
    | snapshot => exact .stay _
    | nodes hbackground => exact .background hbackground
  | drop i =>
    obtain ⟨p, hcancels⟩ := h
    have hcancels : Cancels (upstreams env expires) i p before after := hcancels
    cases hcancels with
    | still => exact .stay _
    | @attempt _ a k n hsent =>
      obtain rfl : n = before.nodes.send env i a := hsent
      exact .send _ i a

/-- **The rule for the nodes**: what sending keeps, what carrying out a request keeps
whatever is in flight, and what expiry keeps, every moment keeps. -/
theorem Moves.keeps {P : Nodes → Prop} {s s' : Nodes} (hmoves : Moves env expires s s')
    (hsend : ∀ i a, P s → P (s.send env i a))
    (hperform : ∀ l i a report s', P s → Performs env i a { s with inFlight := l } report s' → P s')
    (hexpire : expires = true → ∀ key, P s →
      P { s with records := Function.update s.records key none })
    (hs : P s) : P s' := by
  cases hmoves with
  | stay => exact hs
  | send i a => exact hsend i a hs
  | perform h => exact hperform s.inFlight _ _ _ _ hs h
  | background h =>
    cases h with
    | deliver _ h => exact hperform _ _ _ _ _ hs h
    | expire hexp => exact hexpire hexp _ hs

/-! ## The invariant -/

/-- Tokens are granted once, and records are those of grants. -/
structure Nodes.Inv (s : Nodes) : Prop where
  unique : ∀ g ∈ s.grants, ∀ g' ∈ s.grants, g.fencingToken = g'.fencingToken → g = g'
  granted : ∀ key record, s.records key = some record → ∃ g ∈ s.grants, g.key = key ∧
    g.fencingToken = record.fencingToken ∧ g.metadata = record.metadata

theorem Nodes.Inv.empty : Nodes.empty.Inv := ⟨by simp [Nodes.empty], by simp [Nodes.empty]⟩

theorem Nodes.Inv.performs {s s' : Nodes} (hs : s.Inv) {i : ℕ} {a : Attempt} {report : Report}
    (h : Performs env i a s report s') : s'.Inv := by
  cases h with
  | @grant key owner metadata fencingToken hop hnone hfresh =>
    refine ⟨fun g hg g' hg' htoken => ?_, fun key' record hrecord => ?_⟩
    · rcases List.mem_cons.1 hg with rfl | hg
      · rcases List.mem_cons.1 hg' with rfl | hg'
        · rfl
        · exact absurd htoken.symm (hfresh g' hg')
      · rcases List.mem_cons.1 hg' with rfl | hg'
        · exact absurd htoken (hfresh g hg)
        · exact hs.unique g hg g' hg' htoken
    · rw [Nodes.grant_records] at hrecord
      split at hrecord
      · rename_i hkey
        obtain rfl := Option.some.inj hrecord
        exact ⟨_, List.mem_cons_self, hkey.symm, rfl, rfl⟩
      · obtain ⟨g, hg, hrest⟩ := hs.granted key' record hrecord
        exact ⟨g, List.mem_cons_of_mem _ hg, hrest⟩
  | @complete key owner fencingToken result hop =>
    refine ⟨hs.unique, fun key' record hrecord => ?_⟩
    rw [Nodes.complete_records] at hrecord
    split at hrecord
    · rename_i hkey
      obtain ⟨old, hold, rfl⟩ := Option.map_eq_some_iff.1 hrecord
      exact hkey.1 ▸ hs.granted key old hold
    · exact hs.granted key' record hrecord
  | @abandon key fencingToken hop =>
    refine ⟨hs.unique, fun key' record hrecord => ?_⟩
    rw [Nodes.abandon_records] at hrecord
    split at hrecord
    · exact absurd hrecord (by simp)
    · exact hs.granted key' record hrecord
  | duplicate => exact hs
  | mutation => exact ⟨hs.unique, hs.granted⟩
  | other => exact hs

theorem Nodes.Inv.moves {s s' : Nodes} (hs : s.Inv) (h : Moves env expires s s') : s'.Inv := by
  refine h.keeps (fun i a hs => ⟨hs.unique, hs.granted⟩)
    (fun l i a report s' hs hperforms => ?_) (fun _ key hs => ⟨hs.unique, fun key' record hr => ?_⟩)
    hs
  · have hinv : Nodes.Inv { s with inFlight := l } := ⟨hs.unique, hs.granted⟩
    exact hinv.performs hperforms
  · dsimp only at hr
    by_cases hkey : key' = key
    · simp [hkey] at hr
    · rw [Function.update_of_ne hkey] at hr
      exact hs.granted key' record hr

/-! ## Grants are not forgotten -/

theorem mem_grants_performs {s s' : Nodes} {i : ℕ} {a : Attempt} {report : Report} {g : Grant}
    (h : Performs env i a s report s') (hg : g ∈ s.grants) : g ∈ s'.grants := by
  cases h with
  | grant => exact List.mem_cons_of_mem _ hg
  | _ => exact hg

theorem mem_grants_moves {s s' : Nodes} {g : Grant} (h : Moves env expires s s')
    (hg : g ∈ s.grants) : g ∈ s'.grants :=
  h.keeps (P := fun s => g ∈ s.grants) (fun _ _ hg => hg)
    (fun _ _ _ _ _ hg hperforms => mem_grants_performs hperforms hg) (fun _ _ hg => hg) hg

/-- A response that grants a claim is the answer to one that was granted. -/
theorem Answers.granted {i : ℕ} {a : Attempt} {s s' : Nodes} {reply : Reply}
    (h : Answers env i a s reply s') {key owner : String} {metadata : Value}
    (hop : operationOf env a = some (.claim key owner metadata)) {response : Response}
    (hout : outcome env a reply = .served response) {idempotency : CustomerIdempotency}
    {fencingToken : UInt64} (htoken : grantedToken env idempotency response = .ok fencingToken) :
    ⟨i, key, fencingToken, metadata⟩ ∈ s'.grants := by
  obtain ⟨hsuccess, hread⟩ := grantedToken_eq_ok htoken
  cases h with
  | refused hrefused => exact absurd hrefused (by simp [hout])
  | lost hlost => exact absurd hlost (by simp [hout])
  | failed hserved hfail =>
    obtain rfl := Upstream.served.inj (hout.symm.trans hserved)
    exact absurd hsuccess (by simp [hfail])
  | served hserved hperforms _ hreport =>
    obtain rfl := Upstream.served.inj (hout.symm.trans hserved)
    cases hperforms with
    | grant hop' hnone hfresh =>
      obtain ⟨rfl, rfl, rfl⟩ := Operation.claim.inj (Option.some.inj (hop.symm.trans hop'))
      obtain ⟨output, houtput, -, hgiven⟩ := hreport hsuccess
      have hsame := hread output houtput
      rw [hgiven, Option.bind_some, Value.asU64_posInt] at hsame
      rw [← Option.some.inj hsame]
      exact List.mem_cons_self
    | duplicate _ _ =>
      rw [grantedToken_of_duplicate hsuccess (hreport hsuccess)] at htoken
      exact absurd htoken (by simp)
    | complete hop' => exact absurd (hop.symm.trans hop') (by simp)
    | abandon hop' => exact absurd (hop.symm.trans hop') (by simp)
    | mutation hop' _ => exact absurd (hop.symm.trans hop') (by simp)
    | other hop' => exact absurd (hop.symm.trans hop') (by simp)

/-- **A task's grant is among the nodes'.** -/
theorem grant_of_granted (hjson : env.JsonRoundTrips) {w₀ : World Nodes}
    {h : List (WorldMoment Nodes)} {c : Config Call Call.Answer Response (World Nodes)}
    (hrun : (balancer env shardCount (upstreams env expires) admits).Run w₀ h c) {i : ℕ}
    {request : Request} {idempotency : CustomerIdempotency} {fencingToken : UInt64}
    (hgranted : Granted env request idempotency fencingToken (attemptsOf env (Machine.own i h))) :
    ⟨i, idempotency.internalKey, fencingToken, idempotency.metadata⟩ ∈ c.shared.nodes.grants := by
  obtain ⟨p, hp, hclaim, response, hserved, htoken⟩ := hgranted
  obtain ⟨pre, reply, post, hown, hout⟩ := mem_attemptsOf hp
  obtain ⟨hpre, before, after, hpost, hsplit, -⟩ := Machine.own_split hown
  have hmem : (⟨.answer i ⟨.forwardOnce p.1, reply⟩, before, after⟩ : WorldMoment Nodes) ∈ h := by
    simp [hsplit]
  have hexec : Exec env (upstreams env expires) i before (.forwardOnce p.1) reply after :=
    hrun.allowed _ hmem
  have hop : operationOf env p.1 = some (.claim idempotency.internalKey idempotency.owner
      idempotency.metadata) := by
    rw [hclaim]
    exact operationOf_claim hjson _
  have hafter : (⟨i, idempotency.internalKey, fencingToken, idempotency.metadata⟩ : Grant) ∈
      after.nodes.grants := by
    cases hexec with
    | table ht => cases ht
    | attempt hanswers => exact Answers.granted hanswers hop (hout.symm.trans hserved) htoken
  rw [hsplit, ← List.singleton_append, ← List.append_assoc] at hrun
  refine (hrun.since (P := fun w => (⟨i, idempotency.internalKey, fencingToken,
    idempotency.metadata⟩ : Grant) ∈ w.nodes.grants) (fun c' hrun' => ?_)
    fun m _ hallowed hg => mem_grants_moves (moves_of_allowed hallowed) hg).2
  rw [hrun'.shared_eq]
  simpa using hafter

theorem keeps_inv : (balancer env shardCount (upstreams env expires) admits).Keeps
    (fun w => w.nodes.Inv) where
  exec := fun {i s e r s'} hI h => by
    have hallowed : (balancer env shardCount (upstreams env expires) admits).Allowed
        ⟨.answer i ⟨e, r⟩, s, s'⟩ := h
    exact hI.moves (moves_of_allowed hallowed)
  env := fun {s s'} hI h => by
    have hallowed : (balancer env shardCount (upstreams env expires) admits).Allowed
        ⟨.env, s, s'⟩ := h
    exact hI.moves (moves_of_allowed hallowed)
  drop := fun {i p s s'} hI h => by
    have hallowed : (balancer env shardCount (upstreams env expires) admits).Allowed
        ⟨.drop i, s, s'⟩ := ⟨p, h⟩
    exact hI.moves (moves_of_allowed hallowed)

end

end Proxy

end LoadBalance
