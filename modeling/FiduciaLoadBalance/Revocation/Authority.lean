import FiduciaLoadBalance.Concurrency.Refine
import FiduciaLoadBalance.Revocation.Freshness

/-!
# The authority, asked over HTTP

The gate asks an authority and is told whether a token is revoked.  The authority of the
balancer is a service: it is sent the claims under the reader's secret, and what it sends
back decides only if it is a success, not too long, and consistent in itself.

* `validateWireDecision` — which decisions are consistent;
* `HttpRevocationAuthority.check` — what comes of asking, with `check_decision_iff`: exactly
  which answers decide;
* `httpGate` — the gate with this authority, which refines the gate with any
  (`httpGate_refines`);
* `decided_on_wire` — so whatever the gate decides, this authority said, in the form it
  has to have, and within the freshness budget.
-/

namespace LoadBalance

open Http Conc Machine

namespace Revocation

/-- Why asking came to nothing. -/
inductive AuthorityError : Type
  | misconfigured
  | transport
  | status
  | oversized
  | malformed
deriving DecidableEq

/-- What a revocation was found by. -/
inductive MatchedTarget : Type
  | tokenId
  | subject
deriving DecidableEq

/-- A decision as the authority sends it. -/
structure WireDecision where
  revoked : Bool
  matchedTarget : Option MatchedTarget
  generation : Option UInt64
  expiresAt : Option UInt64
deriving DecidableEq

def maxResponseBytes : ℕ := 16 * 1024

/-- A revocation names its target and generation and is in force at the second `now`; the
absence of one names nothing. -/
def validateWireDecision (decision : WireDecision) (now : ℕ) : Except AuthorityError Unit :=
  if decision.revoked then
    if decision.matchedTarget.isNone || decision.generation.isNone ||
        decision.expiresAt.all (·.toNat ≤ now) then .error .malformed
    else .ok ()
  else if decision.matchedTarget.isSome || decision.generation.isSome ||
      decision.expiresAt.isSome then .error .malformed
  else .ok ()

/-- What comes back. -/
inductive Posted : Type
  | failed
  /-- An answer; its body can break off. -/
  | response (status : StatusCode) (body : Option Bytes)

/-- The authority over HTTP: the secret it is asked under, and how the envelope of a
decision is read. -/
structure HttpRevocationAuthority where
  readerSecret : Option String
  envelope : Bytes → Option WireDecision

namespace HttpRevocationAuthority

/-- What was sent back, read at the second `now`. -/
def checkRevocation (authority : HttpRevocationAuthority) (posted : Posted) (now : ℕ) :
    Except AuthorityError Bool :=
  match posted with
  | .failed => .error .transport
  | .response status body =>
    if !status.isSuccess then .error .status
    else
      match body with
      | none => .error .transport
      | some body =>
        if maxResponseBytes < body.length then .error .oversized
        else
          match authority.envelope body with
          | none => .error .malformed
          | some decision => (validateWireDecision decision now).map fun _ => decision.revoked

/-- What comes of asking; `none` is no answer before the time is up.  Without a secret
nobody is asked. -/
def check (authority : HttpRevocationAuthority) (posted : Option Posted) (now : ℕ) : Checked :=
  match authority.readerSecret, posted with
  | none, _ => .failed
  | some _, none => .timedOut
  | some _, some posted =>
    match authority.checkRevocation posted now with
    | .error _ => .failed
    | .ok revoked => .answered revoked

/-! ## Which answers decide -/

/-- A success of at most 16 KiB that says this. -/
def Says (authority : HttpRevocationAuthority) (posted : Posted) (decision : WireDecision) : Prop :=
  ∃ status body, posted = .response status (some body) ∧ status.isSuccess = true ∧
    body.length ≤ maxResponseBytes ∧ authority.envelope body = some decision

/-- What the authority has to say for a decision at the second `now`: that the token is not
revoked, and no more; or by what it is, and until a later second. -/
def Decides (authority : HttpRevocationAuthority) (posted : Posted) (now : ℕ) : Decision → Prop
  | .allow => authority.Says posted ⟨false, none, none, none⟩
  | .deny => ∃ target generation, ∃ expiresAt : UInt64, now < expiresAt.toNat ∧
      authority.Says posted ⟨true, some target, some generation, some expiresAt⟩

theorem validateWireDecision_allow {decision : WireDecision} {now : ℕ}
    (hclear : decision.revoked = false) : validateWireDecision decision now = .ok () ↔
      decision = ⟨false, none, none, none⟩ := by
  obtain ⟨revoked, target, generation, expiresAt⟩ := decision
  obtain rfl : revoked = false := hclear
  cases target <;> cases generation <;> cases expiresAt <;> simp [validateWireDecision]

theorem validateWireDecision_deny {decision : WireDecision} {now : ℕ}
    (hrevoked : decision.revoked = true) : validateWireDecision decision now = .ok () ↔
      ∃ target generation, ∃ expiresAt : UInt64, now < expiresAt.toNat ∧
        decision = ⟨true, some target, some generation, some expiresAt⟩ := by
  obtain ⟨revoked, target, generation, expiresAt⟩ := decision
  obtain rfl : revoked = true := hrevoked
  cases target <;> cases generation <;> cases expiresAt <;> simp [validateWireDecision]

variable {authority : HttpRevocationAuthority} {posted : Posted} {now : ℕ}

/-- What is read as an answer was said, and is valid. -/
theorem checkRevocation_eq_ok {revoked : Bool} :
    authority.checkRevocation posted now = .ok revoked ↔
      ∃ decision, authority.Says posted decision ∧ decision.revoked = revoked ∧
        validateWireDecision decision now = .ok () := by
  constructor
  · intro h
    unfold checkRevocation at h
    split at h
    · exact absurd h (by simp)
    rename_i status body
    split at h
    · exact absurd h (by simp)
    rename_i hsuccess
    split at h
    · exact absurd h (by simp)
    rename_i body
    split at h
    · exact absurd h (by simp)
    rename_i hlength
    split at h
    · exact absurd h (by simp)
    rename_i decision hdecision
    cases hvalid : validateWireDecision decision now with
    | error error =>
      rw [hvalid] at h
      exact absurd h (by simp [Except.map])
    | ok done =>
      rw [hvalid] at h
      exact ⟨decision, ⟨status, body, rfl, by simpa using hsuccess, not_lt.1 hlength, hdecision⟩,
        Except.ok.inj h, hvalid⟩
  · rintro ⟨decision, ⟨status, body, rfl, hsuccess, hlength, hdecision⟩, rfl, hvalid⟩
    simp [checkRevocation, hsuccess, not_lt.2 hlength, hdecision, hvalid, Except.map]

theorem checkRevocation_eq_decision {decision : Decision} :
    (∃ revoked, authority.checkRevocation posted now = .ok revoked ∧
      (Checked.answered revoked).decision = some decision) ↔
      authority.Decides posted now decision := by
  simp only [checkRevocation_eq_ok]
  cases decision with
  | allow =>
    constructor
    · rintro ⟨revoked, ⟨wire, hsays, rfl, hvalid⟩, hdecision⟩
      have hclear : wire.revoked = false := by
        by_contra hrevoked
        simp [Checked.decision, hrevoked] at hdecision
      obtain rfl := (validateWireDecision_allow hclear).1 hvalid
      exact hsays
    · intro hsays
      exact ⟨false, ⟨_, hsays, rfl, (validateWireDecision_allow rfl).2 rfl⟩, rfl⟩
  | deny =>
    constructor
    · rintro ⟨revoked, ⟨wire, hsays, rfl, hvalid⟩, hdecision⟩
      have hrevoked : wire.revoked = true := by
        by_contra hclear
        simp [Checked.decision, hclear] at hdecision
      obtain ⟨target, generation, expiresAt, hlt, rfl⟩ :=
        (validateWireDecision_deny hrevoked).1 hvalid
      exact ⟨target, generation, expiresAt, hlt, hsays⟩
    · rintro ⟨target, generation, expiresAt, hlt, hsays⟩
      exact ⟨true, ⟨_, hsays, rfl,
        (validateWireDecision_deny rfl).2 ⟨target, generation, expiresAt, hlt, rfl⟩⟩, rfl⟩

/-- **A check decides** exactly where a secret is configured and the authority says, in time,
what it has to. -/
theorem check_decision_iff {posted : Option Posted} {decision : Decision} :
    (authority.check posted now).decision = some decision ↔
      authority.readerSecret.isSome ∧ ∃ answer, posted = some answer ∧
        authority.Decides answer now decision := by
  unfold check
  cases hsecret : authority.readerSecret with
  | none => simp [Checked.decision]
  | some secret =>
    cases posted with
    | none => simp [Checked.decision]
    | some answer =>
      simp only [Option.isSome_some, true_and, Option.some.injEq, exists_eq_left',
        ← checkRevocation_eq_decision]
      cases hread : authority.checkRevocation answer now with
      | error error => simp [Checked.decision]
      | ok revoked => simp

end HttpRevocationAuthority

/-! ## The gate with this authority -/

/-- If the authority is asked, it is this one. -/
def FromAuthority (authority : HttpRevocationAuthority) : (e : Call) → e.Answer → Prop
  | .checkRevocation _ now, checked => ∃ posted, checked = authority.check posted now
  | _, _ => True

/-- The gate at work, with the authority over HTTP. -/
def httpGate (env : Env) (authority : HttpRevocationAuthority) (steady : Prop) :
    Machine Call Call.Answer Authorization Gate :=
  { gate env steady with
    exec := fun i s e r s' => Exec i s e r s' ∧ FromAuthority authority e r }

theorem httpGate_refines (env : Env) (authority : HttpRevocationAuthority) (steady : Prop) :
    (httpGate env authority steady).Refines (gate env steady) id where
  start h := h
  exec h := h.1
  env h := h
  drop h := h

variable {env : Env} {authority : HttpRevocationAuthority} {steady : Prop} {s₀ : Gate}
  {h : List GateMoment} {c : Config Call Call.Answer Authorization Gate} {i : ℕ} {now : ℕ}

/-- A run with this authority is one with any. -/
theorem gate_run_of_http (hrun : (httpGate env authority steady).Run s₀ h c) :
    (gate env steady).Run s₀ h c := by
  have hmap := hrun.map (httpGate_refines env authority steady)
  rwa [show h.map (Moment.map id) = h from List.map_id h] at hmap

/-- What a check of a run came to, this authority said. -/
theorem posted_of_checked (hrun : (httpGate env authority steady).Run s₀ h c) {claims : Claims}
    {checked : Checked} (hev : ⟨.checkRevocation claims now, checked⟩ ∈ own i h) :
    ∃ posted, checked = authority.check posted now := by
  obtain ⟨pre, b, a, post, rfl⟩ := exists_of_mem_own hev
  exact (hrun.allowed _ (List.mem_append_right _ List.mem_cons_self)).2

/-- A call that decided relied on a decision. -/
theorem relies_of_decided (hrun : (gate env steady).Run s₀ h c) {claims : Claims}
    {decision : Decision} (hst : Started h i (authorize env claims now))
    (hdecided : c.result i = some (decisionToAuthorization decision)) :
    ∃ pre post, h = pre ++ post ∧
      Relies i (revocationCacheKey env claims) now decision pre post := by
  have hinj : ∀ decision', decisionToAuthorization decision' = decisionToAuthorization decision →
      decision' = decision := by
    intro decision' heq
    cases decision' <;> cases decision <;> first | rfl | exact absurd heq (by decide)
  have hcame := came_of_run hrun hst hdecided
  generalize hresult : decisionToAuthorization decision = result at hcame
  cases hcame with
  | read hev =>
    rw [hinj _ hresult.symm] at hev
    exact relies_of_read hrun hst hev
  | recorded hev =>
    rw [hinj _ hresult.symm] at hev
    exact relies_of_recorded hrun hst hev
  | _ => cases decision <;> exact absurd hresult (by simp [decisionToAuthorization])

/-- The authority decided this on the token of these claims, in its answer to a check that was
made in a second no more than the budget before `now`. -/
def OnWire (env : Env) (authority : HttpRevocationAuthority) (freshnessBudgetSecs : ℕ)
    (h : List GateMoment) (claims : Claims) (now : ℕ) (decision : Decision) : Prop :=
  authority.readerSecret.isSome ∧ ∃ j claims' now₀ posted,
    Started h j (authorize env claims' now₀) ∧ SameToken claims' claims ∧
    ⟨.checkRevocation claims' now₀, authority.check (some posted) now₀⟩ ∈ own j h ∧
    authority.Decides posted now₀ decision ∧ now₀ ≤ now ∧ now ≤ now₀ + freshnessBudgetSecs

theorem onWire_of_run (hinj : env.CollisionFree) {freshnessBudgetSecs capacity clock : ℕ}
    (hrun : (httpGate env authority steady).Run (.new freshnessBudgetSecs capacity clock) h c)
    {claims : Claims} (hst : Started h i (authorize env claims now)) {decision : Decision}
    (hdecided : c.result i = some (decisionToAuthorization decision)) :
    OnWire env authority (RevocationCache.new freshnessBudgetSecs capacity).freshnessBudgetSecs
      h claims now decision := by
  have hgate := gate_run_of_http hrun
  obtain ⟨pre, post, rfl, hrelies⟩ := relies_of_decided hgate hst hdecided
  obtain ⟨j, now₀, hlast, hle, hbudget⟩ := lastRecorded_of_relies hgate rfl hrelies
  obtain ⟨c', hrun'⟩ := hgate.of_append
  obtain ⟨claims', checked, hstarted, hkey, hchecked, hdecision⟩ :=
    author_of_lastRecorded hrun' hlast
  have hown : ⟨.checkRevocation claims' now₀, checked⟩ ∈ own j (pre ++ post) := by
    rw [own_append]
    exact List.mem_append_left _ hchecked
  obtain ⟨posted, rfl⟩ := posted_of_checked hrun hown
  obtain ⟨hsecret, answer, rfl, hdecides⟩ :=
    HttpRevocationAuthority.check_decision_iff.1 hdecision
  exact ⟨hsecret, j, claims', now₀, answer, started_append.2 (Or.inl hstarted),
    revocationCacheKey_injective hinj hkey.symm, hown, hdecides, hle, hbudget⟩

/-- **What the gate decides was said on the wire.**  Whatever calls interleave, whatever
seconds they are given and whatever the authority sends: a call that finds a token allowed,
or revoked, is given a secret to ask under, and the authority sent a success of at most 16 KiB
that decides just that and contradicts itself in nothing, in answer to the claims of the same
token, in a second no more than the budget before. -/
theorem decided_on_wire (env : Env) (hinj : env.CollisionFree)
    (authority : HttpRevocationAuthority) {steady : Prop}
    {freshnessBudgetSecs capacity clock : ℕ} {h : List GateMoment}
    {c : Config Call Call.Answer Authorization Gate}
    (hrun : (httpGate env authority steady).Run (.new freshnessBudgetSecs capacity clock) h c)
    {i : ℕ} {claims : Claims} {now : ℕ} (hst : Started h i (authorize env claims now))
    {decision : Decision} (hdecided : c.result i = some (decisionToAuthorization decision)) :
    authority.readerSecret.isSome ∧ ∃ j claims' now₀ posted,
      Started h j (authorize env claims' now₀) ∧ SameToken claims' claims ∧
      ⟨.checkRevocation claims' now₀, authority.check (some posted) now₀⟩ ∈ own j h ∧
      authority.Decides posted now₀ decision ∧ now₀ ≤ now ∧
      now ≤ now₀ + (RevocationCache.new freshnessBudgetSecs capacity).freshnessBudgetSecs :=
  onWire_of_run hinj hrun hst hdecided

/-! ## An authority to play with -/

/-- The second an authority is asked in. -/
def askedAt : Call → ℕ
  | .checkRevocation _ now => now
  | _ => 0

theorem fromAuthority_of_execWith (authority : HttpRevocationAuthority) (posted : Option Posted)
    {i : ℕ} {s s' : Gate} {e : Call} {r : e.Answer}
    (h : execWith (authority.check posted (askedAt e)) i s e = some (r, s')) :
    FromAuthority authority e r := by
  cases e with
  | checkRevocation claims now =>
    obtain ⟨rfl, rfl⟩ := Prod.mk.inj (Option.some.inj h)
    exact ⟨posted, rfl⟩
  | _ => trivial

/-- The gate with this authority, driven as the steady gate is; what the authority sends is
chosen by the schedule. -/
def httpSimulation (env : Env) (authority : HttpRevocationAuthority) :
    Machine.Driver (httpGate env authority True) where
  Job := Claims
  Choice := Option Posted
  Turn := ℕ
  start := (simulation env).start
  exec posted i s e := execWith (authority.check posted (askedAt e)) i s e
  env := (simulation env).env
  start_sound := (simulation env).start_sound
  exec_sound := fun {posted _ _ _ _ _} h =>
    ⟨exec_of_execWith h, fromAuthority_of_execWith authority posted h⟩
  env_sound := (simulation env).env_sound

namespace Sample

/-- What the authority sends about a token that is not revoked. -/
def clearBody : Bytes := Text.utf8 "\x7b\"decision\":\x7b\"revoked\":false\x7d\x7d"

/-- An authority that is asked under a secret. -/
def service : HttpRevocationAuthority where
  readerSecret := some "0123456789abcdef0123456789abcdef"
  envelope body := if body = clearBody then some ⟨false, none, none, none⟩ else none

def httpDriver : Machine.Driver (httpGate Reference.env service True) :=
  httpSimulation Reference.env service

/-- A token that is asked about, and two seconds. -/
def askedOnce : List httpDriver.Move :=
  .start claims :: List.replicate 10 (.answer 0 (some (.response .ok (some clearBody)))) ++
    [.env (2 : ℕ)]

end Sample

/-- A call of second 12, played, that is allowed by what was sent in second 10. -/
theorem decided_on_wire_allowed : ∃ h c,
    (httpGate Reference.env Sample.service True).Run Sample.start h c ∧
      c.result 1 = some .allowed ∧ ∃ j claims' now₀ posted, SameToken claims' Sample.claims ∧
        ⟨.checkRevocation claims' now₀, Sample.service.check (some posted) now₀⟩ ∈ own j h ∧
        Sample.service.Decides posted now₀ .allow ∧ 12 ≤ now₀ + 5 := by
  obtain ⟨h₁, c₁, h₂, c₂, hplay₁, hplay₂, hfound⟩ := Sample.httpDriver.exists_play
    (.initial Sample.start) Sample.askedOnce [.start Sample.claims, .answer 1 none]
    (fun _ c₁ _ c₂ => c₁.next = 1 ∧ c₁.shared.clock = 12 ∧ c₂.result 1 = some .allowed)
    (by decide +kernel)
  obtain ⟨hnext, hclock, hallowed⟩ := of_decide_eq_true hfound
  have hrun := Sample.httpDriver.run_of_play (Sample.httpDriver.run_of_play .init hplay₁) hplay₂
  have hst := Sample.httpDriver.started_of_play hplay₂ rfl
  rw [hnext, hclock] at hst
  obtain ⟨-, j, claims', now₀, posted, -, htoken, hown, hdecides, -, hbudget⟩ :=
    decided_on_wire Reference.env Reference.collisionFree Sample.service hrun
      (started_append.2 (Or.inr hst)) (show c₂.result 1 = some (decisionToAuthorization .allow)
        from hallowed)
  exact ⟨_, c₂, hrun, hallowed, j, claims', now₀, posted, htoken, hown, hdecides, hbudget⟩

end Revocation

end LoadBalance
