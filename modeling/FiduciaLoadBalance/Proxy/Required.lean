import FiduciaLoadBalance.Proxy.Mediation
import FiduciaLoadBalance.Proxy.Protocol

/-!
# The policy that asks for an idempotency key

A credential may be set to `require_idempotency`: it makes no write without a key, and
none that is not claimed first.  The policy is enforced for four methods, and not on
paths that begin with the text `/v1/idempotency`; the authorizer takes every method but
three for a write, and looks at whole segments.

* `steps_routeWithoutCustomerIdempotency` — a request that takes no part in the protocol
  is sent to the first node it finds.
* `attempt_of_keyed` — a request with a key is sent only once its claim was granted.
* `ungapped_iff` — when the policy has no gap for a request.
-/

namespace LoadBalance

open Http Text Conc

namespace Proxy

/-- The policy holds of a request: without a key it makes no upstream attempt, and it
reaches a node only after a claim for it was granted. -/
def Ungapped (env : Env) (shardCount : ℕ) (request : Request) : Prop :=
  ∀ tr q, (route env shardCount request).Steps tr q →
    (request.headers.get idempotencyKeyHeader = none → attemptsOf env tr = []) ∧
    ∀ pre nodeUrl post, ∀ reply : Reply,
      tr = pre ++ ⟨.forwardOnce (request.attempt nodeUrl), reply⟩ :: post →
        ∃ idempotency fencingToken,
          CustomerIdempotency.fromRequest env request.identity request.method request.uri
            request.headers request.body = .ok (some idempotency) ∧
          Granted env request idempotency fencingToken (attemptsOf env pre)

section

variable {env : Env} {shardCount : ℕ} {request : Request}

/-! ## Requests that take no part -/

theorem steps_forwardWithRedirect (env : Env) (request : ForwardRequest) (reply : Reply) :
    ∃ q, (forwardWithRedirect env request).Steps
      [⟨.recordRegionRequest request.target, ()⟩,
        ⟨.forwardOnce (request.attempt request.target), reply⟩] q :=
  ⟨_, .call (.call (.refl _))⟩

/-- **A request is sent to the first node it finds.** -/
theorem steps_routeWithoutCustomerIdempotency (env : Env) (shardCount : ℕ) (request : Request)
    (nodeUrl : String) (reply : Reply) :
    ∃ pre q, (routeWithoutCustomerIdempotency env shardCount request).Steps
      (pre ++ [⟨.forwardOnce (request.attempt nodeUrl), reply⟩]) q ∧
      attemptsOf env pre = [] := by
  obtain ⟨q, hq⟩ := steps_forwardWithRedirect env (request.forward env shardCount nodeUrl) reply
  have hfound : ∀ e, ∀ answer : Call.Answer e, e.IsTable →
      attemptsOf env [⟨e, answer⟩, ⟨.recordRegionRequest nodeUrl, ()⟩] = [] := by
    intro e answer he
    have happend := attemptsOf_append env [⟨e, answer⟩] [⟨.recordRegionRequest nodeUrl, ()⟩]
    have hrecord : (Call.recordRegionRequest nodeUrl).IsTable := trivial
    rw [attemptsOf_table env he, attemptsOf_table env hrecord] at happend
    exact happend
  unfold routeWithoutCustomerIdempotency firstTarget
  cases hshard : request.shard env shardCount with
  | some shard =>
    refine ⟨[⟨.leaderFor shard, some nodeUrl⟩, ⟨.recordRegionRequest nodeUrl, ()⟩], q, ?_,
      hfound _ _ trivial⟩
    exact .call hq
  | none =>
    refine ⟨[⟨.anyNodeExcluding [], some nodeUrl⟩, ⟨.recordRegionRequest nodeUrl, ()⟩], q, ?_,
      hfound _ _ trivial⟩
    exact .call hq

/-- What the protocol is not for takes no part in it, whatever headers it has. -/
theorem fromRequest_of_no_part
    (h : ¬(methodSupportsCustomerIdempotency request.method = true ∧
      isIdempotencyPrimitive request.uri = false)) :
    CustomerIdempotency.fromRequest env request.identity request.method request.uri
      request.headers request.body = .ok none := by
  rw [CustomerIdempotency.fromRequest, if_pos]
  rw [Bool.or_eq_true, Bool.not_eq_true', ← Bool.not_eq_false]
  by_contra hnot
  rw [not_or, Bool.not_eq_false, not_not] at hnot
  exact h hnot

theorem fromRequest_of_no_key (h : request.headers.get idempotencyKeyHeader = none) :
    CustomerIdempotency.fromRequest env request.identity request.method request.uri
      request.headers request.body = .ok none := by
  rw [CustomerIdempotency.fromRequest, h]
  split <;> rfl

theorem route_of_permitted (h : Permitted request) :
    pathHasDotSegment request.uri.path = false ∧
      authorizeRoute request.identity request.method request.uri = none := by
  refine ⟨?_, (authorizeRoute_ok_iff _ _ _).2 h.2⟩
  rw [← Bool.not_eq_true]
  intro hdot
  exact h.1 ((pathHasDotSegment_iff _).1 hdot)

/-- A permitted request that takes no part is sent as it is. -/
theorem route_of_no_part (hpermitted : Permitted request)
    (h : ¬(methodSupportsCustomerIdempotency request.method = true ∧
      isIdempotencyPrimitive request.uri = false)) :
    route env shardCount request = routeWithoutCustomerIdempotency env shardCount request := by
  obtain ⟨hdot, hauthorized⟩ := route_of_permitted hpermitted
  have hpolicy : (request.identity.any (·.requireIdempotency) &&
      methodSupportsCustomerIdempotency request.method &&
      !isIdempotencyPrimitive request.uri) = false := by
    rw [← Bool.not_eq_true, Bool.and_eq_true, Bool.and_eq_true, Bool.not_eq_true']
    rintro ⟨⟨-, hmethod⟩, hprimitive⟩
    exact h ⟨hmethod, hprimitive⟩
  rw [route, hdot, hauthorized, fromRequest_of_no_part h]
  dsimp only
  rw [hpolicy, if_neg (by simp), if_neg (by simp)]

/-! ## Requests that take part -/

/-- **A request with a key is sent only once its claim was granted.** -/
theorem attempt_of_keyed {idempotency : CustomerIdempotency}
    (hidem : CustomerIdempotency.fromRequest env request.identity request.method request.uri
      request.headers request.body = .ok (some idempotency))
    {tr pre post : History} {q : Task Response} {nodeUrl : String} {reply : Reply}
    (hrun : (route env shardCount request).Steps tr q)
    (htr : tr = pre ++ ⟨.forwardOnce (request.attempt nodeUrl), reply⟩ :: post) :
    ∃ fencingToken, Granted env request idempotency fencingToken (attemptsOf env pre) := by
  have hrelied : (protocol env request idempotency False).Relied [] tr := by
    rw [Contract.Relied, Contract.along_iff]
    rintro pre ⟨e, r⟩ post -
    cases e with
    | forwardOnce a => exact fun hwatched => hwatched.elim
    | _ => trivial
  have hstep := Proc.wp_guarantee (wp_route_protocol hidem) hrun hrelied htr _ rfl
  have hprimitive := (mutates_of_fromRequest hidem).2
  have hne : ∀ uri, isIdempotencyPrimitive uri = true → request.uri ≠ uri := by
    rintro uri huri rfl
    rw [hprimitive] at huri
    exact absurd huri (by simp)
  cases hstep with
  | claim ha => exact absurd (congrArg Attempt.uri ha) (hne _ claimUri_primitive)
  | forward _ hgranted _ _ => exact ⟨_, hgranted⟩
  | complete ha _ => exact absurd (congrArg Attempt.uri ha) (hne _ completeUri_primitive)
  | abandon ha _ _ => exact absurd (congrArg Attempt.uri ha) (hne _ abandonUri_primitive)

/-- A request the policy is for and that names no key is answered without a call. -/
theorem route_of_no_key (hrequire : request.identity.any (·.requireIdempotency) = true)
    (hpart : methodSupportsCustomerIdempotency request.method = true ∧
      isIdempotencyPrimitive request.uri = false)
    (hnone : CustomerIdempotency.fromRequest env request.identity request.method request.uri
      request.headers request.body = .ok none) :
    ∃ response, route env shardCount request = .done response := by
  rw [route]
  split
  · exact ⟨_, rfl⟩
  split
  · exact ⟨_, rfl⟩
  rw [hnone]
  dsimp only
  rw [hrequire, hpart.1, hpart.2, if_pos (by simp)]
  exact ⟨_, rfl⟩

theorem ungapped_of_done {response : Response}
    (h : route env shardCount request = .done response) : Ungapped env shardCount request := by
  intro tr q hrun
  rw [h, Proc.steps_done_iff] at hrun
  obtain ⟨rfl, -⟩ := hrun
  refine ⟨fun _ => rfl, ?_⟩
  intro pre nodeUrl post reply htr
  exact absurd htr (by simp)

theorem ungapped_of_part (hrequire : request.identity.any (·.requireIdempotency) = true)
    (hpart : methodSupportsCustomerIdempotency request.method = true ∧
      isIdempotencyPrimitive request.uri = false) : Ungapped env shardCount request := by
  cases hidem : CustomerIdempotency.fromRequest env request.identity request.method request.uri
      request.headers request.body with
  | error response =>
    obtain ⟨answer, hroute⟩ : ∃ answer, route env shardCount request = .done answer := by
      rw [route]
      split
      · exact ⟨_, rfl⟩
      split
      · exact ⟨_, rfl⟩
      rw [hidem]
      exact ⟨_, rfl⟩
    exact ungapped_of_done hroute
  | ok named =>
    cases named with
    | none =>
      obtain ⟨answer, hroute⟩ : ∃ answer, route env shardCount request = .done answer :=
        route_of_no_key hrequire hpart hidem
      exact ungapped_of_done hroute
    | some idempotency =>
      intro tr q hrun
      refine ⟨?_, ?_⟩
      · intro hnone
        rw [fromRequest_of_no_key hnone] at hidem
        exact absurd hidem (by simp)
      · intro pre nodeUrl post reply htr
        obtain ⟨fencingToken, hgranted⟩ := attempt_of_keyed hidem hrun htr
        exact ⟨idempotency, fencingToken, hidem, hgranted⟩

/-- **When the policy has no gap for a request**: it is turned down by the checks on its
path and its scopes, or its method is one of the four that the protocol is for and its
path does not begin with the text of the protocol's own routes. -/
theorem ungapped_iff (hrequire : request.identity.any (·.requireIdempotency) = true) :
    Ungapped env shardCount request ↔
      (Permitted request → methodSupportsCustomerIdempotency request.method = true ∧
        isIdempotencyPrimitive request.uri = false) := by
  constructor
  · intro h hpermitted
    by_contra hpart
    obtain ⟨pre, q, hsteps, -⟩ :=
      steps_routeWithoutCustomerIdempotency env shardCount request "" .connectError
    rw [← route_of_no_part hpermitted hpart] at hsteps
    obtain ⟨idempotency, -, hidem, -⟩ := (h _ q hsteps).2 pre "" [] _ rfl
    rw [fromRequest_of_no_part hpart] at hidem
    exact absurd hidem (by simp)
  · intro h
    by_cases hpermitted : Permitted request
    · exact ungapped_of_part hrequire (h hpermitted)
    · intro tr q hrun
      have hnone : attemptsOf env tr = [] := by
        by_contra hne
        exact hpermitted ((route_mediates env shardCount request hrun).1 hne)
      refine ⟨fun _ => hnone, ?_⟩
      rintro pre nodeUrl post reply rfl
      rw [← List.singleton_append, attemptsOf_append, attemptsOf_append, attemptsOf_attempt]
        at hnone
      exact absurd hnone (by simp)

end

namespace Sample

/-- A credential that has to name a key. -/
def strict : VerifiedIdentity := { identity with requireIdempotency := true }

/-- A request of this credential that names none. -/
def keyless (method : Method) (uri : Uri) : Request :=
  { identity := some strict, method, uri, headers := .empty, body := [] }

/-- A method that is no read, and none of the four. -/
def purge : Method := ⟨"PURGE", by decide⟩

end Sample

/-- A PUT without a key, by a credential that has to name one. -/
theorem ungapped_put : Ungapped Reference.env 1 (Sample.keyless .put Sample.uri) :=
  (ungapped_iff rfl).2 fun _ => ⟨by decide, by decide +kernel⟩

/-- A request without a key that is forwarded. -/
theorem not_ungapped_of_attempt {env : Env} {shardCount : ℕ} {request : Request} {tr : History}
    {q : Task Response} (hkey : request.headers.get idempotencyKeyHeader = none)
    (hrun : (route env shardCount request).Steps tr q) (hsent : attemptsOf env tr ≠ []) :
    ¬Ungapped env shardCount request := by
  intro h
  exact hsent ((h tr q hrun).1 hkey)

/-- **Two gaps**: a write of another method, and a write to a path that only begins like
the routes of the protocol, are forwarded without a key. -/
theorem not_ungapped :
    (isReadMethod Sample.purge = false ∧
      ¬["v1", "idempotency"] <+: segments Sample.uri.path ∧
      ¬Ungapped Reference.env 1 (Sample.keyless Sample.purge Sample.uri)) ∧
    (isReadMethod .put = false ∧
      ¬["v1", "idempotency"] <+: segments Sample.lookalike.path ∧
      ¬Ungapped Reference.env 1 (Sample.keyless .put Sample.lookalike)) := by
  refine ⟨⟨by decide, by decide +kernel, ?_⟩, by decide, by decide +kernel, ?_⟩
  · refine not_ungapped_of_attempt rfl (Proc.steps_runWith Sample.oracle _ []) ?_
    decide +kernel
  · refine not_ungapped_of_attempt rfl (Proc.steps_runWith Sample.oracle _ []) ?_
    decide +kernel

end Proxy

end LoadBalance
