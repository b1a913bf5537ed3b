import FiduciaLoadBalance.Auth.Standing
import FiduciaLoadBalance.Concurrency.Pool
import FiduciaLoadBalance.Proxy.Mediation
import FiduciaLoadBalance.Revocation.Authority
import FiduciaLoadBalance.Server.Operator
import FiduciaLoadBalance.Text.Number

/-!
# The whole server

The balancer as it is deployed: requests come in at its listeners, each is authenticated,
the authentication asks the revocation gate, and what is let in is routed over the table, or
answered to an operator.  Three machines work side by side, each with any number of calls at
once, and a handler takes a request from one to the next.

* `dispatch` — who answers a request;
* `AppState`, `Step` — the server, and all it can do;
* `Inv` — which call of which machine works for which request;
* `attempts_vetted` — so whatever reaches a node was sent for one request, which was let in
  for a reason of its own, and is permitted;
* `answers_accounted` — and nobody is shown the table but a caller who may see it.
-/

namespace LoadBalance

open Http Text Conc Machine

namespace Server

/-! ## Who answers -/

/-- A request as it comes in, and whether it comes over TLS. -/
structure Incoming where
  tls : Bool
  method : Method
  uri : Uri
  headers : HeaderMap
  body : Bytes

/-- The handlers. -/
inductive Endpoint : Type
  | healthz
  | readyz
  | routesDump
  | resolve
  | proxyFallback
  | plaintextUpgradeRequired
  | methodNotAllowed
  | payloadTooLarge
deriving DecidableEq

def maxBodyBytes : ℕ := 1024 * 1024

/-- A route that is there to be read. -/
def get (endpoint : Endpoint) (method : Method) : Endpoint :=
  if method = .get ∨ method = .head then endpoint else .methodNotAllowed

/-- How long the body is, as the client says. -/
def contentLength (headers : HeaderMap) : Option ℕ :=
  ((headers.get "content-length").bind HeaderValue.toStr).bind (parseUint 64)

def buildApp (incoming : Incoming) : Endpoint :=
  -- a body that is said to be too large is refused on every route, any other as it is read
  if (contentLength incoming.headers).any (maxBodyBytes < ·) then .payloadTooLarge
  else if incoming.uri.path = "/healthz" then get .healthz incoming.method
  else if incoming.uri.path = "/readyz" then get .readyz incoming.method
  else if incoming.uri.path = "/_lb/routes" then get .routesDump incoming.method
  else if incoming.uri.path = "/_lb/resolve" then get .resolve incoming.method
  else if ((contentLength incoming.headers).getD maxBodyBytes).min maxBodyBytes <
      incoming.body.length then .payloadTooLarge
  else .proxyFallback

/-- What is served without TLS where there is TLS. -/
def buildPlaintextGuardApp (incoming : Incoming) : Endpoint :=
  if incoming.uri.path = "/healthz" then get .healthz incoming.method
  else if incoming.uri.path = "/readyz" then get .readyz incoming.method
  else .plaintextUpgradeRequired

/-- The handler of a request; `tls` says whether TLS is enabled. -/
def dispatch (tls : Bool) (incoming : Incoming) : Endpoint :=
  if tls && !incoming.tls then buildPlaintextGuardApp incoming else buildApp incoming

/-- Does this handler ask who the caller is? -/
def Endpoint.Authenticates (endpoint : Endpoint) : Prop :=
  endpoint = .routesDump ∨ endpoint = .resolve ∨ endpoint = .proxyFallback

theorem get_ne_of_ne {endpoint other : Endpoint} (hne : endpoint ≠ other)
    (hother : other ≠ .methodNotAllowed) (method : Method) : get endpoint method ≠ other := by
  unfold get
  split
  · exact hne
  · exact hother.symm

/-- Where TLS is enabled, nothing that comes without it gets beyond the probes. -/
theorem tls_of_authenticates {tls : Bool} {incoming : Incoming}
    (h : (dispatch tls incoming).Authenticates) (htls : tls = true) : incoming.tls = true := by
  by_contra hplain
  have hguard : dispatch tls incoming = buildPlaintextGuardApp incoming := by
    simp [dispatch, htls, hplain]
  rw [hguard] at h
  unfold buildPlaintextGuardApp Endpoint.Authenticates at h
  split at h
  · rcases h with h | h | h
    · exact get_ne_of_ne (by decide) (by decide) _ h
    · exact get_ne_of_ne (by decide) (by decide) _ h
    · exact get_ne_of_ne (by decide) (by decide) _ h
  · split at h
    · rcases h with h | h | h
      · exact get_ne_of_ne (by decide) (by decide) _ h
      · exact get_ne_of_ne (by decide) (by decide) _ h
      · exact get_ne_of_ne (by decide) (by decide) _ h
    · exact absurd h (by decide)

/-- What is routed has no more than the largest body. -/
theorem body_of_proxyFallback {tls : Bool} {incoming : Incoming}
    (h : dispatch tls incoming = .proxyFallback) : incoming.body.length ≤ maxBodyBytes := by
  unfold dispatch at h
  split at h
  · have hauthenticates : (dispatch true { incoming with tls := false }).Authenticates :=
      Or.inr (Or.inr h)
    exact absurd (tls_of_authenticates hauthenticates rfl) (by simp)
  · unfold buildApp at h
    split at h
    · exact absurd h (by decide)
    split at h
    · exact absurd h (get_ne_of_ne (by decide) (by decide) _)
    split at h
    · exact absurd h (get_ne_of_ne (by decide) (by decide) _)
    split at h
    · exact absurd h (get_ne_of_ne (by decide) (by decide) _)
    split at h
    · exact absurd h (get_ne_of_ne (by decide) (by decide) _)
    split at h
    · exact absurd h (by decide)
    · rename_i hfits
      exact (Nat.not_lt.1 hfits).trans (Nat.min_le_right _ _)

/-! ## The server -/

/-- The request that a handler routes. -/
def Incoming.request (incoming : Incoming) (identity : Option VerifiedIdentity) : Proxy.Request where
  identity := identity
  method := incoming.method
  uri := incoming.uri
  headers := incoming.headers
  body := incoming.body

/-- What a balancer is deployed with. -/
structure Deployment (N : Type) where
  env : Env
  tokens : Auth.Tokens
  config : Auth.AuthConfig
  jwksTtl : ℕ
  authority : Revocation.HttpRevocationAuthority
  freshnessBudgetSecs : ℕ
  capacity : ℕ
  shardCount : ℕ
  seeds : List String
  upstreams : Proxy.Upstreams N
  nodes : N
  tls : Bool

/-- What the authentications share at startup. -/
abbrev noCaches : Auth.Caches := ⟨⟨∅, 0⟩, none⟩

namespace Deployment

variable {N : Type} (D : Deployment N)

/-- The authentications of all requests. -/
abbrev authService : Machine Auth.Call Auth.Call.Answer (Except Response (Option VerifiedIdentity))
    Auth.Caches :=
  Auth.authService D.env D.tokens D.config D.jwksTtl

/-- The revocation gate; its calls are given any second. -/
abbrev httpGate : Machine Revocation.Call Revocation.Call.Answer Revocation.Authorization
    Revocation.Gate :=
  Revocation.httpGate D.env D.authority False

/-- The request tasks. -/
abbrev balancer : Machine Proxy.Call Proxy.Call.Answer Response (Proxy.World N) :=
  Proxy.balancer D.env D.shardCount D.upstreams fun _ => True

abbrev revocations : Revocation.Gate := .new D.freshnessBudgetSecs D.capacity 0

abbrev world : Proxy.World N := .new D.env D.shardCount D.seeds D.nodes

/-- The authentication of a request. -/
def requestIdentity (headers : HeaderMap) :
    Auth.Task (Except Response (Option VerifiedIdentity)) :=
  Auth.requestIdentityWithSecret D.env D.tokens D.config headers D.env.internalSecret

theorem start_requestIdentity (headers : HeaderMap) (s : Auth.Caches) :
    D.authService.start s (D.requestIdentity headers) :=
  ⟨headers, D.env.internalSecret, rfl⟩

theorem start_authorize (claims : Revocation.Claims) (now : ℕ) (s : Revocation.Gate) :
    D.httpGate.start s (Revocation.authorize D.env claims now) :=
  ⟨claims, now, fun h => h.elim, rfl⟩

theorem start_route (request : Proxy.Request) (w : Proxy.World N) :
    D.balancer.start w (Proxy.route D.env D.shardCount request) :=
  ⟨request, trivial, rfl⟩

end Deployment

/-- A question to the revocation gate: the call it became there, and what was asked. -/
structure Asked where
  call : ℕ
  claims : Revocation.Claims
  now : ℕ

/-- The server.  A handler has the identifier of its authentication. -/
structure AppState {N : Type} (D : Deployment N) where
  auth : D.authService.Pool noCaches
  gate : D.httpGate.Pool D.revocations
  proxy : D.balancer.Pool D.world
  incoming : ℕ → Option Incoming
  asked : ℕ → Option Asked
  forwarded : ℕ → Option ℕ
  answered : ℕ → Option Response

namespace AppState

variable {N : Type} {D : Deployment N}

/-- The server at startup. -/
def new (D : Deployment N) : AppState D where
  auth := .new D.authService noCaches
  gate := .new D.httpGate D.revocations
  proxy := .new D.balancer D.world
  incoming _ := none
  asked _ := none
  forwarded _ := none
  answered _ := none

/-- The routing table now. -/
def table (s : AppState D) : RouteTable := s.proxy.config.shared.table

end AppState

/-- No process is started by this. -/
def Inner {E : Type} {R : E → Type} {α : Type} : Label E R α → Prop
  | .start _ _ => False
  | _ => True

/-- Nor does it answer for the revocation gate. -/
def Outer : Label Auth.Call Auth.Call.Answer (Except Response (Option VerifiedIdentity)) → Prop
  | .answer _ ⟨.authorizeRevocation _ _, _⟩ => False
  | _ => True

section

variable {N : Type} {D : Deployment N}

/-- **What the server can do**, one step at a time: take in a request, take one of its machines
a step further, or hand a request from one to the next. -/
inductive Step (D : Deployment N) : AppState D → AppState D → Prop
  /-- A request comes in whose handler asks who the caller is. -/
  | accept {s : AppState D} (incoming : Incoming)
      (hendpoint : (dispatch D.tls incoming).Authenticates) :
      Step D s { s with
        auth := s.auth.start (D.start_requestIdentity incoming.headers _)
        incoming := Function.update s.incoming s.auth.config.next (some incoming) }
  | auth {s : AppState D} {m : Auth.CachesMoment} {c} (hstep : D.authService.Step s.auth.config m c)
      (hspares : s.auth.config.Spares m.label) (hinner : Inner m.label) (houter : Outer m.label) :
      Step D s { s with auth := s.auth.extend hstep }
  /-- An authentication asks the revocation gate. -/
  | ask {s : AppState D} {i : ℕ} {claims : Revocation.Claims} {now : ℕ}
      (hwaits : s.auth.config.waiting i = some (.authorizeRevocation claims now))
      (hfirst : s.asked i = none) :
      Step D s { s with
        gate := s.gate.start (D.start_authorize claims now _)
        asked := Function.update s.asked i (some ⟨s.gate.config.next, claims, now⟩) }
  | gate {s : AppState D} {m : Revocation.GateMoment} {c}
      (hstep : D.httpGate.Step s.gate.config m c) (hspares : s.gate.config.Spares m.label)
      (hinner : Inner m.label) : Step D s { s with gate := s.gate.extend hstep }
  /-- And is told what comes of it. -/
  | told {s : AppState D} {i : ℕ} {asked : Asked} {authorization : Revocation.Authorization}
      {b a : Auth.Caches} {c} (hasked : s.asked i = some asked)
      (hresult : s.gate.config.result asked.call = some authorization)
      (hstep : D.authService.Step s.auth.config
        ⟨.answer i ⟨.authorizeRevocation asked.claims asked.now, authorization⟩, b, a⟩ c) :
      Step D s { s with
        auth := s.auth.extend hstep
        asked := Function.update s.asked i none }
  /-- The catch-all routes a request that was let in. -/
  | forward {s : AppState D} {i : ℕ} {incoming : Incoming} {identity : Option VerifiedIdentity}
      (hincoming : s.incoming i = some incoming)
      (hendpoint : dispatch D.tls incoming = .proxyFallback)
      (hresult : s.auth.config.result i = some (.ok identity)) (hfirst : s.forwarded i = none) :
      Step D s { s with
        proxy := s.proxy.start (D.start_route (incoming.request identity) _)
        forwarded := Function.update s.forwarded i (some s.proxy.config.next) }
  | proxy {s : AppState D} {m : Proxy.WorldMoment N} {c} (hstep : D.balancer.Step s.proxy.config m c)
      (hspares : s.proxy.config.Spares m.label) (hinner : Inner m.label) :
      Step D s { s with proxy := s.proxy.extend hstep }
  /-- A request that was not let in is answered why. -/
  | refuse {s : AppState D} {i : ℕ} {response : Response}
      (hresult : s.auth.config.result i = some (.error response)) (hopen : s.answered i = none) :
      Step D s { s with answered := Function.update s.answered i (some response) }
  /-- An operator asks for the table. -/
  | dump {s : AppState D} {i : ℕ} {incoming : Incoming} {identity : Option VerifiedIdentity}
      (hincoming : s.incoming i = some incoming)
      (hendpoint : dispatch D.tls incoming = .routesDump)
      (hresult : s.auth.config.result i = some (.ok identity)) (hopen : s.answered i = none) :
      Step D s { s with
        answered := Function.update s.answered i (some (routesDump D.env identity s.table)) }
  /-- A routed request is answered what its task came to. -/
  | reply {s : AppState D} {i j : ℕ} {response : Response} (hforwarded : s.forwarded i = some j)
      (hresult : s.proxy.config.result j = some response) (hopen : s.answered i = none) :
      Step D s { s with answered := Function.update s.answered i (some response) }

/-- The states that the server can come to. -/
def Reachable (D : Deployment N) : AppState D → Prop := Relation.ReflTransGen (Step D) (.new D)

/-! ## Which call works for which request -/

/-- Later on, nothing that was settled has changed. -/
structure Later (s s' : AppState D) : Prop where
  auth : s.auth.Later s'.auth
  gate : s.gate.Later s'.gate
  proxy : s.proxy.Later s'.proxy
  incoming : ∀ {i incoming}, s.incoming i = some incoming → s'.incoming i = some incoming
  forwarded : ∀ {i j}, s.forwarded i = some j → s'.forwarded i = some j

theorem update_of_none {β : Type} {f : ℕ → Option β} {i : ℕ} {b : Option β} (hnone : f i = none)
    {k : ℕ} {v : β} (h : f k = some v) : Function.update f i b k = some v := by
  have hne : k ≠ i := by
    rintro rfl
    rw [hnone] at h
    exact absurd h (by simp)
  rw [Function.update_of_ne hne, h]

theorem update_cases {β : Type} {f : ℕ → Option β} {i k : ℕ} {b v : β}
    (h : Function.update f i (some b) k = some v) : (k = i ∧ v = b) ∨ (k ≠ i ∧ f k = some v) := by
  by_cases hki : k = i
  · rw [hki, Function.update_self] at h
    exact Or.inl ⟨hki, (Option.some.inj h).symm⟩
  · rw [Function.update_of_ne hki] at h
    exact Or.inr ⟨hki, h⟩

theorem of_update_none {β : Type} {f : ℕ → Option β} {i k : ℕ} {v : β}
    (h : Function.update f i none k = some v) : f k = some v := by
  by_cases hki : k = i
  · rw [hki, Function.update_self] at h
    exact absurd h (by simp)
  · rwa [Function.update_of_ne hki] at h

/-- Where a request came in there is its authentication, and what a question became there, and
so on: each call of each machine works for one request. -/
structure Inv (s : AppState D) : Prop where
  /-- A request that came in is being authenticated. -/
  request : ∀ {i incoming}, s.incoming i = some incoming →
    (dispatch D.tls incoming).Authenticates ∧
      Started s.auth.history i (D.requestIdentity incoming.headers)
  asked : ∀ {i asked}, s.asked i = some asked →
    Started s.gate.history asked.call (Revocation.authorize D.env asked.claims asked.now)
  /-- What an authentication was told, the revocation gate came to. -/
  told : ∀ {i claims} {now : ℕ} {authorization},
    ⟨.authorizeRevocation claims now, authorization⟩ ∈ own i s.auth.history →
      ∃ g, Started s.gate.history g (Revocation.authorize D.env claims now) ∧
        s.gate.config.result g = some authorization
  /-- What is routed was let in. -/
  forwarded : ∀ {i j}, s.forwarded i = some j → ∃ incoming identity,
    s.incoming i = some incoming ∧ dispatch D.tls incoming = .proxyFallback ∧
      s.auth.config.result i = some (.ok identity) ∧
      Started s.proxy.history j
        (Proxy.route D.env D.shardCount (incoming.request identity))
  /-- Every task routes a request. -/
  task : ∀ {j p}, Started s.proxy.history j p → ∃ i, s.forwarded i = some j
  once : ∀ {i i' j}, s.forwarded i = some j → s.forwarded i' = some j → i = i'

theorem Inv.new (D : Deployment N) : Inv (.new D) where
  request h := absurd h (by simp [AppState.new])
  asked h := absurd h (by simp [AppState.new])
  told h := absurd h (by simp [AppState.new, Pool.new])
  forwarded h := absurd h (by simp [AppState.new])
  task h := absurd h (by simp [AppState.new, Pool.new, Started])
  once h := absurd h (by simp [AppState.new])

variable {s s' : AppState D}

theorem Step.later (hinv : Inv s) (h : Step D s s') : Later s s' := by
  cases h with
  | accept incoming hendpoint =>
    refine ⟨Pool.later_start (D.start_requestIdentity incoming.headers _), .refl _,
      .refl _, update_of_none ?_, id⟩
    refine Option.eq_none_iff_forall_ne_some.2 ?_
    intro incoming' hincoming
    exact s.auth.not_started_next (hinv.request hincoming).2
  | auth hstep hspares _ _ => exact ⟨Pool.later_extend hstep hspares, .refl _, .refl _, id, id⟩
  | ask hwaits hfirst => exact ⟨.refl _, Pool.later_start (D.start_authorize _ _ _), .refl _, id, id⟩
  | gate hstep hspares _ => exact ⟨.refl _, Pool.later_extend hstep hspares, .refl _, id, id⟩
  | told hasked hresult hstep => exact ⟨Pool.later_extend hstep trivial, .refl _, .refl _, id, id⟩
  | forward hincoming hendpoint hresult hfirst =>
    exact ⟨.refl _, .refl _, Pool.later_start (D.start_route _ _), id, update_of_none hfirst⟩
  | proxy hstep hspares _ => exact ⟨.refl _, .refl _, Pool.later_extend hstep hspares, id, id⟩
  | refuse _ _ => exact ⟨.refl _, .refl _, .refl _, id, id⟩
  | dump _ _ _ _ => exact ⟨.refl _, .refl _, .refl _, id, id⟩
  | reply _ _ _ => exact ⟨.refl _, .refl _, .refl _, id, id⟩

/-- **Each step keeps who works for whom.** -/
theorem Inv.step (hinv : Inv s) (h : Step D s s') : Inv s' := by
  have hlater := h.later hinv
  have hrequest {i : ℕ} {incoming : Incoming} (hi : s.incoming i = some incoming) :
      (dispatch D.tls incoming).Authenticates ∧
        Started s'.auth.history i (D.requestIdentity incoming.headers) :=
    ⟨(hinv.request hi).1, hlater.auth.started (hinv.request hi).2⟩
  have hasked {i : ℕ} {asked : Asked} (hi : s.asked i = some asked) :
      Started s'.gate.history asked.call
        (Revocation.authorize D.env asked.claims asked.now) :=
    hlater.gate.started (hinv.asked hi)
  have htold {i : ℕ} {claims : Revocation.Claims} {now : ℕ}
      {authorization : Revocation.Authorization}
      (hev : ⟨.authorizeRevocation claims now, authorization⟩ ∈ own i s.auth.history) :
      ∃ g, Started s'.gate.history g (Revocation.authorize D.env claims now) ∧
        s'.gate.config.result g = some authorization := by
    obtain ⟨g, hst, hresult⟩ := hinv.told hev
    exact ⟨g, hlater.gate.started hst, hlater.gate.result hresult⟩
  have hforwarded {i j : ℕ} (hij : s.forwarded i = some j) : ∃ incoming identity,
      s'.incoming i = some incoming ∧ dispatch D.tls incoming = .proxyFallback ∧
        s'.auth.config.result i = some (.ok identity) ∧ Started s'.proxy.history j
          (Proxy.route D.env D.shardCount (incoming.request identity)) := by
    obtain ⟨incoming, identity, hincoming, hendpoint, hresult, hst⟩ := hinv.forwarded hij
    exact ⟨incoming, identity, hlater.incoming hincoming, hendpoint, hlater.auth.result hresult,
      hlater.proxy.started hst⟩
  have htask {j : ℕ} {p} (hst : Started s.proxy.history j p) : ∃ i, s'.forwarded i = some j := by
    obtain ⟨i, hij⟩ := hinv.task hst
    exact ⟨i, hlater.forwarded hij⟩
  cases h with
  | @accept incoming hendpoint =>
    refine ⟨?_, hasked, ?_, hforwarded, htask, hinv.once⟩
    · intro i incoming' hi
      rcases update_cases hi with ⟨rfl, rfl⟩ | ⟨-, hold⟩
      · exact ⟨hendpoint, Pool.started_start (D.start_requestIdentity _ _)⟩
      · exact hrequest hold
    · intro i claims now authorization hev
      rw [Pool.own_start (D.start_requestIdentity incoming.headers _)] at hev
      exact htold hev
  | @auth m c hstep _ _ houter =>
    refine ⟨hrequest, hasked, ?_, hforwarded, htask, hinv.once⟩
    intro i claims now authorization hev
    refine htold ((Pool.mem_own_extend hstep hev).resolve_right ?_)
    intro hlabel
    rw [hlabel] at houter
    exact houter
  | @ask i claims now _ _ =>
    refine ⟨hrequest, ?_, htold, hforwarded, htask, hinv.once⟩
    intro k asked hk
    rcases update_cases hk with ⟨rfl, rfl⟩ | ⟨-, hold⟩
    · exact Pool.started_start (D.start_authorize _ _ _)
    · exact hasked hold
  | gate _ _ _ => exact ⟨hrequest, hasked, htold, hforwarded, htask, hinv.once⟩
  | @told i asked authorization b a c hi hresult hstep =>
    refine ⟨hrequest, ?_, ?_, hforwarded, htask, hinv.once⟩
    · intro k asked' hk
      exact hasked (of_update_none hk)
    intro k claims now authorization' hev
    rcases Pool.mem_own_extend hstep hev with hold | hnew
    · exact htold hold
    · obtain ⟨rfl, heq⟩ := Label.answer.inj hnew
      cases heq
      exact ⟨asked.call, hasked hi, hresult⟩
  | @forward i incoming identity hincoming hendpoint hresult hfirst =>
    have hfresh {k : ℕ} : s.forwarded k ≠ some s.proxy.config.next := by
      intro hk
      obtain ⟨incoming', identity', -, -, -, hst⟩ := hinv.forwarded hk
      exact s.proxy.not_started_next hst
    refine ⟨hrequest, hasked, htold, ?_, ?_, ?_⟩
    · intro k j hk
      rcases update_cases hk with ⟨rfl, rfl⟩ | ⟨-, hold⟩
      · exact ⟨incoming, identity, hincoming, hendpoint, hresult,
          Pool.started_start (D.start_route _ _)⟩
      · exact hforwarded hold
    · intro j p hst
      rcases Pool.started_start_cases (D.start_route (incoming.request identity) _) hst with
        hold | rfl
      · exact htask hold
      · exact ⟨i, Function.update_self ..⟩
    · intro k k' j hk hk'
      rcases update_cases hk with ⟨rfl, rfl⟩ | ⟨hki, hold⟩
      · rcases update_cases hk' with ⟨rfl, -⟩ | ⟨-, hold'⟩
        · rfl
        · exact absurd hold' hfresh
      · rcases update_cases hk' with ⟨-, rfl⟩ | ⟨-, hold'⟩
        · exact absurd hold hfresh
        · exact hinv.once hold hold'
  | @proxy m c hstep _ hinner =>
    refine ⟨hrequest, hasked, htold, hforwarded, ?_, hinv.once⟩
    intro j p hst
    refine htask ((Pool.started_extend hstep).1 hst |>.resolve_right ?_)
    intro hlabel
    rw [hlabel] at hinner
    exact hinner
  | refuse _ _ => exact ⟨hrequest, hasked, htold, hforwarded, htask, hinv.once⟩
  | dump _ _ _ _ => exact ⟨hrequest, hasked, htold, hforwarded, htask, hinv.once⟩
  | reply _ _ _ => exact ⟨hrequest, hasked, htold, hforwarded, htask, hinv.once⟩

theorem Reachable.inv (h : Reachable D s) : Inv s := by
  induction h with
  | refl => exact .new D
  | tail _ hstep ih => exact ih.step hstep

/-! ## What reaches a node -/

/-- Handler `i` let this identity in for a reason, in which every word of the revocation gate
was said on the wire. -/
structure Vetted (s : AppState D) (i : ℕ) (incoming : Incoming)
    (identity : Option VerifiedIdentity) : Prop where
  standing : Auth.Standing D.env D.tokens D.config D.jwksTtl s.auth.history i incoming.headers
    D.env.internalSecret identity
  onWire : ∀ {claims} {now : ℕ}, ⟨.authorizeRevocation claims now, .allowed⟩ ∈ own i s.auth.history →
    Revocation.OnWire D.env D.authority
      (Revocation.RevocationCache.new D.freshnessBudgetSecs D.capacity).freshnessBudgetSecs
      s.gate.history claims now .allow

/-- Task `j` made this attempt, or is making it. -/
def Attempting (s : AppState D) (j : ℕ) (a : Proxy.Attempt) : Prop :=
  (∃ reply : Proxy.Reply, ⟨.forwardOnce a, reply⟩ ∈ own j s.proxy.history) ∨
    s.proxy.config.waiting j = some (.forwardOnce a)

theorem Inv.vetted (hinv : Inv s) (hinj : D.env.CollisionFree) {i : ℕ} {incoming : Incoming}
    {identity : Option VerifiedIdentity} (hincoming : s.incoming i = some incoming)
    (hresult : s.auth.config.result i = some (.ok identity)) : Vetted s i incoming identity where
  standing :=
    Auth.standing_of_run hinj s.auth.run rfl rfl (hinv.request hincoming).2 hresult
  onWire := by
    intro claims now hev
    obtain ⟨g, hst, hallowed⟩ := hinv.told hev
    exact Revocation.onWire_of_run hinj s.gate.run hst hallowed

/-- What a task attempts, it may. -/
theorem mediated_of_attempting {request : Proxy.Request} {j : ℕ} {a : Proxy.Attempt}
    (hst : Started s.proxy.history j (Proxy.route D.env D.shardCount request))
    (ha : Attempting s j a) : Proxy.Permitted request ∧
      (Proxy.IsInternal request a ∨ a = request.attempt a.nodeUrl) := by
  have hmediated : Proxy.Permitted request ∧ ∀ a', Proxy.Call.forwardOnce a = .forwardOnce a' →
      Proxy.IsInternal request a' ∨ a' = request.attempt a'.nodeUrl := by
    rcases ha with ⟨reply, hev⟩ | hwaits
    · obtain ⟨pre, b, c, post, hsplit⟩ := exists_of_mem_own hev
      exact s.proxy.run.own_guarantee (K := Proxy.mediated request) hst Proxy.wp_route_mediated
        (fun _ _ _ _ _ _ => trivial) hsplit
    · obtain ⟨k, hlive⟩ := Config.waiting_eq_some.1 hwaits
      exact s.proxy.run.own_next (K := Proxy.mediated request) hst Proxy.wp_route_mediated
        (fun _ _ _ _ _ _ => trivial) hlive
  exact ⟨hmediated.1, hmediated.2 a rfl⟩

theorem started_of_attempting {j : ℕ} {a : Proxy.Attempt} (ha : Attempting s j a) :
    ∃ p, Started s.proxy.history j p := by
  rcases ha with ⟨reply, hev⟩ | hwaits
  · exact s.proxy.run.started_of_answer hev
  · obtain ⟨k, hlive⟩ := Config.waiting_eq_some.1 hwaits
    exact s.proxy.run.tracked.started hlive

/-- **Whatever reaches a node was sent for one request**, whatever comes in, however the
authentications, the revocation checks and the tasks interleave, and whatever the auth service,
the revocation authority, the brain and the nodes answer.  The request came in over TLS where
TLS is enabled, and is no larger than it may be; nobody else's request was given its task; it
was let in for a reason of its own; it is permitted; and what is sent is the request itself
under the identity it was let in with, or a step of the idempotency protocol under it. -/
theorem attempts_vetted (D : Deployment N) (hinj : D.env.CollisionFree) {s : AppState D}
    (hreach : Reachable D s) {j : ℕ} {a : Proxy.Attempt} (ha : Attempting s j a) :
    ∃ i incoming identity, s.forwarded i = some j ∧ (∀ i', s.forwarded i' = some j → i' = i) ∧
      s.incoming i = some incoming ∧ (D.tls = true → incoming.tls = true) ∧
      incoming.body.length ≤ maxBodyBytes ∧ Vetted s i incoming identity ∧
      Proxy.Permitted (incoming.request identity) ∧
      (Proxy.IsInternal (incoming.request identity) a ∨
        a = (incoming.request identity).attempt a.nodeUrl) := by
  have hinv := hreach.inv
  obtain ⟨p, hst⟩ := started_of_attempting ha
  obtain ⟨i, hij⟩ := hinv.task hst
  obtain ⟨incoming, identity, hincoming, hendpoint, hresult, hst⟩ := hinv.forwarded hij
  obtain ⟨hpermitted, hform⟩ := mediated_of_attempting hst ha
  have hauthenticates := (hinv.request hincoming).1
  exact ⟨i, incoming, identity, hij, fun i' hi' => hinv.once hi' hij, hincoming,
    tls_of_authenticates hauthenticates, body_of_proxyFallback hendpoint,
    hinv.vetted hinj hincoming hresult, hpermitted, hform⟩

/-! ## What is answered -/

/-- The table was this at some time. -/
def Held (s : AppState D) (t : RouteTable) : Prop :=
  t = D.world.table ∨ ∃ m ∈ s.proxy.history, t = m.after.table

/-- What an answer is. -/
inductive Account (s : AppState D) (i : ℕ) (response : Response) : Prop
  | refused (hresult : s.auth.config.result i = some (.error response))
  | shown {incoming : Incoming} {identity : Option VerifiedIdentity} {t : RouteTable}
      (hincoming : s.incoming i = some incoming)
      (hendpoint : dispatch D.tls incoming = .routesDump)
      (hresult : s.auth.config.result i = some (.ok identity)) (hheld : Held s t)
      (hresponse : response = routesDump D.env identity t)
  | routed {j : ℕ} (hforwarded : s.forwarded i = some j)
      (hresult : s.proxy.config.result j = some response)

theorem Held.later {t : RouteTable} (h : Held s t) (hlater : Later s s') : Held s' t := by
  refine h.imp_right ?_
  rintro ⟨m, hm, ht⟩
  exact ⟨m, hlater.proxy.history.subset hm, ht⟩

theorem Account.later {i : ℕ} {response : Response} (h : Account s i response)
    (hlater : Later s s') : Account s' i response := by
  cases h with
  | refused hresult => exact .refused (hlater.auth.result hresult)
  | shown hincoming hendpoint hresult hheld hresponse =>
    exact .shown (hlater.incoming hincoming) hendpoint (hlater.auth.result hresult)
      (hheld.later hlater) hresponse
  | routed hforwarded hresult =>
    exact .routed (hlater.forwarded hforwarded) (hlater.proxy.result hresult)

theorem held_table (s : AppState D) : Held s s.table := by
  unfold Held AppState.table
  rw [s.proxy.run.shared_eq]
  cases hlast : s.proxy.history.getLast? with
  | none => exact Or.inl rfl
  | some m => exact Or.inr ⟨m, List.mem_of_getLast? hlast, rfl⟩

/-- **There is an account of every answer.** -/
theorem Reachable.account (h : Reachable D s) {i : ℕ} {response : Response}
    (hanswered : s.answered i = some response) : Account s i response := by
  induction h generalizing i response with
  | refl => exact absurd hanswered (by simp [AppState.new])
  | @tail s s' hreach hstep ih =>
    have hlater := hstep.later (Reachable.inv hreach)
    have hold {i : ℕ} {response : Response} (h : s.answered i = some response) :
        Account s' i response := (ih h).later hlater
    cases hstep with
    | refuse hresult hopen =>
      rcases update_cases hanswered with ⟨rfl, rfl⟩ | ⟨-, hbefore⟩
      · exact .refused hresult
      · exact hold hbefore
    | dump hincoming hendpoint hresult hopen =>
      rcases update_cases hanswered with ⟨rfl, rfl⟩ | ⟨-, hbefore⟩
      · exact .shown hincoming hendpoint hresult (held_table s) rfl
      · exact hold hbefore
    | reply hforwarded hresult hopen =>
      rcases update_cases hanswered with ⟨rfl, rfl⟩ | ⟨-, hbefore⟩
      · exact .routed hforwarded hresult
      · exact hold hbefore
    | _ => exact hold hanswered

/-- What an operator is answered, if the caller may see the table and if not. -/
theorem routesDump_cases (env : Env) (identity : Option VerifiedIdentity) (t : RouteTable) :
    (∃ caller, identity = some caller ∧ Proxy.hasAnyScope caller Proxy.adminReadScopes = true ∧
      routesDump env identity t = jsonResponse env .ok t.snapshot) ∨
      routesDump env identity t = insufficientAdminScopeResponse env := by
  unfold routesDump
  split
  · exact Or.inr rfl
  · rename_i hadmin
    obtain ⟨caller, hcaller, hscope⟩ := (authorizeAdminRead_iff identity).1 (by simpa using hadmin)
    exact Or.inl ⟨caller, hcaller, hscope, rfl⟩

/-- **Every answer is accounted for, and what is refused goes no further.**  A request that is
answered was not let in, and then nothing was sent for it to any node; or it was routed by the
catch-all, and the answer is what came of its one task, under an identity that was let in for
a reason of its own; or an operator asked for the table, for which nothing is sent either: and
then the answer is the table as it was at some moment, for a caller who was let in with an
admin scope, or the one refusal that says nothing of the table. -/
theorem answers_accounted (D : Deployment N) (hinj : D.env.CollisionFree) {s : AppState D}
    (hreach : Reachable D s) {i : ℕ} {response : Response}
    (hanswered : s.answered i = some response) :
    (s.auth.config.result i = some (.error response) ∧ s.forwarded i = none) ∨
    (∃ incoming identity j, s.incoming i = some incoming ∧
      dispatch D.tls incoming = .proxyFallback ∧ Vetted s i incoming identity ∧
      s.forwarded i = some j ∧ s.proxy.config.result j = some response ∧
      Started s.proxy.history j (Proxy.route D.env D.shardCount (incoming.request identity))) ∨
    ∃ incoming, s.incoming i = some incoming ∧ dispatch D.tls incoming = .routesDump ∧
      s.forwarded i = none ∧
      ((∃ caller t, Vetted s i incoming (some caller) ∧
        Proxy.hasAnyScope caller Proxy.adminReadScopes = true ∧ Held s t ∧
        response = jsonResponse D.env .ok t.snapshot) ∨
        response = insufficientAdminScopeResponse D.env) := by
  have hinv := hreach.inv
  have hnot : (∀ {incoming identity j}, s.incoming i = some incoming →
      dispatch D.tls incoming = .proxyFallback → s.auth.config.result i = some (.ok identity) →
        s.forwarded i = some j → False) → s.forwarded i = none := by
    intro hno
    refine Option.eq_none_iff_forall_ne_some.2 ?_
    intro j hij
    obtain ⟨incoming, identity, hincoming, hendpoint, hresult, -⟩ := hinv.forwarded hij
    exact hno hincoming hendpoint hresult hij
  cases hreach.account hanswered with
  | refused hresult =>
    refine Or.inl ⟨hresult, hnot ?_⟩
    intro incoming identity j _ _ hok _
    rw [hresult] at hok
    exact absurd hok (by simp)
  | @routed j hij hresult =>
    obtain ⟨incoming, identity, hincoming, hendpoint, hok, hst⟩ := hinv.forwarded hij
    exact Or.inr (Or.inl ⟨incoming, identity, j, hincoming, hendpoint,
      hinv.vetted hinj hincoming hok, hij, hresult, hst⟩)
  | @shown incoming identity t hincoming hendpoint hok hheld hresponse =>
    refine Or.inr (Or.inr ⟨incoming, hincoming, hendpoint, hnot ?_, ?_⟩)
    · intro incoming' identity' j hincoming' hendpoint' _ _
      rw [hincoming] at hincoming'
      obtain rfl := Option.some.inj hincoming'
      rw [hendpoint] at hendpoint'
      exact absurd hendpoint' (by decide)
    · rcases routesDump_cases D.env identity t with ⟨caller, rfl, hscope, hdump⟩ | hrefusal
      · exact Or.inl ⟨caller, t, hinv.vetted hinj hincoming hok, hscope, hheld,
          hresponse.trans hdump⟩
      · exact Or.inr (hresponse.trans hrefusal)

/-! ## Playing the server -/

/-- The answers of a schedule can be given to the tasks of the server. -/
theorem Reachable.play (hreach : Reachable D s) (driver : Machine.Driver D.balancer)
    {answers : List (ℕ × driver.Choice)} {h : List (Proxy.WorldMoment N)}
    {c : Config Proxy.Call Proxy.Call.Answer Response (Proxy.World N)}
    (hplay : driver.play (answers.map fun p => .answer p.1 p.2) s.proxy.config = some (h, c)) :
    ∃ s', Reachable D s' ∧ s'.proxy.config = c := by
  induction answers generalizing s h with
  | nil =>
    obtain ⟨-, rfl⟩ := Prod.mk.inj (Option.some.inj hplay)
    exact ⟨s, hreach, rfl⟩
  | cons answer answers ih =>
    obtain ⟨⟨m, c₁⟩, hmove, hrest⟩ := Option.bind_eq_some_iff.1 hplay
    obtain ⟨⟨h₂, c₂⟩, hplay', hpair⟩ := Option.map_eq_some_iff.1 hrest
    obtain ⟨-, rfl⟩ := Prod.mk.inj hpair
    have hstep := driver.step_of_move hmove
    obtain ⟨ev, hlabel⟩ := driver.label_of_answer hmove
    have hspares : s.proxy.config.Spares m.label := by
      rw [hlabel]
      trivial
    have hinner : Inner m.label := by
      rw [hlabel]
      trivial
    exact ih (hreach.tail (.proxy hstep hspares hinner)) hplay'

end

namespace Site

/-- A cluster of one node, behind TLS. -/
def deployment : Deployment Proxy.Nodes where
  env := Reference.env
  tokens := Auth.Sample.tokens
  config := Auth.Sample.config
  jwksTtl := 600
  authority := Revocation.Sample.service
  freshnessBudgetSecs := 5
  capacity := 16
  shardCount := 1
  seeds := ["http://a:1"]
  upstreams := Proxy.upstreams Reference.env false
  nodes := .empty
  tls := true

/-- The tasks of the cluster, driven. -/
def driver : Machine.Driver deployment.balancer :=
  Proxy.simulation Reference.env false 1 fun _ => True

theorem valid_internal : (utf8 "internal").all isHeaderByte := by decide

theorem valid_org : (utf8 "o").all isHeaderByte := by decide

theorem valid_scopes : (utf8 "*").all isHeaderByte := by decide

/-- What an edge sends for the tenant `o`. -/
def edgeHeaders : HeaderMap :=
  ⟨[(edgeAuthHeader, ⟨utf8 "internal", valid_internal⟩), ("x-fiducia-org-id", ⟨utf8 "o", valid_org⟩),
    ("x-fiducia-scopes", ⟨utf8 "*", valid_scopes⟩)]⟩

/-- A mutation that an edge forwards. -/
def put : Incoming where
  tls := true
  method := .put
  uri := Proxy.Sample.uri
  headers := edgeHeaders
  body := []

/-- An operator who asks for the table. -/
def routes : Incoming where
  tls := true
  method := .get
  uri := ⟨none, none, "/_lb/routes", none, by decide⟩
  headers := edgeHeaders
  body := []

/-- The server, once a request has come in. -/
def accepted (incoming : Incoming) : AppState deployment :=
  let s := AppState.new deployment
  { s with
    auth := s.auth.start (deployment.start_requestIdentity incoming.headers _)
    incoming := Function.update s.incoming s.auth.config.next (some incoming) }

theorem reachable_accepted {incoming : Incoming} (h : (dispatch true incoming).Authenticates) :
    Reachable deployment (accepted incoming) :=
  Relation.ReflTransGen.single (.accept incoming h)

theorem incoming_accepted (incoming : Incoming) :
    (accepted incoming).incoming 0 = some incoming := rfl

/-- A request of the edge is let in. -/
theorem identified_accepted {incoming : Incoming} (hheaders : incoming.headers = edgeHeaders) :
    (accepted incoming).auth.config.result 0 = some (.ok (some Proxy.Sample.identity)) := by
  have hdone : deployment.requestIdentity edgeHeaders =
      .done (.ok (some Proxy.Sample.identity)) := by
    have hedge : trustedEdgeIdentity edgeHeaders (some "internal") =
        some Proxy.Sample.identity := by decide +kernel
    show Auth.requestIdentityWithSecret Reference.env Auth.Sample.tokens Auth.Sample.config
      edgeHeaders (some "internal") = _
    rw [Auth.requestIdentityWithSecret, hedge]
    rfl
  rw [Config.result_eq_some]
  show some (deployment.requestIdentity incoming.headers) = _
  rw [hheaders, hdone]

/-- The attempt that a task waits for. -/
def attempting : Option Proxy.Call → Option Proxy.Attempt
  | some (.forwardOnce a) => some a
  | _ => none

theorem eq_of_attempting {call : Option Proxy.Call} {a : Proxy.Attempt}
    (h : attempting call = some a) : call = some (.forwardOnce a) := by
  unfold attempting at h
  split at h
  · rw [Option.some.inj h]
  · exact absurd h (by simp)

end Site

/-- The mutation of the edge is on its way to the node. -/
theorem attempts_vetted_put : ∃ s : AppState Site.deployment, Reachable _ s ∧ ∃ a,
    Attempting s 0 a ∧ ∃ i incoming identity, s.forwarded i = some 0 ∧
      Vetted s i incoming identity ∧ Proxy.Permitted (incoming.request identity) := by
  have hendpoint : dispatch true Site.put = .proxyFallback := by decide +kernel
  have hreach := Site.reachable_accepted (Or.inr (Or.inr hendpoint))
  have hadmitted : Reachable Site.deployment _ := hreach.tail
    (.forward (i := 0) (Site.incoming_accepted _) hendpoint (Site.identified_accepted rfl) rfl)
  have hplays : (Site.driver.play ([(0, .table 0), (0, .table 0)].map fun p => .answer p.1 p.2)
      ⟨Site.deployment.world, Function.update (fun _ => none) 0 (some (Proxy.route Reference.env 1
        (Site.put.request (some Proxy.Sample.identity)))), 1⟩).any
          (fun q => (Site.attempting (q.2.waiting 0)).isSome) = true := by decide +kernel
  obtain ⟨⟨h, c⟩, hplay, hwaits⟩ := (Option.any_eq_true _ _).1 hplays
  obtain ⟨a, ha⟩ := Option.isSome_iff_exists.1 hwaits
  obtain ⟨s, hs, rfl⟩ := hadmitted.play Site.driver hplay
  have hattempting : Attempting s 0 a := Or.inr (Site.eq_of_attempting ha)
  obtain ⟨i, incoming, identity, hi, -, -, -, -, hvetted, hpermitted, -⟩ :=
    attempts_vetted Site.deployment Reference.collisionFree hs hattempting
  exact ⟨s, hs, a, hattempting, i, incoming, identity, hi, hvetted, hpermitted⟩

/-- An operator who was let in by the edge is shown the table. -/
theorem answers_accounted_routes : ∃ s : AppState Site.deployment, Reachable _ s ∧
    s.answered 0 = some (jsonResponse Reference.env .ok Site.deployment.world.table.snapshot) ∧
      s.forwarded 0 = none := by
  have hendpoint : dispatch true Site.routes = .routesDump := by decide +kernel
  have hreach := Site.reachable_accepted (Or.inl hendpoint)
  have hdumped : Reachable Site.deployment _ := hreach.tail
    (.dump (i := 0) (Site.incoming_accepted _) hendpoint (Site.identified_accepted rfl) rfl)
  have htable : (Site.accepted Site.routes).table = Site.deployment.world.table := rfl
  have hanswer : routesDump Site.deployment.env (some Proxy.Sample.identity)
      Site.deployment.world.table =
        jsonResponse Reference.env .ok Site.deployment.world.table.snapshot := by
    have hadmin : authorizeAdminRead (some Proxy.Sample.identity) = true := by decide +kernel
    rw [routesDump, hadmin, if_neg (by simp)]
    rfl
  obtain ⟨s, hs, hanswered, hidle⟩ : ∃ s : AppState Site.deployment, Reachable _ s ∧
      s.answered 0 = some (routesDump Site.deployment.env (some Proxy.Sample.identity)
        (Site.accepted Site.routes).table) ∧ ∀ i, s.forwarded i = none :=
    ⟨_, hdumped, rfl, fun _ => rfl⟩
  rw [htable] at hanswered
  rw [hanswer] at hanswered
  refine ⟨s, hs, hanswered, ?_⟩
  rcases answers_accounted Site.deployment Reference.collisionFree hs hanswered with
    ⟨-, hnone⟩ | ⟨incoming, identity, j, -, -, -, hforwarded, -⟩ | ⟨incoming, -, -, hnone, -⟩
  · exact hnone
  · rw [hidle] at hforwarded
    exact absurd hforwarded (by simp)
  · exact hnone

end Server

end LoadBalance
