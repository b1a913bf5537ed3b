import FiduciaLoadBalance.Proxy.Records
import FiduciaLoadBalance.Revocation.Progress
import FiduciaLoadBalance.Server.System

/-!
# No request is stuck

Whatever the server has come to, a request that has come in and was not given up can still
be answered: its authentication can go on, the calls of the revocation gate finish, the
authentication is told, and what is let in is routed to its end.  No other request has to be
answered for that, and none has to come in.

* `Waits` — an authentication that asked the revocation gate waits for it;
* `reaches_gate` — the calls of the gate can be finished;
* `finish_authentication`, `finish_task` — so can an authentication, and a task;
* `request_answered` — and then the request is answered.
-/

namespace LoadBalance

open Http Text Conc Machine

namespace Server

variable {N : Type} {D : Deployment N} {s s' : AppState D} {i j : ℕ}

/-- What the server can come to from here. -/
abbrev Reaches (s s' : AppState D) : Prop := Relation.ReflTransGen (Step D) s s'

/-! ## Who asked the gate waits -/

/-- An authentication that asked the revocation gate waits to be told, or was given up. -/
def Waits (s : AppState D) : Prop :=
  ∀ i asked, s.asked i = some asked → i < s.auth.config.next ∧
    (s.auth.config.procs i = none ∨
      s.auth.config.waiting i = some (.authorizeRevocation asked.claims asked.now))

theorem waiting_congr {c c' : Config Auth.Call Auth.Call.Answer
    (Except Response (Option VerifiedIdentity)) Auth.Caches}
    (h : c'.procs i = c.procs i) : c'.waiting i = c.waiting i := by
  rw [Config.waiting, Config.waiting, h]

theorem Step.waits (h : Step D s s') (hwaits : Waits s) : Waits s' := by
  -- a step of the authentications that is not about `i` leaves it waiting
  have hkeep {m : Auth.CachesMoment} {c} (hstep : D.authService.Step s.auth.config m c) {i : ℕ}
      {asked : Asked} (hasked : s.asked i = some asked) (hown : m.label.own i = none) :
      i < c.next ∧ (c.procs i = none ∨
        c.waiting i = some (.authorizeRevocation asked.claims asked.now)) := by
    obtain ⟨hold, hi⟩ := hwaits i asked hasked
    refine ⟨hold.trans_le hstep.next_le, ?_⟩
    by_cases hdrop : m.label = .drop i
    · cases hstep with
      | drop _ _ =>
        obtain rfl := Label.drop.inj hdrop
        exact Or.inl (Function.update_self ..)
      | _ => exact absurd hdrop (by simp)
    · have hsame := hstep.procs_eq hold hown hdrop
      rwa [hsame, waiting_congr hsame]
  cases h with
  | @accept incoming hendpoint =>
    intro i asked hasked
    exact hkeep (.start (D.start_requestIdentity incoming.headers _)) hasked rfl
  | @auth m c hstep _ _ houter =>
    intro i asked hasked
    obtain ⟨-, hi⟩ := hwaits i asked hasked
    refine hkeep hstep hasked ?_
    cases hstep with
    | @answer k e cont r shared hlive _ =>
      by_cases hki : k = i
      · -- the answer would be to the question
        subst hki
        rcases hi with hnone | hcall
        · rw [hlive] at hnone
          exact absurd hnone (by simp)
        · rw [Config.waiting_eq_some.2 ⟨cont, hlive⟩] at hcall
          obtain rfl := Option.some.inj hcall
          exact houter.elim
      · simp [Label.own, hki]
    | _ => rfl
  | @ask k claims now hcall hfirst =>
    intro i asked hasked
    rcases update_cases hasked with ⟨rfl, rfl⟩ | ⟨-, hold⟩
    · obtain ⟨cont, hlive⟩ := Config.waiting_eq_some.1 hcall
      exact ⟨s.auth.run.lt_next hlive, Or.inr hcall⟩
    · exact hwaits i asked hold
  | @told k asked authorization b a c _ _ hstep =>
    intro i asked' hasked
    have hik : i ≠ k := by
      rintro rfl
      have hnone : Function.update s.asked i none i = some asked' := hasked
      rw [Function.update_self] at hnone
      exact absurd hnone (by simp)
    exact hkeep hstep (of_update_none hasked) (by simp [Label.own, hik.symm])
  | _ => exact hwaits

theorem Reachable.waits (h : Reachable D s) : Waits s := by
  induction h with
  | refl => exact fun _ _ h => absurd h (by simp [AppState.new])
  | tail _ hstep ih => exact hstep.waits ih

/-! ## The machines go on -/

theorem isAnswer_spares {E : Type} {R : E → Type} {α σ : Type} {c : Config E R α σ}
    {label : Label E R α} (h : label.isAnswer = true) : c.Spares label ∧ Inner label := by
  cases label with
  | answer k ev => exact ⟨trivial, trivial⟩
  | _ => exact absurd h (by simp [Label.isAnswer])

/-- What the gate can come to by answers, the server can. -/
theorem reaches_gate {h : List Revocation.GateMoment}
    {c : Config Revocation.Call Revocation.Call.Answer Revocation.Authorization Revocation.Gate}
    (hpath : D.httpGate.Path s.gate.config h c) (hanswers : OnlyAnswers h) :
    ∃ gate : D.httpGate.Pool D.revocations, gate.config = c ∧ Reaches s { s with gate := gate } := by
  induction hpath with
  | nil => exact ⟨s.gate, rfl, .refl⟩
  | @step h c₁ c₂ m _ hstep ih =>
    obtain ⟨gate, rfl, hreaches⟩ := ih fun m' hm' => hanswers m' (List.mem_append_left _ hm')
    obtain ⟨hspares, hinner⟩ := isAnswer_spares (c := gate.config) (hanswers m (by simp))
    exact ⟨gate.extend hstep, rfl,
      hreaches.tail (.gate (s := { s with gate := gate }) hstep hspares hinner)⟩

/-- **The calls of the gate can be finished.** -/
theorem settle_gate (s : AppState D) :
    ∃ gate : D.httpGate.Pool D.revocations, Reaches s { s with gate := gate } ∧
      ∀ g, s.gate.config.procs g ≠ none → ∃ authorization, gate.config.result g = some authorization := by
  obtain ⟨h, c, hpath, hanswers, hsettled⟩ := s.gate.run.settles Revocation.bounded
    (Revocation.live rfl (Nat.le_max_right D.capacity 1))
  obtain ⟨gate, rfl, hreaches⟩ := reaches_gate hpath hanswers
  exact ⟨gate, hreaches, fun g hg => hsettled.result (hpath.live hanswers hg)⟩

/-- Any call of an authentication can be answered. -/
theorem exists_service_exec (jwksTtl : ℕ) (caches : Auth.Caches) (e : Auth.Call) :
    ∃ r caches', Auth.ServiceExec jwksTtl caches e r caches' := by
  cases e with
  | cachedDecision key => exact ⟨_, _, .other id (.cachedDecision _ key)⟩
  | insertDecision key identity ttl now =>
    exact ⟨_, _, .other id (.insertDecision (Auth.headD_soonest _))⟩
  | introspect apiKey => exact ⟨.failed, _, .other id (.other _ id (by simp))⟩
  | cachedJwks => exact ⟨_, _, .cachedJwks caches⟩
  | fetchJwks => exact ⟨.failed, _, .other id (.other _ id (by simp))⟩
  | storeJwks jwks now => exact ⟨_, _, .storeJwks caches jwks now⟩
  | instantNow => exact ⟨_, _, .other id (.instantNow _)⟩
  | unixSecs => exact ⟨(0 : ℕ), _, .other id (.other _ id (by simp))⟩
  | authorizeRevocation claims now =>
    exact ⟨.allowed, _, .other id (.other _ id (by simp))⟩

/-- And any word of the revocation gate can be told. -/
theorem authorizeRevocation_exec (jwksTtl : ℕ) (caches : Auth.Caches) (claims : Revocation.Claims)
    (now : ℕ) (authorization : Revocation.Authorization) :
    Auth.ServiceExec jwksTtl caches (.authorizeRevocation claims now) authorization caches :=
  .other id (.other _ id (by simp))

/-- Only the authentications and the gate have moved. -/
structure Aside (s s' : AppState D) : Prop where
  proxy : s'.proxy = s.proxy
  incoming : s'.incoming = s.incoming
  forwarded : s'.forwarded = s.forwarded
  answered : s'.answered = s.answered

theorem Aside.trans {s'' : AppState D} (h : Aside s s') (h' : Aside s' s'') : Aside s s'' :=
  ⟨h'.proxy.trans h.proxy, h'.incoming.trans h.incoming, h'.forwarded.trans h.forwarded,
    h'.answered.trans h.answered⟩

/-- **An authentication can be finished**, by induction on what it has left to do. -/
theorem finish_authentication {p : Auth.Task (Except Response (Option VerifiedIdentity))}
    (hreach : Reachable D s) (hproc : s.auth.config.procs i = some p)
    (hgate : ∀ asked, s.asked i = some asked → s.gate.config.procs asked.call ≠ none) :
    ∃ s', Reaches s s' ∧ Aside s s' ∧ ∃ result, s'.auth.config.result i = some result := by
  induction p generalizing s with
  | done result =>
    exact ⟨s, .refl, ⟨rfl, rfl, rfl, rfl⟩, result, Config.result_eq_some.2 hproc⟩
  | call e k ih =>
    by_cases hgateCall : ∃ claims now, e = .authorizeRevocation claims now
    · obtain ⟨claims, now, rfl⟩ := hgateCall
      have hcall := Config.waiting_eq_some.2 ⟨k, hproc⟩
      -- the question is asked, if it was not before
      obtain ⟨s₁, hreaches₁, haside₁, hauth₁, asked, hasked, hthere, rfl, rfl⟩ :
          ∃ s₁, Reaches s s₁ ∧ Aside s s₁ ∧ s₁.auth = s.auth ∧ ∃ asked, s₁.asked i = some asked ∧
            s₁.gate.config.procs asked.call ≠ none ∧ asked.claims = claims ∧ asked.now = now := by
        cases hasked : s.asked i with
        | none =>
          refine ⟨_, .single (.ask hcall hasked), ⟨rfl, rfl, rfl, rfl⟩, rfl, _,
            Function.update_self .., ?_, rfl, rfl⟩
          show Function.update s.gate.config.procs s.gate.config.next _ s.gate.config.next ≠ none
          rw [Function.update_self]
          simp
        | some asked =>
          refine ⟨s, .refl, ⟨rfl, rfl, rfl, rfl⟩, rfl, asked, hasked, hgate asked hasked, ?_⟩
          obtain ⟨-, hnone | hwaits⟩ := hreach.waits i asked hasked
          · rw [hproc] at hnone
            exact absurd hnone (by simp)
          · rw [hcall] at hwaits
            obtain ⟨hclaims, hnow⟩ := Auth.Call.authorizeRevocation.inj (Option.some.inj hwaits)
            exact ⟨hclaims.symm, hnow.symm⟩
      obtain ⟨gate, hreaches₂, hresults⟩ := settle_gate s₁
      obtain ⟨authorization, hresult⟩ := hresults asked.call hthere
      rw [← hauth₁] at hproc
      have hstep : D.authService.Step s₁.auth.config _ _ := .answer hproc
        (authorizeRevocation_exec D.jwksTtl _ asked.claims asked.now authorization)
      have htold : Step D { s₁ with gate := gate } _ :=
        .told (s := { s₁ with gate := gate }) hasked hresult hstep
      have hreaches := (hreaches₁.trans hreaches₂).tail htold
      obtain ⟨s', hreaches', haside', hdone⟩ := ih authorization (hreach.trans hreaches)
        (Function.update_self ..) (by
          intro other hother
          have hnone : Function.update s₁.asked i none i = some other := hother
          rw [Function.update_self] at hnone
          exact absurd hnone (by simp))
      have haside : Aside s₁ s' :=
        ⟨haside'.proxy, haside'.incoming, haside'.forwarded, haside'.answered⟩
      exact ⟨s', hreaches.trans hreaches', haside₁.trans haside, hdone⟩
    · obtain ⟨r, caches, hexec⟩ := exists_service_exec D.jwksTtl s.auth.config.shared e
      have hstep : D.authService.Step s.auth.config _ _ := .answer hproc hexec
      have houter : Outer (.answer i ⟨e, r⟩) := by
        cases e with
        | authorizeRevocation claims now => exact hgateCall ⟨claims, now, rfl⟩
        | _ => trivial
      have hreaches : Reaches s _ := .single (.auth hstep trivial trivial houter)
      obtain ⟨s', hreaches', haside', hdone⟩ :=
        ih r (hreach.trans hreaches) (Function.update_self ..) hgate
      exact ⟨s', hreaches.trans hreaches',
        ⟨haside'.proxy, haside'.incoming, haside'.forwarded, haside'.answered⟩, hdone⟩

/-- Any call on the table can be answered. -/
theorem exists_tableStep (env : Env) (t : RouteTable) {e : Proxy.Call}
    (he : ∀ a, e ≠ .forwardOnce a) : ∃ r t', Proxy.TableStep env t e r t' := by
  cases e with
  | leaderFor shard => exact ⟨_, _, .leaderFor t shard⟩
  | anyNodeExcluding excluded => exact ⟨_, _, .anyNodeExcluding t excluded⟩
  | acceptLeaderHint shard nodeUrl => exact ⟨_, _, .acceptLeaderHint t shard nodeUrl 0⟩
  | validateNodeHint nodeUrl => exact ⟨_, _, .validateNodeHint t nodeUrl⟩
  | recordRegionRequest nodeUrl => exact ⟨_, _, .recordRegionRequest t nodeUrl⟩
  | forwardOnce a => exact absurd rfl (he a)

/-- The nodes can always answer, if only that they cannot be reached. -/
def Answering (upstreams : Proxy.Upstreams N) : Prop :=
  ∀ i a n, ∃ reply n', upstreams.answer i a n reply n'

theorem exists_balancer_exec (hanswering : Answering D.upstreams) (i : ℕ) (w : Proxy.World N)
    (e : Proxy.Call) : ∃ r w', D.balancer.exec i w e r w' := by
  by_cases he : ∃ a, e = .forwardOnce a
  · obtain ⟨a, rfl⟩ := he
    obtain ⟨reply, n, hanswer⟩ := hanswering i a w.nodes
    exact ⟨reply, _, .attempt hanswer⟩
  · obtain ⟨r, t, hstep⟩ := exists_tableStep D.env w.table fun a heq => he ⟨a, heq⟩
    exact ⟨r, _, .table hstep⟩

/-- **A task can be finished**, by induction on what it has left to do. -/
theorem finish_task (hanswering : Answering D.upstreams) {p : Proxy.Task Response}
    (hproc : s.proxy.config.procs j = some p) :
    ∃ proxy : D.balancer.Pool D.world, Reaches s { s with proxy := proxy } ∧
      ∃ response, proxy.config.result j = some response := by
  induction p generalizing s with
  | done response => exact ⟨s.proxy, .refl, response, Config.result_eq_some.2 hproc⟩
  | call e k ih =>
    obtain ⟨r, w, hexec⟩ := exists_balancer_exec hanswering j s.proxy.config.shared e
    have hstep : D.balancer.Step s.proxy.config _ _ := .answer hproc hexec
    have hreaches : Reaches s { s with proxy := s.proxy.extend hstep } :=
      .single (.proxy hstep trivial trivial)
    obtain ⟨proxy, hreaches', hdone⟩ :=
      ih r (s := { s with proxy := s.proxy.extend hstep }) (Function.update_self ..)
    exact ⟨proxy, hreaches.trans hreaches', hdone⟩

/-! ## A request is answered -/

/-- Nothing that works for this request was given up. -/
structure Kept (s : AppState D) (i : ℕ) : Prop where
  auth : s.auth.config.procs i ≠ none
  gate : ∀ asked, s.asked i = some asked → s.gate.config.procs asked.call ≠ none
  task : ∀ j, s.forwarded i = some j → s.proxy.config.procs j ≠ none

/-- Request `i` has its answer, and nothing else was taken in or answered. -/
structure Served (s s' : AppState D) (i : ℕ) : Prop where
  answered : (s'.answered i).isSome
  incoming : s'.incoming = s.incoming
  others : ∀ i', i' ≠ i → s'.answered i' = s.answered i'

theorem Served.of_update {response : Response} (hincoming : s'.incoming = s.incoming)
    (hanswered : s'.answered = Function.update s.answered i (some response)) : Served s s' i where
  answered := by
    rw [hanswered, Function.update_self, Option.isSome_some]
  incoming := hincoming
  others := by
    intro i' hne
    rw [hanswered, Function.update_of_ne hne]

theorem Served.of_aside {s'' : AppState D} (haside : Aside s s') (h : Served s' s'' i) :
    Served s s'' i where
  answered := h.answered
  incoming := h.incoming.trans haside.incoming
  others := by
    intro i' hne
    rw [h.others i' hne, haside.answered]

/-- A request that is routed can be answered. -/
theorem reply_of_forwarded (hanswering : Answering D.upstreams) (hopen : s.answered i = none)
    (hforwarded : s.forwarded i = some j) (htask : s.proxy.config.procs j ≠ none) :
    ∃ s', Reaches s s' ∧ Served s s' i := by
  obtain ⟨p, hproc⟩ := Option.ne_none_iff_exists'.1 htask
  obtain ⟨proxy, hreaches, response, hresult⟩ := finish_task hanswering hproc
  have hreply : Step D { s with proxy := proxy } _ :=
    .reply (s := { s with proxy := proxy }) hforwarded hresult hopen
  exact ⟨_, hreaches.tail hreply, .of_update rfl rfl⟩

/-- So can one that was let in, whatever it asks for. -/
theorem reply_of_identified (hanswering : Answering D.upstreams) (hopen : s.answered i = none)
    {incoming : Incoming} (hincoming : s.incoming i = some incoming)
    (hendpoint : dispatch D.tls incoming = .routesDump ∨
      dispatch D.tls incoming = .proxyFallback)
    {identity : Option VerifiedIdentity} (hresult : s.auth.config.result i = some (.ok identity))
    (htask : ∀ j, s.forwarded i = some j → s.proxy.config.procs j ≠ none) :
    ∃ s', Reaches s s' ∧ Served s s' i := by
  rcases hendpoint with hroutes | hproxy
  · exact ⟨_, .single (.dump hincoming hroutes hresult hopen), .of_update rfl rfl⟩
  · cases hforwarded : s.forwarded i with
    | some j => exact reply_of_forwarded hanswering hopen hforwarded (htask j hforwarded)
    | none =>
      have hforward := Step.forward hincoming hproxy hresult hforwarded
      obtain ⟨s', hreaches, hserved⟩ := reply_of_forwarded (j := s.proxy.config.next) hanswering
        (s := { s with
          proxy := s.proxy.start (D.start_route (incoming.request identity) _)
          forwarded := Function.update s.forwarded i (some s.proxy.config.next) })
        hopen (Function.update_self ..) (by
          show Function.update s.proxy.config.procs _ _ _ ≠ none
          rw [Function.update_self]
          simp)
      exact ⟨s', .head hforward hreaches, ⟨hserved.answered, hserved.incoming, hserved.others⟩⟩

/-- **No request is stuck.**  Wherever the server has come to, whatever else is under way, and
however the locks of the revocation gate are held: a request that has come in to be routed, or
for the table, and was not given up, can still be answered, with the nodes answering somehow,
and without another request coming in or being answered. -/
theorem request_answered (D : Deployment N) (hanswering : Answering D.upstreams)
    {s : AppState D} (hreach : Reachable D s) {i : ℕ} {incoming : Incoming}
    (hincoming : s.incoming i = some incoming) (hresolve : dispatch D.tls incoming ≠ .resolve)
    (hkept : Kept s i) : ∃ s', Reaches s s' ∧ Served s s' i := by
  cases hopen : s.answered i with
  | some response =>
    exact ⟨s, .refl, by rw [hopen, Option.isSome_some], rfl, fun _ _ => rfl⟩
  | none =>
    obtain ⟨p, hproc⟩ := Option.ne_none_iff_exists'.1 hkept.auth
    obtain ⟨s₁, hreaches, haside, result, hresult⟩ :=
      finish_authentication hreach hproc hkept.gate
    rw [← haside.answered] at hopen
    cases result with
    | error response =>
      exact ⟨_, hreaches.tail (.refuse hresult hopen), .of_aside haside (.of_update rfl rfl)⟩
    | ok identity =>
      have hendpoint : dispatch D.tls incoming = .routesDump ∨
          dispatch D.tls incoming = .proxyFallback :=
        (hreach.inv.request hincoming).1.imp_right fun h => h.resolve_left hresolve
      rw [← haside.incoming] at hincoming
      obtain ⟨s₂, hreaches', hserved⟩ := reply_of_identified hanswering hopen hincoming hendpoint
        hresult (by rw [haside.forwarded, haside.proxy]; exact hkept.task)
      exact ⟨s₂, hreaches.trans hreaches', .of_aside haside hserved⟩

namespace Site

/-- The nodes of the cluster can always be out of reach. -/
theorem answering : Answering deployment.upstreams := by
  intro i a n
  have houtcome : Proxy.outcome Reference.env a .connectError = .notSent ∨
      Proxy.outcome Reference.env a .connectError = .ambiguousTransport := by
    unfold Proxy.outcome
    split
    · exact Or.inl rfl
    · exact Or.inr rfl
    · exact Or.inl rfl
  rcases houtcome with hnotSent | hambiguous
  · exact ⟨.connectError, n, .refused (Or.inl hnotSent)⟩
  · exact ⟨.connectError, _, .lost (Or.inl hambiguous)⟩

end Site

/-- The mutation of the edge can be answered. -/
theorem request_answered_put : ∃ s : AppState Site.deployment, Reachable _ s ∧
    s.answered 0 = none ∧ ∃ s', Reaches s s' ∧ (s'.answered 0).isSome := by
  have hendpoint : dispatch true Site.put = .proxyFallback := by decide +kernel
  have hreach := Site.reachable_accepted (Or.inr (Or.inr hendpoint))
  have hauth : (Site.accepted Site.put).auth.config.procs 0 ≠ none := by
    rw [Config.result_eq_some.1 (Site.identified_accepted rfl)]
    simp
  have hresolve : dispatch Site.deployment.tls Site.put ≠ .resolve := by
    show dispatch true Site.put ≠ .resolve
    rw [hendpoint]
    decide
  have hkept : Kept (Site.accepted Site.put) 0 :=
    ⟨hauth, fun _ h => absurd h (by simp [Site.accepted, AppState.new]),
      fun _ h => absurd h (by simp [Site.accepted, AppState.new])⟩
  obtain ⟨s', hreaches, hserved⟩ := request_answered Site.deployment Site.answering hreach
    (Site.incoming_accepted Site.put) hresolve hkept
  exact ⟨_, hreach, rfl, s', hreaches, hserved.answered⟩

end Server

end LoadBalance
