import FiduciaLoadBalance.Auth.Outage
import FiduciaLoadBalance.Concurrency.Schedule

/-!
# Decisions are bounded in age and number

Any number of requests authenticate at once, and share the cache of decisions and a clock
that does not go back.  Each looks up, asks and records on its own, and what it records may
come late: it is as old as the Instant that was taken when the answer arrived.

* `credentialOf` — the credential that decides on a request;
* `deciding` — what a request looks up and records, with `wp_requestIdentityWithSecret`;
* `authGate` — the machine of all requests over the cache and the clock;
* `Recorded` — a decision with the answer it comes from, and `recorded_of_run`: every
  decision in the cache is one;
* `decisions_bounded` — so what is served from the cache is no older than it may be, and the
  cache drops what has not expired only if it is full of that.
-/

namespace LoadBalance

open Http Text Conc Machine

namespace Auth

/-! ## Requests and their credentials -/

theorem credentialCacheKey_injective {env : Env} (hinj : env.CollisionFree)
    {kind text text' : String}
    (h : credentialCacheKey env kind text = credentialCacheKey env kind text') :
    text = text' := by
  have htext := congrArg String.toList h
  simp only [credentialCacheKey, String.toList_append] at htext
  have hdigest := String.toList_injective (List.append_cancel_left htext)
  exact utf8_injective (hinj (toHex_injective hdigest))

/-- Keys of different kinds begin with different letters. -/
theorem credentialCacheKey_kind_ne (env : Env) (text text' : String) :
    credentialCacheKey env "api_key" text ≠ credentialCacheKey env "invalid_jwt" text' := by
  intro h
  have htext := congrArg String.toList h
  simp only [credentialCacheKey, String.toList_append] at htext
  exact absurd (List.cons.inj htext).1 (by decide)

/-- **Credentials have keys of their own.** -/
theorem Credential.cacheKey_injective {env : Env} (hinj : env.CollisionFree)
    {credential credential' : Credential}
    (h : credential.cacheKey env = credential'.cacheKey env) : credential = credential' := by
  cases credential with
  | apiKey text =>
    cases credential' with
    | apiKey text' => rw [credentialCacheKey_injective hinj h]
    | jwt text' => exact absurd h (credentialCacheKey_kind_ne env text text')
  | jwt text =>
    cases credential' with
    | apiKey text' => exact absurd h.symm (credentialCacheKey_kind_ne env text' text)
    | jwt text' => rw [credentialCacheKey_injective hinj h]

/-- The credential that decides on a request, if one does: no edge vouches for the request,
and its credential is of a kind that is allowed. -/
def credentialOf (config : AuthConfig) (headers : HeaderMap) (expectedSecret : Option String) :
    Option Credential :=
  if (trustedEdgeIdentity headers expectedSecret).isSome then none
  else
    (extractCredential headers).bind fun credential =>
      if isApiKey credential then
        if config.allowApiKeys then some (.apiKey credential) else none
      else if looksLikeJwt credential then
        if config.allowJwts then some (.jwt credential) else none
      else none

section

variable {env : Env} {tokens : Tokens} {config : AuthConfig} {headers : HeaderMap}
  {expectedSecret : Option String} {credential : Credential}

/-- A request that a credential decides on authenticates that credential. -/
theorem requestIdentityWithSecret_of_some
    (h : credentialOf config headers expectedSecret = some credential) :
    requestIdentityWithSecret env tokens config headers expectedSecret =
      credential.authenticate env tokens config >>= fun result => pure (result.map some) := by
  unfold credentialOf at h
  unfold requestIdentityWithSecret authenticate
  split at h
  · exact absurd h (by simp)
  rename_i hedge
  obtain ⟨text, htext, hkind⟩ := Option.bind_eq_some_iff.1 h
  rw [Option.not_isSome_iff_eq_none.1 hedge, htext]
  dsimp only
  split at hkind
  · rename_i hkey
    split at hkind
    · rename_i hallowed
      obtain rfl := Option.some.inj hkind
      rw [if_pos hkey, hallowed]
      rfl
    · exact absurd hkind (by simp)
  rename_i hkey
  split at hkind
  · rename_i hjwt
    split at hkind
    · rename_i hallowed
      obtain rfl := Option.some.inj hkind
      rw [if_neg hkey, if_pos hjwt, hallowed]
      rfl
    · exact absurd hkind (by simp)
  · exact absurd hkind (by simp)

/-- Any other request is answered on the spot. -/
theorem requestIdentityWithSecret_of_none
    (h : credentialOf config headers expectedSecret = none) :
    ∃ result, requestIdentityWithSecret env tokens config headers expectedSecret =
      .done result := by
  unfold credentialOf at h
  unfold requestIdentityWithSecret authenticate
  cases hedge : trustedEdgeIdentity headers expectedSecret with
  | some identity => exact ⟨_, rfl⟩
  | none =>
    rw [hedge, if_neg (by simp)] at h
    cases htext : extractCredential headers with
    | none =>
      dsimp only
      split
      · exact ⟨_, rfl⟩
      · exact ⟨_, rfl⟩
    | some text =>
      rw [htext, Option.bind_some] at h
      dsimp only
      by_cases hkey : isApiKey text = true
      · rw [if_pos hkey] at h ⊢
        cases hallowed : config.allowApiKeys with
        | false => exact ⟨_, rfl⟩
        | true => simp [hallowed] at h
      · rw [if_neg hkey] at h ⊢
        by_cases hjwt : looksLikeJwt text = true
        · rw [if_pos hjwt] at h ⊢
          cases hallowed : config.allowJwts with
          | false => exact ⟨_, rfl⟩
          | true => simp [hallowed] at h
        · rw [if_neg hjwt]
          exact ⟨_, rfl⟩

/-! ## What a request does -/

/-- How long a decision is remembered. -/
def AuthConfig.ttl (config : AuthConfig) : Option VerifiedIdentity → ℕ
  | some _ => config.cacheTtl
  | none => config.negativeCacheTtl

/-- The auth service replied on this API key, and this is what the reply says of it. -/
def Replied (tokens : Tokens) (apiKey : String) (verdict : Option VerifiedIdentity)
    (ev : TaskEvent) : Prop :=
  ∃ fetched introspection, ev = ⟨.introspect apiKey, fetched⟩ ∧
    readFetched maxIntrospectionResponseBytes "introspection" tokens.introspection fetched =
      .ok introspection ∧
    identityFromIntrospection introspection = verdict

/-- What a call has just found out about its credential: what the reply says of a key, or
that the check of a token failed. -/
def Credential.Found (tokens : Tokens) (config : AuthConfig) :
    Credential → List TaskEvent → Option VerifiedIdentity → Prop
  | .apiKey text, h, verdict => ∃ before ev, h = before ++ [ev] ∧ Replied tokens text verdict ev
  | .jwt text, h, verdict => verdict = none ∧ ∃ before check error, h = before ++ check ∧
    (verifyJwt tokens config text).Steps check (.done (.error error))

/-- The contract of a request: it looks up its own credential, and it records what it has just
found out about it, with the Instant that it took for it. -/
def deciding (env : Env) (tokens : Tokens) (config : AuthConfig) (credential : Credential) :
    Contract Call Call.Answer where
  rely _ _ _ := True
  guarantee h e :=
    match e with
    | .cachedDecision key => key = credential.cacheKey env
    | .insertDecision key verdict ttl now =>
      key = credential.cacheKey env ∧ ttl = config.ttl verdict ∧
        ∃ before, h = before ++ [⟨.instantNow, now⟩] ∧
          credential.Found tokens config before verdict
    | _ => True

theorem deciding_of_not_isDecision {h : List TaskEvent} {e : Call} (he : ¬e.IsDecision) :
    (deciding env tokens config credential).guarantee h e := by
  cases e with
  | cachedDecision key => exact absurd trivial he
  | insertDecision key verdict ttl now => exact absurd trivial he
  | _ => trivial

/-- To record what was found. -/
theorem wp_cacheDecision {h : List TaskEvent} {verdict : Option VerifiedIdentity} {ttl : ℕ}
    (hfound : credential.Found tokens config h verdict) (httl : ttl = config.ttl verdict) :
    (cacheDecision (credential.cacheKey env) verdict ttl).wp
      (deciding env tokens config credential) (fun h' _ => h <+: h') h := by
  unfold cacheDecision
  split
  · exact List.prefix_refl h
  · refine ⟨trivial, ?_⟩
    intro now _
    refine ⟨⟨rfl, httl, h, rfl, hfound⟩, ?_⟩
    intro _ _
    exact (List.prefix_append h _).trans (List.prefix_append _ _)

/-- Where the identity of an API key comes from: the cache, or a reply. -/
def Identified (env : Env) (tokens : Tokens) (apiKey : String) (h : List TaskEvent)
    (identity : VerifiedIdentity) : Prop :=
  ⟨.cachedDecision (credentialCacheKey env "api_key" apiKey), some (some identity)⟩ ∈ h ∨
    ∃ ev ∈ h, Replied tokens apiKey (some identity) ev

theorem wp_authenticateApiKey (text : String) :
    (authenticateApiKey env tokens config text).wp (deciding env tokens config (.apiKey text))
      (fun h result => ∀ identity, result = .ok identity → Identified env tokens text h identity)
      [] := by
  unfold authenticateApiKey
  refine ⟨rfl, ?_⟩
  intro cached _
  rcases cached with _ | ⟨_ | identity⟩
  · refine ⟨trivial, ?_⟩
    intro fetched _
    dsimp only [Proc.bind]
    rw [Proc.pure_eq]
    dsimp only [Proc.bind]
    cases hread : readFetched maxIntrospectionResponseBytes "introspection" tokens.introspection
        fetched with
    | error error =>
      intro identity heq
      exact absurd heq (by simp)
    | ok introspection =>
      have hreplied : Replied tokens text (identityFromIntrospection introspection)
          ⟨.introspect text, fetched⟩ := ⟨fetched, introspection, rfl, hread, rfl⟩
      have hfound : (Credential.apiKey text).Found tokens config
          ([⟨.cachedDecision (credentialCacheKey env "api_key" text), none⟩] ++
            [⟨.introspect text, fetched⟩]) (identityFromIntrospection introspection) :=
        ⟨_, _, rfl, hreplied⟩
      dsimp only
      cases hidentity : identityFromIntrospection introspection with
      | none =>
        rw [hidentity] at hfound
        dsimp only
        rw [Proc.wp_bind]
        refine Proc.wp_mono (wp_cacheDecision hfound rfl) ?_
        intro h' _ _ identity heq
        exact absurd heq (by simp)
      | some identity =>
        rw [hidentity] at hfound hreplied
        dsimp only
        rw [Proc.wp_bind]
        refine Proc.wp_mono (wp_cacheDecision hfound rfl) ?_
        rintro h' _ hprefix identity' heq
        obtain rfl := Except.ok.inj heq
        exact Or.inr ⟨_, hprefix.subset (by simp), hreplied⟩
  · intro identity heq
    exact absurd heq (by simp)
  · intro identity' heq
    obtain rfl := Except.ok.inj heq
    exact Or.inl (by simp)

/-- The check of a token, and a rejection that is recorded if it fails. -/
theorem wp_checked {text : String} (h : List TaskEvent)
    {k : Except AuthError (VerifiedIdentity × Revocation.Claims) →
      Task (Except Response VerifiedIdentity)}
    (herror : ∀ error, k (.error error) =
      cacheDecision (credentialCacheKey env "invalid_jwt" text) none config.negativeCacheTtl >>=
        fun _ => pure (.error (invalidJwt env)))
    (hok : ∀ identity claims, k (.ok (identity, claims)) =
      .call .unixSecs fun now => .call (.authorizeRevocation claims now) fun authorization =>
        .done (authorizedIdentity env identity authorization)) :
    (verifyJwt tokens config text >>= k).wp (deciding env tokens config (.jwt text))
      (fun _ _ => True) h := by
  rw [Proc.wp_bind]
  have hcheck : (verifyJwt tokens config text).wp verifying _ h :=
    Proc.wp_steps (wp_verifyJwt h text)
  refine Proc.wp_mono (Proc.wp_contract hcheck (fun _ _ _ hrely => hrely)
    fun _ _ he => deciding_of_not_isDecision he) ?_
  rintro h' found ⟨-, check, rfl, hsteps⟩
  cases found with
  | error error =>
    rw [herror, Proc.wp_bind]
    refine Proc.wp_mono (wp_cacheDecision ⟨rfl, h, check, error, rfl, hsteps⟩ rfl) ?_
    intro h' _ _
    trivial
  | ok verified =>
    obtain ⟨identity, claims⟩ := verified
    rw [hok]
    refine ⟨trivial, ?_⟩
    intro now _
    refine ⟨trivial, ?_⟩
    intro authorization _
    trivial

theorem wp_authenticateJwt (text : String) :
    (authenticateJwt env tokens config text).wp (deciding env tokens config (.jwt text))
      (fun _ _ => True) [] := by
  unfold authenticateJwt
  refine ⟨rfl, ?_⟩
  intro cached _
  dsimp only [Proc.bind]
  rcases cached with _ | ⟨_ | identity⟩
  · exact wp_checked _ (fun _ => rfl) fun _ _ => rfl
  · trivial
  · exact wp_checked _ (fun _ => rfl) fun _ _ => rfl

/-- **What a request does** that a credential decides on: it keeps its contract, and if an API
key gave it an identity it says where it has it from. -/
theorem wp_requestIdentityWithSecret
    (h : credentialOf config headers expectedSecret = some credential) :
    (requestIdentityWithSecret env tokens config headers expectedSecret).wp
      (deciding env tokens config credential) (fun h result => ∀ apiKey identity,
        credential = .apiKey apiKey → result = .ok (some identity) →
          Identified env tokens apiKey h identity) [] := by
  rw [requestIdentityWithSecret_of_some h, Proc.wp_bind]
  cases credential with
  | apiKey text =>
    refine Proc.wp_mono (wp_authenticateApiKey text) ?_
    rintro h' result hidentified apiKey identity heq hresult
    obtain rfl := Credential.apiKey.inj heq
    cases result with
    | error response => exact absurd hresult (by simp [Except.map])
    | ok identity' =>
      obtain rfl := Option.some.inj (Except.ok.inj hresult)
      exact hidentified identity' rfl
  | jwt text =>
    refine Proc.wp_mono (wp_authenticateJwt text) ?_
    rintro h' result - apiKey identity heq
    exact absurd heq (by simp)

/-! ## All requests at once -/

/-- What the requests share. -/
structure Shared where
  decisions : Decisions
  clock : Instant

/-- One call of a request.  A lookup reads the clock under the lock of the cache; a decision is
recorded with the Instant that was taken before. -/
inductive DecisionExec : Shared → (e : Call) → e.Answer → Shared → Prop
  | cachedDecision (s : Shared) (key : String) :
      DecisionExec s (.cachedDecision key) (s.decisions.cached key s.clock) s
  | instantNow (s : Shared) : DecisionExec s .instantNow s.clock s
  | insertDecision {s : Shared} {key victim : String} {verdict : Option VerifiedIdentity}
      {ttl : ℕ} {now : Instant}
      (hvictim : victim ∈ (s.decisions.live now).soonest ∨ s.decisions.live now = ∅) :
      DecisionExec s (.insertDecision key verdict ttl now) ()
        { s with
          decisions := (pruneDecisions s.decisions now maxCachedDecisions victim).insert key
            { expiresAt := now + ttl, identity := verdict } }
  | other {s : Shared} {e : Call} (answer : e.Answer) (he : ¬e.IsDecision)
      (hclock : e ≠ .instantNow) : DecisionExec s e answer s

/-- Any requests, at any time, over one cache; the clock does not go back, and a request can
be given up. -/
def authGate (env : Env) (tokens : Tokens) (config : AuthConfig) :
    Machine Call Call.Answer (Except Response (Option VerifiedIdentity)) Shared where
  start _ p := ∃ headers expectedSecret,
    p = requestIdentityWithSecret env tokens config headers expectedSecret
  exec _ := DecisionExec
  env s s' := s'.decisions = s.decisions ∧ s.clock ≤ s'.clock
  drop _ _ s s' := s' = s

abbrev AuthMoment : Type :=
  Moment Call Call.Answer (Except Response (Option VerifiedIdentity)) Shared

/-- Call `j` authenticated this credential; it found this out about it, took the Instant `t₀`
for that, and recorded it. -/
structure Recorded (env : Env) (tokens : Tokens) (config : AuthConfig) (credential : Credential)
    (verdict : Option VerifiedIdentity) (t₀ : Instant) (j : ℕ) (h : List AuthMoment) : Prop where
  request : ∃ headers expectedSecret,
    Started h j (requestIdentityWithSecret env tokens config headers expectedSecret) ∧
      credentialOf config headers expectedSecret = some credential
  found : ∃ before after, own j h = before ++ ⟨.instantNow, t₀⟩ ::
      ⟨.insertDecision (credential.cacheKey env) verdict (config.ttl verdict) t₀, ()⟩ :: after ∧
    credential.Found tokens config before verdict

variable {start : Shared} {h h' : List AuthMoment} {m : AuthMoment} {i j : ℕ}
  {c : Config Call Call.Answer (Except Response (Option VerifiedIdentity)) Shared}
  {verdict : Option VerifiedIdentity} {key : String} {entry : CachedDecision}
  {t₀ now : Instant}

theorem Recorded.append (hrecorded : Recorded env tokens config credential verdict t₀ j h)
    (h' : List AuthMoment) :
    Recorded env tokens config credential verdict t₀ j (h ++ h') := by
  obtain ⟨headers, expectedSecret, hst, hcredential⟩ := hrecorded.request
  obtain ⟨before, after, hown, hfound⟩ := hrecorded.found
  refine ⟨⟨headers, expectedSecret, started_append.2 (Or.inl hst), hcredential⟩, before,
    after ++ own j h', ?_, hfound⟩
  rw [own_append, hown, List.append_assoc, List.cons_append, List.cons_append]

/-- **A moment leaves the decisions alone or records one.** -/
theorem decisions_cases (hm : (authGate env tokens config).Allowed m) :
    m.before.clock ≤ m.after.clock ∧ (m.after.decisions = m.before.decisions ∨
      ∃ j key verdict ttl now victim,
        m.label = .answer j ⟨.insertDecision key verdict ttl now, ()⟩ ∧
        m.after.clock = m.before.clock ∧
        (victim ∈ (m.before.decisions.live now).soonest ∨ m.before.decisions.live now = ∅) ∧
        m.after.decisions =
          (pruneDecisions m.before.decisions now maxCachedDecisions victim).insert key
            { expiresAt := now + ttl, identity := verdict }) := by
  obtain ⟨label, before, after⟩ := m
  cases label with
  | start j p =>
    obtain rfl : after = before := hm.2
    exact ⟨le_rfl, Or.inl rfl⟩
  | env =>
    obtain ⟨hsame, hle⟩ := hm
    exact ⟨hle, Or.inl hsame⟩
  | drop j =>
    obtain ⟨p, hsame⟩ := hm
    obtain rfl : after = before := hsame
    exact ⟨le_rfl, Or.inl rfl⟩
  | answer j ev =>
    obtain ⟨e, answer⟩ := ev
    have hexec : DecisionExec before e answer after := hm
    cases hexec with
    | insertDecision hvictim =>
      exact ⟨le_rfl, Or.inr ⟨j, _, _, _, _, _, rfl, rfl, hvictim, rfl⟩⟩
    | _ => exact ⟨le_rfl, Or.inl rfl⟩

/-- Every process is a request, and one that makes a call has a credential to decide on it. -/
theorem request_of_answer (hrun : (authGate env tokens config).Run start h c) {ev : TaskEvent}
    (hev : ev ∈ own j h) : ∃ headers expectedSecret credential,
      Started h j (requestIdentityWithSecret env tokens config headers expectedSecret) ∧
        credentialOf config headers expectedSecret = some credential := by
  obtain ⟨p, hst⟩ := hrun.started_of_answer hev
  obtain ⟨-, headers, expectedSecret, rfl⟩ := hrun.start_of_started hst
  cases hcredential : credentialOf config headers expectedSecret with
  | some credential =>
    exact ⟨headers, expectedSecret, credential, hst, hcredential⟩
  | none =>
    obtain ⟨result, hresult⟩ :=
      requestIdentityWithSecret_of_none hcredential
    obtain ⟨q, hsteps, -⟩ := hrun.own_steps hst
    rw [hresult, Proc.steps_done_iff] at hsteps
    rw [hsteps.1] at hev
    exact absurd hev (by simp)

/-- A request keeps its contract whatever the others do. -/
theorem deciding_of_run (hrun : (authGate env tokens config).Run start h c)
    (hst : Started h j (requestIdentityWithSecret env tokens config headers expectedSecret))
    (hcredential : credentialOf config headers expectedSecret = some credential)
    {pre post : List AuthMoment} {ev : TaskEvent} {b a : Shared}
    (hsplit : h = pre ++ ⟨.answer j ev, b, a⟩ :: post) :
    (deciding env tokens config credential).guarantee (own j pre) ev.1 :=
  hrun.own_guarantee (K := deciding env tokens config credential) hst
    (wp_requestIdentityWithSecret hcredential) (fun _ _ _ _ _ _ => trivial) hsplit

/-! ## The clock -/

theorem cachedDecision_answer {s s' : Shared} {found : Option (Option VerifiedIdentity)}
    (hexec : DecisionExec s (.cachedDecision key) found s') :
    found = s.decisions.cached key s.clock := by
  cases hexec with
  | cachedDecision => rfl
  | other _ he _ => exact absurd trivial he

theorem instantNow_answer {s s' : Shared} (hexec : DecisionExec s .instantNow now s') :
    now = s.clock := by
  cases hexec with
  | instantNow => rfl
  | other _ _ hclock => exact absurd rfl hclock

/-- An Instant that was taken is not in the future. -/
theorem instant_le (hrun : (authGate env tokens config).Run start h c)
    (hev : ⟨.instantNow, now⟩ ∈ own j h) : now ≤ c.shared.clock := by
  induction hrun with
  | init => exact absurd hev (by simp)
  | @step h c c' m hrun hstep ih =>
    have hclock := (decisions_cases hstep.allowed).1
    rw [hstep.before, hstep.after] at hclock
    rw [own_append, List.mem_append] at hev
    rcases hev with hold | hnew
    · exact (ih hold).trans hclock
    · obtain ⟨m', hm', hlabel⟩ := List.mem_filterMap.1 hnew
      obtain rfl := List.mem_singleton.1 hm'
      have hallowed := hstep.allowed
      rw [Allowed, Label.eq_answer_of_own hlabel] at hallowed
      have hread : now = m'.before.clock := instantNow_answer hallowed
      rw [hread, hstep.before]
      exact hclock

theorem Recorded.instant_le (hrecorded : Recorded env tokens config credential verdict t₀ j h)
    (hrun : (authGate env tokens config).Run start h c) : t₀ ≤ c.shared.clock := by
  obtain ⟨before, after, hown, -⟩ := hrecorded.found
  refine Auth.instant_le hrun (j := j) ?_
  rw [hown]
  exact List.mem_append_right _ List.mem_cons_self

/-! ## Every decision in the cache was recorded -/

/-- What is put into the cache was found out just before, by a request of that credential. -/
theorem recorded_of_insert {ttl : ℕ}
    (hrun : (authGate env tokens config).Run start (h ++ [m]) c)
    (hlabel : m.label = .answer j ⟨.insertDecision key verdict ttl now, ()⟩) :
    ∃ credential : Credential, key = credential.cacheKey env ∧ ttl = config.ttl verdict ∧
      Recorded env tokens config credential verdict now j (h ++ [m]) := by
  obtain ⟨label, b, a⟩ := m
  obtain rfl : label = _ := hlabel
  have hev : ⟨.insertDecision key verdict ttl now, ()⟩ ∈
      own j (h ++ [(⟨.answer j ⟨.insertDecision key verdict ttl now, ()⟩, b, a⟩ : AuthMoment)]) :=
    mem_own (List.mem_append_right _ List.mem_cons_self) rfl
  obtain ⟨headers, expectedSecret, credential, hst, hcredential⟩ := request_of_answer hrun hev
  obtain ⟨rfl, rfl, before, hown, hfound⟩ := deciding_of_run hrun hst hcredential rfl
  refine ⟨credential, rfl, rfl, ⟨headers, expectedSecret, hst, hcredential⟩, before, [], ?_, hfound⟩
  rw [own_append, hown, own_answer_self, List.append_assoc]
  rfl

/-- **Every decision in the cache was recorded**, and expires when it may no longer be
served. -/
theorem recorded_of_run (hrun : (authGate env tokens config).Run start h c)
    (hempty : start.decisions = ∅) (hentry : c.shared.decisions[key]? = some entry) :
    ∃ (credential : Credential) (j : ℕ) (t₀ : Instant), key = credential.cacheKey env ∧
      Recorded env tokens config credential entry.identity t₀ j h ∧
      entry.expiresAt = t₀ + config.ttl entry.identity := by
  induction hrun with
  | init =>
    rw [hempty] at hentry
    exact absurd hentry (by simp)
  | @step h c c' m hrun hstep ih =>
    have hold : c.shared.decisions[key]? = some entry →
        ∃ (credential : Credential) (j : ℕ) (t₀ : Instant), key = credential.cacheKey env ∧
          Recorded env tokens config credential entry.identity t₀ j (h ++ [m]) ∧
          entry.expiresAt = t₀ + config.ttl entry.identity := by
      intro hentry
      obtain ⟨credential, j, t₀, hkey, hrecorded, hexpires⟩ := ih hentry
      exact ⟨credential, j, t₀, hkey, hrecorded.append _, hexpires⟩
    obtain ⟨-, hsame | ⟨j, key', verdict, ttl, now, victim, hlabel, -, -, hinsert⟩⟩ :=
      decisions_cases hstep.allowed
    · rw [hstep.after, hstep.before] at hsame
      rw [hsame] at hentry
      exact hold hentry
    · rw [hstep.after, hstep.before] at hinsert
      rw [hinsert, TreeMap.getElem?_insert_eq] at hentry
      by_cases hkey : key = key'
      · rw [if_pos hkey] at hentry
        obtain rfl := Option.some.inj hentry
        obtain ⟨credential, hcredential, rfl, hrecorded⟩ :=
          recorded_of_insert (hrun.step hstep) hlabel
        exact ⟨credential, j, now, hkey.trans hcredential, hrecorded, rfl⟩
      · rw [if_neg hkey] at hentry
        exact hold (getElem?_of_pruneDecisions hentry)

/-- **What is served from the cache** was recorded for the same credential, no longer ago than
it is remembered. -/
theorem recorded_of_cached (hinj : env.CollisionFree) (credential : Credential) {b a : Shared}
    (hrun : (authGate env tokens config).Run start (h ++ ⟨.answer i
      ⟨.cachedDecision (credential.cacheKey env), some verdict⟩, b, a⟩ :: h') c)
    (hempty : start.decisions = ∅) :
    ∃ j t₀, Recorded env tokens config credential verdict t₀ j h ∧ t₀ ≤ b.clock ∧
      b.clock < t₀ + config.ttl verdict := by
  obtain ⟨c₁, c₂, hrun₁, hstep⟩ := hrun.cut
  obtain rfl : b = c₁.shared := hstep.before
  have hcached := cachedDecision_answer hstep.allowed
  obtain ⟨entry, hentry, hlive⟩ := Option.bind_eq_some_iff.1 hcached.symm
  split at hlive
  · rename_i hlt
    obtain rfl := Option.some.inj hlive
    obtain ⟨credential', j, t₀, hkey, hrecorded, hexpires⟩ := recorded_of_run hrun₁ hempty hentry
    obtain rfl := Credential.cacheKey_injective hinj hkey
    exact ⟨j, t₀, hrecorded, hrecorded.instant_le hrun₁, hexpires ▸ hlt⟩
  · exact absurd hlive (by simp)

/-! ## The number of decisions -/

/-- There are never more decisions than there may be. -/
theorem keeps_size : (authGate env tokens config).Keeps
    fun s => s.decisions.size ≤ maxCachedDecisions where
  exec := by
    intro i s e answer s' hsize hexec
    cases hexec with
    | insertDecision hvictim =>
      have hroom := size_pruneDecisions (by decide) hsize hvictim
      exact Std.ExtTreeMap.size_insert_le.trans hroom
    | _ => exact hsize
  env := by
    intro s s' hsize henv
    rw [henv.1]
    exact hsize
  drop := by
    rintro i p s s' hsize rfl
    exact hsize

/-- **A decision that is lost** before it expires was dropped from a full cache, to record
another. -/
theorem evicted_of_run (hrun : (authGate env tokens config).Run start h c)
    (hsize : start.decisions.size ≤ maxCachedDecisions) (hm : m ∈ h)
    (hentry : m.before.decisions[key]? = some entry) (hlost : key ∉ m.after.decisions) :
    ∃ i other verdict ttl now kept,
      m.label = .answer i ⟨.insertDecision other verdict ttl now, ()⟩ ∧ other ≠ key ∧
      now ≤ m.before.clock ∧
      m.after.decisions = Std.ExtTreeMap.insert kept other
        { expiresAt := now + ttl, identity := verdict } ∧
      ∀ t, now ≤ t → t < entry.expiresAt →
        Evicted maxCachedDecisions m.before.decisions kept key entry t := by
  have hbefore := ((hrun.invariant keeps_size hsize).2 m hm).1
  obtain ⟨pre, post, rfl⟩ := List.append_of_mem hm
  obtain ⟨c₁, c₂, hrun₁, hstep⟩ := hrun.cut
  obtain ⟨-, hsame | ⟨i, other, verdict, ttl, now, victim, hlabel, hclock, hvictim, hinsert⟩⟩ :=
    decisions_cases hstep.allowed
  · rw [hsame] at hlost
    exact absurd (TreeMap.mem_iff_exists.2 ⟨entry, hentry⟩) hlost
  · rw [hinsert, TreeMap.mem_insert_iff, not_or] at hlost
    obtain ⟨hother, hgone⟩ := hlost
    obtain ⟨credential, -, -, hrecorded⟩ := recorded_of_insert (hrun₁.step hstep) hlabel
    refine ⟨i, other, verdict, ttl, now, _, hlabel, Ne.symm hother, ?_, hinsert, ?_⟩
    · rw [← hclock, hstep.after]
      exact hrecorded.instant_le (hrun₁.step hstep)
    · intro t hnow ht
      exact evicted_of_pruneDecisions hbefore hvictim hentry hgone hnow ht

end

/-! ## The bounds -/

/-- What is so after every run of the requests. -/
structure Bounded (env : Env) (tokens : Tokens) (config : AuthConfig) (h : List AuthMoment)
    (c : Config Call Call.Answer (Except Response (Option VerifiedIdentity)) Shared) : Prop where
  /-- An API key gives an identity in a call that got a reply that is valid for the key, or from
  the cache, less than `cacheTtl` after the Instant of a call that did. -/
  identity : ∀ i headers expectedSecret apiKey identity,
    Started h i (requestIdentityWithSecret env tokens config headers expectedSecret) →
    credentialOf config headers expectedSecret = some (.apiKey apiKey) →
    c.result i = some (.ok (some identity)) →
      (∃ ev ∈ own i h, Replied tokens apiKey (some identity) ev) ∨
      ∃ pre b a post j t₀, h = pre ++ ⟨.answer i ⟨.cachedDecision
          (credentialCacheKey env "api_key" apiKey), some (some identity)⟩, b, a⟩ :: post ∧
        Recorded env tokens config (.apiKey apiKey) (some identity) t₀ j pre ∧
        t₀ ≤ b.clock ∧ b.clock - t₀ < config.cacheTtl
  /-- A rejection is served from the cache less than `negativeCacheTtl` after the Instant of a
  call that recorded it for the same credential. -/
  rejection : ∀ i headers expectedSecret credential,
    Started h i (requestIdentityWithSecret env tokens config headers expectedSecret) →
    credentialOf config headers expectedSecret = some credential →
    ∀ pre key b a post,
      h = pre ++ ⟨.answer i ⟨.cachedDecision key, some none⟩, b, a⟩ :: post →
        ∃ j t₀, Recorded env tokens config credential none t₀ j pre ∧
          t₀ ≤ b.clock ∧ b.clock - t₀ < config.negativeCacheTtl
  size : c.shared.decisions.size ≤ maxCachedDecisions ∧
    ∀ m ∈ h, m.before.decisions.size ≤ maxCachedDecisions
  /-- A decision is lost where another one is recorded.  If it had not expired by then, the cache
  was full of such decisions, none of which expires sooner, and only it was dropped. -/
  eviction : ∀ m ∈ h, ∀ (key : String) (entry : CachedDecision),
    m.before.decisions[key]? = some entry → key ∉ m.after.decisions →
      ∃ i other verdict ttl now kept,
        m.label = .answer i ⟨.insertDecision other verdict ttl now, ()⟩ ∧ other ≠ key ∧
        now ≤ m.before.clock ∧
        m.after.decisions = Std.ExtTreeMap.insert kept other
          { expiresAt := now + ttl, identity := verdict } ∧
        ∀ t, now ≤ t → t < entry.expiresAt →
          Evicted maxCachedDecisions m.before.decisions kept key entry t

/-- **Decisions are bounded in age and number**, however many requests authenticate at once,
however their steps interleave, and whatever the auth service answers. -/
theorem decisions_bounded (env : Env) (hinj : env.CollisionFree) (tokens : Tokens)
    (config : AuthConfig) {clock : Instant} {h : List AuthMoment}
    {c : Config Call Call.Answer (Except Response (Option VerifiedIdentity)) Shared}
    (hrun : (authGate env tokens config).Run ⟨∅, clock⟩ h c) :
    Bounded env tokens config h c := by
  have hsize := hrun.invariant keeps_size (Nat.zero_le _)
  refine ⟨?_, ?_, ⟨hsize.1, fun m hm => (hsize.2 m hm).1⟩, ?_⟩
  · intro i headers expectedSecret apiKey identity hst hcredential hresult
    have hidentified := hrun.own_result (K := deciding env tokens config (.apiKey apiKey)) hst
      (wp_requestIdentityWithSecret hcredential) (fun _ _ _ _ _ _ => trivial)
      (Config.result_eq_some.1 hresult) apiKey identity rfl rfl
    rcases hidentified with hcached | hreplied
    · obtain ⟨pre, b, a, post, rfl⟩ := exists_of_mem_own hcached
      obtain ⟨j, t₀, hrecorded, hle, hlt⟩ := recorded_of_cached hinj (.apiKey apiKey) hrun rfl
      exact Or.inr ⟨pre, b, a, post, j, t₀, rfl, hrecorded, hle, Nat.sub_lt_left_of_lt_add hle hlt⟩
    · exact Or.inl hreplied
  · rintro i headers expectedSecret credential hst hcredential pre key b a post rfl
    obtain rfl := deciding_of_run hrun hst hcredential rfl
    obtain ⟨j, t₀, hrecorded, hle, hlt⟩ := recorded_of_cached hinj credential hrun rfl
    exact ⟨j, t₀, hrecorded, hle, Nat.sub_lt_left_of_lt_add hle hlt⟩
  · intro m hm key entry hentry hlost
    exact evicted_of_run hrun (Nat.zero_le _) hm hentry hlost

/-! ## Playing requests -/

/-- Answer a call; the auth service answers with what it is given. -/
def answerWith (fetched : Fetched) (_ : ℕ) (s : Shared) : (e : Call) → Option (e.Answer × Shared)
  | .cachedDecision key => some (s.decisions.cached key s.clock, s)
  | .insertDecision key verdict ttl now =>
    let victim := (s.decisions.live now).soonest.headD ""
    some ((), { s with
      decisions := (pruneDecisions s.decisions now maxCachedDecisions victim).insert key
        { expiresAt := now + ttl, identity := verdict } })
  | .introspect _ => some (fetched, s)
  | .cachedJwks => some (none, s)
  | .fetchJwks => some (fetched, s)
  | .storeJwks _ _ => some ((), s)
  | .instantNow => some (s.clock, s)
  | .unixSecs => some (s.clock, s)
  | .authorizeRevocation _ _ => some (.allowed, s)

/-- The first of those that expire soonest is one of them. -/
theorem headD_soonest (decisions : Decisions) :
    decisions.soonest.headD "" ∈ decisions.soonest ∨ decisions = ∅ := by
  by_cases hempty : decisions = ∅
  · exact Or.inr hempty
  · obtain ⟨key, hkey⟩ := TreeMap.exists_mem_least CachedDecision.expiresAt hempty
    rw [← Decisions.soonest_eq] at hkey
    cases hsoonest : decisions.soonest with
    | nil =>
      rw [hsoonest] at hkey
      exact absurd hkey (by simp)
    | cons first rest => exact Or.inl List.mem_cons_self

theorem exec_of_answerWith {fetched : Fetched} {i : ℕ} {s s' : Shared} {e : Call}
    {answer : e.Answer} (h : answerWith fetched i s e = some (answer, s')) :
    DecisionExec s e answer s' := by
  cases e with
  | cachedDecision key =>
    obtain ⟨rfl, rfl⟩ := Prod.mk.inj (Option.some.inj h)
    exact .cachedDecision s key
  | insertDecision key verdict ttl now =>
    obtain ⟨rfl, rfl⟩ := Prod.mk.inj (Option.some.inj h)
    exact .insertDecision (headD_soonest _)
  | instantNow =>
    obtain ⟨rfl, rfl⟩ := Prod.mk.inj (Option.some.inj h)
    exact .instantNow s
  | _ =>
    obtain ⟨rfl, rfl⟩ := Prod.mk.inj (Option.some.inj h)
    exact .other _ id (by simp)

/-- The requests, driven: one is started with these headers, and the clock ticks. -/
def authSimulation (env : Env) (tokens : Tokens) (config : AuthConfig) :
    Machine.Driver (authGate env tokens config) where
  Job := HeaderMap
  Choice := Fetched
  Turn := ℕ
  start headers _ := some (requestIdentityWithSecret env tokens config headers none)
  exec := answerWith
  env ticks s := some { s with clock := s.clock + ticks }
  start_sound := fun {headers _ _} h => ⟨headers, none, (Option.some.inj h).symm⟩
  exec_sound := exec_of_answerWith
  env_sound := fun {ticks s _} h => by
    obtain rfl := Option.some.inj h
    exact ⟨rfl, Nat.le_add_right s.clock ticks⟩

namespace Sample

def driver : Machine.Driver (authGate Reference.env tokens config) :=
  authSimulation Reference.env tokens config

/-- A request with the API key `fdc_a.b`. -/
def keyHeaders : HeaderMap := ⟨[("x-api-key", ⟨utf8 "fdc_a.b", by decide⟩)]⟩

/-- The next call of request `i` is answered; the auth service answers. -/
def reply (i : ℕ) : driver.Move := .answer i (.response .ok (some []))

/-- A request whose key is looked up, introspected and recorded. -/
def first : List driver.Move := .start keyHeaders :: List.replicate 4 (reply 0)

/-- And one with the same key 59 seconds later. -/
def second : List driver.Move := [.env (59 : ℕ), .start keyHeaders, reply 1]

/-- A call gave an identity. -/
def identified : Option (Except Response (Option VerifiedIdentity)) → Option VerifiedIdentity
  | some (.ok identity) => identity
  | _ => none

theorem eq_of_identified {result : Option (Except Response (Option VerifiedIdentity))}
    {identity : VerifiedIdentity} (h : identified result = some identity) :
    result = some (.ok (some identity)) := by
  unfold identified at h
  split at h
  · rw [h]
  · exact absurd h (by simp)

end Sample

/-- The second of two requests is served what the first one recorded. -/
theorem decisions_bounded_twice : ∃ h c,
    (authGate Reference.env Sample.tokens Sample.config).Run ⟨∅, 0⟩ h c ∧ c.shared.clock = 59 ∧
      (∃ identity, c.result 1 = some (.ok (some identity))) ∧
      Bounded Reference.env Sample.tokens Sample.config h c := by
  obtain ⟨h₁, c₁, h₂, c₂, hplay₁, hplay₂, hfound⟩ := Sample.driver.exists_play
    (.initial ⟨∅, 0⟩) Sample.first Sample.second (fun _ _ _ c₂ =>
      c₂.shared.clock = 59 ∧ (Sample.identified (c₂.result 1)).isSome)
    (by decide +kernel)
  obtain ⟨hclock, hidentified⟩ := of_decide_eq_true hfound
  obtain ⟨identity, hidentity⟩ := Option.isSome_iff_exists.1 hidentified
  have hrun := Sample.driver.run_of_play (Sample.driver.run_of_play .init hplay₁) hplay₂
  exact ⟨_, c₂, hrun, hclock, ⟨identity, Sample.eq_of_identified hidentity⟩,
    decisions_bounded Reference.env Reference.collisionFree Sample.tokens Sample.config hrun⟩

end Auth

end LoadBalance
