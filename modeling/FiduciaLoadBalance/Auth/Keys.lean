import FiduciaLoadBalance.Auth.Bounded
import FiduciaLoadBalance.Concurrency.Refine

/-!
# Tokens are checked with keys that are current

The keys that tokens are signed with are published by the auth service as one set.  The set
is fetched, stored with the Instant it arrived at, and used until it is too old; a token of a
key that is not in it has the set fetched again.  Requests that fetch at the same time store
their sets in any order.

* `publishing` — what a request stores: the set it was just sent, under the Instant it took
  after that;
* `SignedBy` — what the check of a token went by, with `wp_verifyJwt_signed`;
* `authService` — the machine of all requests over the decisions, the keys and the clock,
  which refines the one without the keys;
* `stamped_of_run` — every set that is stored was sent, and not after its Instant;
* `shown_of_run`, `jwt_grounded` — so a token gives an identity only on a current key, its own
  claims and a word of the revocation gate.
-/

namespace LoadBalance

open Http Text Conc Machine

namespace Auth

open Revocation (Claims)

/-! ## What a request goes by -/

/-- The auth service sent this set of keys. -/
def Sent (tokens : Tokens) (jwks : List Jwk) (ev : TaskEvent) : Prop :=
  ∃ fetched, ev = ⟨.fetchJwks, fetched⟩ ∧
    readFetched maxJwksResponseBytes "jwks" tokens.jwkSet fetched = .ok jwks

/-- The contract of a request: a set is stored as it was just sent, with the Instant taken
after that. -/
def publishing (tokens : Tokens) : Contract Call Call.Answer where
  rely _ _ _ := True
  guarantee h e :=
    match e with
    | .storeJwks jwks now => ∃ before ev, h = before ++ [ev, ⟨.instantNow, now⟩] ∧
        Sent tokens jwks ev
    | _ => True

/-- A request had this set of keys, from the cache or from the service. -/
def Had (tokens : Tokens) (jwks : List Jwk) (h : List TaskEvent) : Prop :=
  ⟨.cachedJwks, some jwks⟩ ∈ h ∨ ∃ ev ∈ h, Sent tokens jwks ev

/-- The token was signed with this key, of this ID, and claims what it has to. -/
structure SignedBy (tokens : Tokens) (config : AuthConfig) (text kid : String) (jwk : Jwk)
    (h : List TaskEvent) (claims : Claims) : Prop where
  signature : ∃ header key, ∃ second : ℕ, tokens.decodeHeader text = some header ∧
    isAsymmetricAlgorithm header.alg = true ∧ header.kid = some kid ∧
    tokens.decodingKey jwk = some key ∧ ⟨.unixSecs, second⟩ ∈ h ∧
    tokens.decode text key
      { algorithm := header.alg, issuer := config.jwtIssuer, audience := config.jwtAudience
        requiredClaims := requiredSpecClaims } second = some claims
  asymmetric : jwk.octetKey = false
  contract : ∃ second : ℕ, ⟨.unixSecs, second⟩ ∈ h ∧
    validateClaimContract claims config.jwtIssuer config.jwtAudience second = .ok ()

section

variable {env : Env} {tokens : Tokens} {config : AuthConfig} {h h' : List TaskEvent}
  {jwks : List Jwk} {jwk : Jwk} {text kid : String} {claims : Claims}

theorem Had.mono (hhad : Had tokens jwks h) (hsub : h <+: h') : Had tokens jwks h' := by
  rcases hhad with hcached | ⟨ev, hev, hsent⟩
  · exact Or.inl (hsub.subset hcached)
  · exact Or.inr ⟨ev, hsub.subset hev, hsent⟩

theorem SignedBy.mono (hsigned : SignedBy tokens config text kid jwk h claims) (hsub : h <+: h') :
    SignedBy tokens config text kid jwk h' claims := by
  obtain ⟨header, key, second, hheader, halg, hkid, hkey, hsecond, hdecode⟩ := hsigned.signature
  obtain ⟨second', hsecond', hcontract⟩ := hsigned.contract
  exact ⟨⟨header, key, second, hheader, halg, hkid, hkey, hsub.subset hsecond, hdecode⟩,
    hsigned.asymmetric, second', hsub.subset hsecond', hcontract⟩

theorem prefix_concat (h : List TaskEvent) (ev : TaskEvent) : h <+: h ++ [ev] :=
  List.prefix_append h [ev]

/-- A refresh stores what it was sent, and returns it. -/
theorem wp_refreshJwks_published (h : List TaskEvent) :
    (refreshJwks tokens).wp (publishing tokens)
      (fun h' result => h <+: h' ∧ ∀ jwks, result = .ok jwks → Had tokens jwks h') h := by
  unfold refreshJwks
  rw [Proc.wp_bind]
  refine ⟨trivial, ?_⟩
  intro fetched _
  rw [Proc.wp_done]
  rcases hread : readFetched maxJwksResponseBytes "jwks" tokens.jwkSet fetched with
    error | ⟨_ | ⟨jwk, jwks⟩⟩
  · exact ⟨prefix_concat _ _, by simp⟩
  · exact ⟨prefix_concat _ _, by simp⟩
  · have hsent : Sent tokens (jwk :: jwks) ⟨.fetchJwks, fetched⟩ := ⟨fetched, rfl, hread⟩
    refine ⟨trivial, ?_⟩
    intro now _
    refine ⟨⟨h, _, List.append_assoc _ _ _, hsent⟩, ?_⟩
    intro _ _
    refine ⟨?_, ?_⟩
    · exact ((prefix_concat _ _).trans (prefix_concat _ _)).trans (prefix_concat _ _)
    · intro jwks' heq
      obtain rfl := Except.ok.inj heq
      exact Or.inr ⟨_, by simp, hsent⟩

theorem wp_cachedJwks_published (h : List TaskEvent) :
    (cachedJwks tokens).wp (publishing tokens)
      (fun h' result => h <+: h' ∧ ∀ jwks, result = .ok jwks → Had tokens jwks h') h := by
  unfold cachedJwks
  rw [Proc.wp_bind]
  refine ⟨trivial, ?_⟩
  intro cached _
  rw [Proc.wp_done]
  cases cached with
  | none =>
    refine Proc.wp_mono (wp_refreshJwks_published _) ?_
    rintro h' result ⟨hgrows, hhad⟩
    exact ⟨(prefix_concat _ _).trans hgrows, hhad⟩
  | some jwks =>
    refine ⟨prefix_concat _ _, ?_⟩
    intro jwks' heq
    obtain rfl := Except.ok.inj heq
    exact Or.inl (by simp)

/-- The key of an ID is found in a set that the request had. -/
theorem wp_jwkForKid_published (h : List TaskEvent) (kid : String) :
    (jwkForKid tokens kid).wp (publishing tokens)
      (fun h' result => h <+: h' ∧ ∀ jwk, result = .ok jwk →
        ∃ jwks, Had tokens jwks h' ∧ findJwk jwks kid = some jwk) h := by
  unfold jwkForKid
  rw [Proc.wp_bind]
  refine Proc.wp_mono (wp_cachedJwks_published h) ?_
  rintro h₁ found ⟨hgrows₁, hfound⟩
  cases found with
  | error error => exact ⟨hgrows₁, by simp⟩
  | ok jwks =>
    dsimp only
    cases hfind : findJwk jwks kid with
    | some jwk =>
      refine ⟨hgrows₁, ?_⟩
      intro jwk' heq
      obtain rfl := Except.ok.inj heq
      exact ⟨jwks, hfound jwks rfl, hfind⟩
    | none =>
      dsimp only
      rw [Proc.wp_bind]
      refine Proc.wp_mono (wp_refreshJwks_published h₁) ?_
      rintro h₂ found ⟨hgrows₂, hfound⟩
      cases found with
      | error error => exact ⟨hgrows₁.trans hgrows₂, by simp⟩
      | ok jwks =>
        dsimp only
        cases hfind : findJwk jwks kid with
        | some jwk =>
          refine ⟨hgrows₁.trans hgrows₂, ?_⟩
          intro jwk' heq
          obtain rfl := Except.ok.inj heq
          exact ⟨jwks, hfound jwks rfl, hfind⟩
        | none => exact ⟨hgrows₁.trans hgrows₂, by simp⟩

/-- What a decoded token was signed with. -/
theorem wp_decodeWith_signed {header : TokenHeader} (hheader : tokens.decodeHeader text = some header)
    (halg : isAsymmetricAlgorithm header.alg = true) (hkid : header.kid = some kid) (jwk : Jwk)
    (h : List TaskEvent) :
    (decodeWith tokens config text header.alg jwk).wp (publishing tokens)
      (fun h' result => h <+: h' ∧ ∀ identity claims, result = .ok (identity, claims) →
        identity = identityFromClaims claims ∧ SignedBy tokens config text kid jwk h' claims) h := by
  unfold decodeWith
  split
  · exact ⟨List.prefix_refl h, by simp⟩
  rename_i hoctet
  split
  · exact ⟨List.prefix_refl h, by simp⟩
  rename_i key hkey
  dsimp only
  rw [Proc.wp_bind]
  refine ⟨trivial, ?_⟩
  intro second _
  rw [Proc.wp_done]
  split
  · exact ⟨prefix_concat _ _, by simp⟩
  rename_i claims hdecode
  rw [Proc.wp_bind]
  refine ⟨trivial, ?_⟩
  intro second' _
  rw [Proc.wp_done]
  have hgrows : h <+: h ++ [⟨.unixSecs, second⟩] ++ [⟨.unixSecs, second'⟩] :=
    (prefix_concat _ _).trans (prefix_concat _ _)
  split
  · exact ⟨hgrows, by simp⟩
  · rename_i hcontract
    refine ⟨hgrows, ?_⟩
    intro identity claims' heq
    obtain ⟨rfl, rfl⟩ := Prod.mk.inj (Except.ok.inj heq)
    exact ⟨rfl, ⟨header, key, second, hheader, halg, hkid, hkey, by simp, hdecode⟩, by simpa using hoctet,
      second', by simp, hcontract⟩

/-- **What the check of a token went by.** -/
theorem wp_verifyJwt_signed (text : String) (h : List TaskEvent) :
    (verifyJwt tokens config text).wp (publishing tokens)
      (fun h' result => h <+: h' ∧ ∀ identity claims, result = .ok (identity, claims) →
        identity = identityFromClaims claims ∧ ∃ kid jwks jwk, Had tokens jwks h' ∧
          findJwk jwks kid = some jwk ∧ SignedBy tokens config text kid jwk h' claims) h := by
  unfold verifyJwt
  split
  · exact ⟨List.prefix_refl h, by simp⟩
  rename_i header hheader
  split
  · exact ⟨List.prefix_refl h, by simp⟩
  rename_i halg
  split
  · exact ⟨List.prefix_refl h, by simp⟩
  rename_i kid hkid
  rw [Proc.wp_bind]
  refine Proc.wp_mono (wp_jwkForKid_published h kid) ?_
  rintro h₁ found ⟨hgrows₁, hfound⟩
  cases found with
  | error error => exact ⟨hgrows₁, by simp⟩
  | ok jwk =>
    dsimp only
    obtain ⟨jwks, hhad, hfind⟩ := hfound jwk rfl
    refine Proc.wp_mono (wp_decodeWith_signed hheader (by simpa using halg) hkid jwk h₁) ?_
    rintro h₂ result ⟨hgrows₂, hsigned⟩
    refine ⟨hgrows₁.trans hgrows₂, ?_⟩
    intro identity claims heq
    obtain ⟨hidentity, hsigned⟩ := hsigned identity claims heq
    exact ⟨hidentity, kid, jwks, jwk, hhad.mono hgrows₂, hfind, hsigned⟩

/-- An identity that a token gave: what its check went by, and that the gate allowed it. -/
def Granted (tokens : Tokens) (config : AuthConfig) (text : String) (h : List TaskEvent)
    (identity : VerifiedIdentity) : Prop :=
  ∃ claims kid jwks jwk, identity = identityFromClaims claims ∧ Had tokens jwks h ∧
    findJwk jwks kid = some jwk ∧ SignedBy tokens config text kid jwk h claims ∧
    ∃ second : ℕ, ⟨.unixSecs, second⟩ ∈ h ∧ ⟨.authorizeRevocation claims second, .allowed⟩ ∈ h

theorem wp_cacheDecision_published (key : String) (identity : Option VerifiedIdentity) (ttl : ℕ)
    (h : List TaskEvent) : (cacheDecision key identity ttl).wp (publishing tokens)
      (fun _ _ => True) h := by
  unfold cacheDecision
  split
  · trivial
  · exact ⟨trivial, fun _ _ => ⟨trivial, fun _ _ => trivial⟩⟩

theorem authorizedIdentity_eq_ok {identity identity' : VerifiedIdentity}
    {authorization : Revocation.Authorization}
    (h : authorizedIdentity env identity authorization = .ok identity') :
    authorization = .allowed ∧ identity = identity' := by
  cases authorization with
  | allowed => exact ⟨rfl, Except.ok.inj h⟩
  | revoked => exact absurd h (by simp [authorizedIdentity])
  | unavailable reason => exact absurd h (by simp [authorizedIdentity])

/-- What is left to do once a token is checked. -/
theorem wp_checked_granted {text : String} (h : List TaskEvent)
    {k : Except AuthError (VerifiedIdentity × Claims) → Task (Except Response VerifiedIdentity)}
    (herror : ∀ error, k (.error error) =
      cacheDecision (credentialCacheKey env "invalid_jwt" text) none config.negativeCacheTtl >>=
        fun _ => pure (.error (invalidJwt env)))
    (hok : ∀ identity claims, k (.ok (identity, claims)) =
      .call .unixSecs fun now => .call (.authorizeRevocation claims now) fun authorization =>
        .done (authorizedIdentity env identity authorization)) :
    (verifyJwt tokens config text >>= k).wp (publishing tokens)
      (fun h' result => ∀ identity, result = .ok identity →
        Granted tokens config text h' identity) h := by
  rw [Proc.wp_bind]
  refine Proc.wp_mono (wp_verifyJwt_signed text h) ?_
  rintro h₁ found ⟨-, hfound⟩
  cases found with
  | error error =>
    rw [herror, Proc.wp_bind]
    refine Proc.wp_mono (wp_cacheDecision_published _ _ _ h₁) ?_
    intro h₂ _ _ identity heq
    exact absurd heq (by simp)
  | ok verified =>
    obtain ⟨identity, claims⟩ := verified
    obtain ⟨rfl, kid, jwks, jwk, hhad, hfind, hsigned⟩ := hfound identity claims rfl
    rw [hok]
    refine ⟨trivial, ?_⟩
    intro second _
    refine ⟨trivial, ?_⟩
    intro authorization _ identity heq
    obtain ⟨rfl, rfl⟩ := authorizedIdentity_eq_ok heq
    have hgrows := (prefix_concat h₁ ⟨.unixSecs, second⟩).trans
      (prefix_concat _ ⟨.authorizeRevocation claims second, .allowed⟩)
    exact ⟨claims, kid, jwks, jwk, rfl, hhad.mono hgrows, hfind, hsigned.mono hgrows, second,
      by simp, by simp⟩

theorem wp_authenticateJwt_granted (text : String) :
    (authenticateJwt env tokens config text).wp (publishing tokens)
      (fun h result => ∀ identity, result = .ok identity →
        Granted tokens config text h identity) [] := by
  unfold authenticateJwt
  refine ⟨trivial, ?_⟩
  intro cached _
  dsimp only [Proc.bind]
  rcases cached with _ | ⟨_ | identity⟩
  · exact wp_checked_granted _ (fun _ => rfl) fun _ _ => rfl
  · intro identity heq
    exact absurd heq (by simp)
  · exact wp_checked_granted _ (fun _ => rfl) fun _ _ => rfl

/-- An API key has nothing to do with the published keys. -/
theorem wp_authenticateApiKey_published (text : String) :
    (authenticateApiKey env tokens config text).wp (publishing tokens) (fun _ _ => True) [] := by
  unfold authenticateApiKey
  refine ⟨trivial, ?_⟩
  intro cached _
  dsimp only [Proc.bind]
  rcases cached with _ | ⟨_ | identity⟩
  · refine ⟨trivial, ?_⟩
    intro fetched _
    dsimp only [Proc.bind]
    rw [Proc.pure_eq]
    dsimp only [Proc.bind]
    split
    · trivial
    · split
      · rw [Proc.wp_bind]
        exact Proc.wp_mono (wp_cacheDecision_published _ _ _ _) fun _ _ _ => trivial
      · rw [Proc.wp_bind]
        exact Proc.wp_mono (wp_cacheDecision_published _ _ _ _) fun _ _ _ => trivial
  · trivial
  · trivial

variable {headers : HeaderMap} {expectedSecret : Option String}

/-- **What a request does with the keys**, and what an identity that its token gives rests
on. -/
theorem wp_request_granted (env : Env) (tokens : Tokens) (config : AuthConfig)
    (headers : HeaderMap) (expectedSecret : Option String) :
    (requestIdentityWithSecret env tokens config headers expectedSecret).wp (publishing tokens)
      (fun h result => ∀ text identity,
        credentialOf config headers expectedSecret = some (.jwt text) →
          result = .ok (some identity) → Granted tokens config text h identity) [] := by
  cases hcredential : credentialOf config headers expectedSecret with
  | none =>
    obtain ⟨result, hresult⟩ : ∃ result, requestIdentityWithSecret env tokens config headers
        expectedSecret = .done result := requestIdentityWithSecret_of_none hcredential
    rw [hresult]
    intro text identity heq
    exact absurd heq (by simp)
  | some credential =>
    rw [requestIdentityWithSecret_of_some hcredential, Proc.wp_bind]
    cases credential with
    | apiKey text =>
      refine Proc.wp_mono (wp_authenticateApiKey_published text) ?_
      intro h result _ text' identity heq
      exact absurd heq (by simp)
    | jwt text =>
      refine Proc.wp_mono (wp_authenticateJwt_granted text) ?_
      intro h result hgranted text' identity heq hresult
      obtain rfl := Credential.jwt.inj (Option.some.inj heq)
      cases result with
      | error response => exact absurd hresult (by simp [Except.map])
      | ok identity' =>
        obtain rfl := Option.some.inj (Except.ok.inj hresult)
        exact hgranted identity' rfl

/-! ## All requests over the keys -/

/-- A set of keys, with the Instant it arrived at. -/
structure CachedJwks where
  fetchedAt : Instant
  jwks : List Jwk

/-- The set, if it is recent enough. -/
def CachedJwks.recent (cached : CachedJwks) (ttl : ℕ) (now : Instant) : Option (List Jwk) :=
  if now - cached.fetchedAt < ttl then some cached.jwks else none

/-- What the requests share, the keys included. -/
structure Caches extends Shared where
  jwks : Option CachedJwks

/-- Does this call concern the keys? -/
def Call.IsJwks : Call → Prop
  | .cachedJwks => True
  | .storeJwks _ _ => True
  | _ => False

/-- One call of a request, over the keys. -/
inductive ServiceExec (jwksTtl : ℕ) : Caches → (e : Call) → e.Answer → Caches → Prop
  | cachedJwks (s : Caches) :
      ServiceExec jwksTtl s .cachedJwks (s.jwks.bind (·.recent jwksTtl s.clock)) s
  | storeJwks (s : Caches) (jwks : List Jwk) (now : Instant) :
      ServiceExec jwksTtl s (.storeJwks jwks now) () { s with jwks := some ⟨now, jwks⟩ }
  | other {s : Caches} {e : Call} {answer : e.Answer} {shared : Shared} (he : ¬e.IsJwks) :
      DecisionExec s.toShared e answer shared →
        ServiceExec jwksTtl s e answer { s with toShared := shared }

/-- Any requests, at any time, over the decisions and the keys. -/
def authService (env : Env) (tokens : Tokens) (config : AuthConfig) (jwksTtl : ℕ) :
    Machine Call Call.Answer (Except Response (Option VerifiedIdentity)) Caches where
  start _ p := ∃ headers expectedSecret,
    p = requestIdentityWithSecret env tokens config headers expectedSecret
  exec _ := ServiceExec jwksTtl
  env s s' := s'.decisions = s.decisions ∧ s'.jwks = s.jwks ∧ s.clock ≤ s'.clock
  drop _ _ s s' := s' = s

/-- What is known of the requests without the keys is known of them with the keys. -/
theorem authService_refines (env : Env) (tokens : Tokens) (config : AuthConfig) (jwksTtl : ℕ) :
    (authService env tokens config jwksTtl).Refines (authGate env tokens config)
      Caches.toShared where
  start h := h
  exec := by
    intro i s e answer s' hexec
    cases hexec with
    | cachedJwks => exact .other _ id (by simp)
    | storeJwks jwks now => exact .other _ id (by simp)
    | other _ hexec => exact hexec
  env h := ⟨h.1, h.2.2⟩
  drop h := congrArg Caches.toShared h

abbrev CachesMoment : Type :=
  Moment Call Call.Answer (Except Response (Option VerifiedIdentity)) Caches

/-- Call `j` was sent this set, took the Instant `stamp` after that, and stored it. -/
structure Stamped (tokens : Tokens) (jwks : List Jwk) (stamp : Instant) (j : ℕ)
    (h : List CachesMoment) : Prop where
  /-- The set had arrived by the Instant it is stored under. -/
  arrived : ∃ m ∈ h, ∃ ev, m.label = .answer j ev ∧ Sent tokens jwks ev ∧ m.after.clock ≤ stamp
  stored : ⟨.storeJwks jwks stamp, ()⟩ ∈ own j h

section

variable {jwksTtl : ℕ} {start : Caches} {h h' : List CachesMoment} {m : CachesMoment}
  {c : Config Call Call.Answer (Except Response (Option VerifiedIdentity)) Caches} {i j : ℕ}
  {stamp : Instant} {jwks : List Jwk}

theorem Stamped.append (hstamped : Stamped tokens jwks stamp j h) (h' : List CachesMoment) :
    Stamped tokens jwks stamp j (h ++ h') := by
  obtain ⟨m, hm, hsent⟩ := hstamped.arrived
  refine ⟨⟨m, List.mem_append_left _ hm, hsent⟩, ?_⟩
  rw [own_append]
  exact List.mem_append_left _ hstamped.stored

/-- **A moment leaves the keys alone or stores a set.** -/
theorem jwks_cases (hm : (authService env tokens config jwksTtl).Allowed m) :
    m.before.clock ≤ m.after.clock ∧ (m.after.jwks = m.before.jwks ∨
      ∃ j jwks now, m.label = .answer j ⟨.storeJwks jwks now, ()⟩ ∧
        m.after.jwks = some ⟨now, jwks⟩) := by
  obtain ⟨label, before, after⟩ := m
  cases label with
  | start j p =>
    obtain rfl : after = before := hm.2
    exact ⟨le_rfl, Or.inl rfl⟩
  | env =>
    obtain ⟨-, hsame, hle⟩ := hm
    exact ⟨hle, Or.inl hsame⟩
  | drop j =>
    obtain ⟨p, hsame⟩ := hm
    obtain rfl : after = before := hsame
    exact ⟨le_rfl, Or.inl rfl⟩
  | answer j ev =>
    obtain ⟨e, answer⟩ := ev
    have hexec : ServiceExec jwksTtl before e answer after := hm
    cases hexec with
    | cachedJwks => exact ⟨le_rfl, Or.inl rfl⟩
    | storeJwks jwks now => exact ⟨le_rfl, Or.inr ⟨j, jwks, now, rfl, rfl⟩⟩
    | other _ hexec =>
      refine ⟨?_, Or.inl rfl⟩
      cases hexec <;> exact le_rfl

theorem instantNow_service {s s' : Caches} {now : Instant}
    (hexec : ServiceExec jwksTtl s .instantNow now s') : now = s.clock := by
  cases hexec with
  | other _ hexec => exact instantNow_answer hexec

theorem cachedJwks_answer {s s' : Caches} {found : Option (List Jwk)}
    (hexec : ServiceExec jwksTtl s .cachedJwks found s') :
    found = s.jwks.bind (·.recent jwksTtl s.clock) := by
  cases hexec with
  | cachedJwks => rfl
  | other he _ => exact absurd trivial he

/-- Nothing happened later than now. -/
theorem clock_le_of_mem (hrun : (authService env tokens config jwksTtl).Run start h c)
    (hm : m ∈ h) : m.after.clock ≤ c.shared.clock := by
  induction hrun with
  | init => exact absurd hm (by simp)
  | @step h c c' m' hrun hstep ih =>
    rcases List.mem_append.1 hm with hold | hnew
    · have hclock := (jwks_cases hstep.allowed).1
      rw [hstep.before, hstep.after] at hclock
      exact (ih hold).trans hclock
    · rw [List.mem_singleton.1 hnew, hstep.after]

/-- A request keeps its contract whatever the others do. -/
theorem publishing_of_run (hrun : (authService env tokens config jwksTtl).Run start h c)
    {pre post : List CachesMoment} {ev : TaskEvent} {b a : Caches}
    (hsplit : h = pre ++ ⟨.answer j ev, b, a⟩ :: post) :
    (publishing tokens).guarantee (own j pre) ev.1 := by
  have hmem : (⟨.answer j ev, b, a⟩ : CachesMoment) ∈ h := by
    rw [hsplit]
    exact List.mem_append_right _ List.mem_cons_self
  obtain ⟨p, hst⟩ := hrun.started_of_answer (mem_own hmem rfl)
  obtain ⟨-, headers, expectedSecret, rfl⟩ := hrun.start_of_started hst
  exact hrun.own_guarantee (K := publishing tokens) hst
    (wp_request_granted env tokens config headers expectedSecret)
    (fun _ _ _ _ _ _ => trivial) hsplit

/-- What is stored was sent, and had arrived. -/
theorem stamped_of_store
    (hrun : (authService env tokens config jwksTtl).Run start (h ++ [m]) c)
    (hlabel : m.label = .answer j ⟨.storeJwks jwks stamp, ()⟩) :
    Stamped tokens jwks stamp j (h ++ [m]) := by
  obtain ⟨label, b, a⟩ := m
  obtain rfl : label = _ := hlabel
  obtain ⟨before, ev, hown, hsent⟩ := publishing_of_run hrun rfl
  -- the Instant was read, after the answer
  obtain ⟨pre, b₁, a₁, post, hpre, hbefore⟩ := own_split
    (show own j h = (before ++ [ev]) ++ ⟨.instantNow, stamp⟩ :: [] by rw [hown]; simp)
  obtain ⟨pre₂, b₂, a₂, post₂, hpre₂⟩ := exists_of_mem_own
    (show ev ∈ own j pre by rw [hbefore]; simp)
  obtain ⟨c', hrun', -⟩ := hrun.of_concat
  rw [hpre] at hrun'
  obtain ⟨c₁, c₂, hrun₁, hstep⟩ := hrun'.cut
  obtain rfl : b₁ = c₁.shared := hstep.before
  have hread : stamp = c₁.shared.clock := instantNow_service hstep.allowed
  refine ⟨⟨⟨.answer j ev, b₂, a₂⟩, ?_, ev, rfl, hsent, ?_⟩, ?_⟩
  · rw [hpre, hpre₂]
    simp
  · rw [hread]
    exact clock_le_of_mem hrun₁ (by simp [hpre₂])
  · exact mem_own (List.mem_append_right _ List.mem_cons_self) rfl

/-- **Every set that is stored was sent**, and had arrived at the Instant it is stored
under. -/
theorem stamped_of_run (hrun : (authService env tokens config jwksTtl).Run start h c)
    (hempty : start.jwks = none) {cached : CachedJwks} (hcached : c.shared.jwks = some cached) :
    ∃ j, Stamped tokens cached.jwks cached.fetchedAt j h := by
  induction hrun with
  | init =>
    rw [hempty] at hcached
    exact absurd hcached (by simp)
  | @step h c c' m hrun hstep ih =>
    rw [← hstep.after] at hcached
    obtain ⟨-, hsame | ⟨j, jwks, now, hlabel, hstored⟩⟩ := jwks_cases hstep.allowed
    · rw [hsame, hstep.before] at hcached
      obtain ⟨j, hstamped⟩ := ih hcached
      exact ⟨j, hstamped.append _⟩
    · obtain rfl := Option.some.inj (hstored.symm.trans hcached)
      exact ⟨j, stamped_of_store (hrun.step hstep) hlabel⟩

/-- The Instant of a set is not in the future. -/
theorem Stamped.le_clock (hstamped : Stamped tokens jwks stamp j h)
    (hrun : (authService env tokens config jwksTtl).Run start h c) : stamp ≤ c.shared.clock := by
  obtain ⟨pre, b, a, post, hsplit⟩ := exists_of_mem_own hstamped.stored
  obtain ⟨before, ev, hown, -⟩ := publishing_of_run hrun hsplit
  have htaken : ⟨.instantNow, stamp⟩ ∈ own j (h.map (.map Caches.toShared)) := by
    rw [own_map, hsplit, own_append, hown]
    simp
  exact instant_le (hrun.map (authService_refines env tokens config jwksTtl)) htaken

/-- A request that has a set from the cache has one that is recent. -/
theorem stamped_of_cached (hrun : (authService env tokens config jwksTtl).Run start h c)
    (hempty : start.jwks = none) (hev : ⟨.cachedJwks, some jwks⟩ ∈ own i h) :
    ∃ pre b a post j stamp, h = pre ++ ⟨.answer i ⟨.cachedJwks, some jwks⟩, b, a⟩ :: post ∧
      Stamped tokens jwks stamp j pre ∧ stamp ≤ b.clock ∧ b.clock - stamp < jwksTtl := by
  obtain ⟨pre, b, a, post, rfl⟩ := exists_of_mem_own hev
  obtain ⟨c₁, c₂, hrun₁, hstep⟩ := hrun.cut
  obtain rfl : b = c₁.shared := hstep.before
  have hread : some jwks = c₁.shared.jwks.bind (·.recent jwksTtl c₁.shared.clock) :=
    cachedJwks_answer hstep.allowed
  obtain ⟨cached, hcached, hrecent⟩ := Option.bind_eq_some_iff.1 hread.symm
  unfold CachedJwks.recent at hrecent
  split at hrecent
  · rename_i hlt
    obtain rfl := Option.some.inj hrecent
    obtain ⟨j, hstamped⟩ := stamped_of_run hrun₁ hempty hcached
    exact ⟨pre, c₁.shared, a, post, j, cached.fetchedAt, rfl, hstamped, hstamped.le_clock hrun₁,
      hlt⟩
  · exact absurd hrecent (by simp)

/-- Request `i` had this key from the service itself, or from a set stored less than `jwksTtl`
before, under an Instant by which it had arrived. -/
def Current (tokens : Tokens) (jwksTtl : ℕ) (h : List CachesMoment) (i : ℕ) (kid : String)
    (jwk : Jwk) : Prop :=
  ∃ jwks, findJwk jwks kid = some jwk ∧ ((∃ ev ∈ own i h, Sent tokens jwks ev) ∨
    ∃ pre b a post j stamp, h = pre ++ ⟨.answer i ⟨.cachedJwks, some jwks⟩, b, a⟩ :: post ∧
      Stamped tokens jwks stamp j pre ∧ stamp ≤ b.clock ∧ b.clock - stamp < jwksTtl)

theorem current_of_had (hrun : (authService env tokens config jwksTtl).Run start h c)
    (hempty : start.jwks = none) (hhad : Had tokens jwks (own i h))
    (hfind : findJwk jwks kid = some jwk) : Current tokens jwksTtl h i kid jwk := by
  refine ⟨jwks, hfind, ?_⟩
  rcases hhad with hcached | hsent
  · exact Or.inr (stamped_of_cached hrun hempty hcached)
  · exact Or.inl hsent

end

end

/-- Request `i` was shown a token that makes these claims, signed by a current key. -/
def Shown (tokens : Tokens) (config : AuthConfig) (jwksTtl : ℕ) (h : List CachesMoment) (i : ℕ)
    (text : String) (claims : Claims) : Prop :=
  ∃ kid jwk, SignedBy tokens config text kid jwk (own i h) claims ∧
    Current tokens jwksTtl h i kid jwk

theorem shown_of_run (env : Env) (tokens : Tokens) (config : AuthConfig) (jwksTtl : ℕ)
    {start : Caches} (hempty : start.jwks = none) {h : List CachesMoment}
    {c : Config Call Call.Answer (Except Response (Option VerifiedIdentity)) Caches}
    (hrun : (authService env tokens config jwksTtl).Run start h c) {i : ℕ} {headers : HeaderMap}
    {expectedSecret : Option String} {text : String} {identity : VerifiedIdentity}
    (hst : Started h i (requestIdentityWithSecret env tokens config headers expectedSecret))
    (hcredential : credentialOf config headers expectedSecret = some (.jwt text))
    (hresult : c.result i = some (.ok (some identity))) :
    ∃ claims, identity = identityFromClaims claims ∧
      Shown tokens config jwksTtl h i text claims ∧
      ∃ second : ℕ, ⟨.unixSecs, second⟩ ∈ own i h ∧
        ⟨.authorizeRevocation claims second, .allowed⟩ ∈ own i h := by
  obtain ⟨claims, kid, jwks, jwk, hidentity, hhad, hfind, hsigned, hallowed⟩ :=
    hrun.own_result (K := publishing tokens) hst
      (wp_request_granted env tokens config headers expectedSecret)
      (fun _ _ _ _ _ _ => trivial) (Config.result_eq_some.1 hresult) text identity hcredential rfl
  exact ⟨claims, hidentity, ⟨kid, jwk, hsigned, current_of_had hrun hempty hhad hfind⟩, hallowed⟩

/-- **A token gives an identity only on current evidence**, however many requests authenticate
at once, in whatever order they store the sets of keys they were sent, and whatever the auth
service answers: the identity is that of claims which passed every check at a second of this
very request, signed by a key that is no shared secret, which the auth service published under
the token's ID, in a set sent to this request or stored less than `jwksTtl` before it was used;
and the revocation gate allowed these claims to this very request. -/
theorem jwt_grounded (env : Env) (tokens : Tokens) (config : AuthConfig) (jwksTtl : ℕ)
    {start : Caches} (hempty : start.jwks = none) {h : List CachesMoment}
    {c : Config Call Call.Answer (Except Response (Option VerifiedIdentity)) Caches}
    (hrun : (authService env tokens config jwksTtl).Run start h c) {i : ℕ} {headers : HeaderMap}
    {expectedSecret : Option String} {text : String} {identity : VerifiedIdentity}
    (hst : Started h i (requestIdentityWithSecret env tokens config headers expectedSecret))
    (hcredential : credentialOf config headers expectedSecret = some (.jwt text))
    (hresult : c.result i = some (.ok (some identity))) :
    ∃ claims kid jwk, identity = identityFromClaims claims ∧
      SignedBy tokens config text kid jwk (own i h) claims ∧
      Current tokens jwksTtl h i kid jwk ∧
      ∃ second : ℕ, ⟨.unixSecs, second⟩ ∈ own i h ∧
        ⟨.authorizeRevocation claims second, .allowed⟩ ∈ own i h := by
  obtain ⟨claims, hidentity, ⟨kid, jwk, hsigned, hcurrent⟩, hallowed⟩ :=
    shown_of_run env tokens config jwksTtl hempty hrun hst hcredential hresult
  exact ⟨claims, kid, jwk, hidentity, hsigned, hcurrent, hallowed⟩

/-! ## Playing requests over the keys -/

deriving instance DecidableEq for Credential

/-- Answer a call, the keys included; the auth service answers with what it is given. -/
def serviceWith (jwksTtl : ℕ) (fetched : Fetched) (i : ℕ) (s : Caches) (e : Call) :
    Option (e.Answer × Caches) :=
  match e with
  | .cachedJwks => some (s.jwks.bind (·.recent jwksTtl s.clock), s)
  | .storeJwks jwks now => some ((), { s with jwks := some ⟨now, jwks⟩ })
  | e =>
    (answerWith fetched i s.toShared e).map fun done => (done.1, { s with toShared := done.2 })

theorem exec_of_serviceWith {jwksTtl : ℕ} {fetched : Fetched} {i : ℕ} {s s' : Caches} {e : Call}
    {answer : e.Answer} (h : serviceWith jwksTtl fetched i s e = some (answer, s')) :
    ServiceExec jwksTtl s e answer s' := by
  have hother : ¬e.IsJwks → (answerWith fetched i s.toShared e).map (fun done =>
      (done.1, ({ s with toShared := done.2 } : Caches))) = some (answer, s') →
      ServiceExec jwksTtl s e answer s' := by
    intro he h
    obtain ⟨⟨answer', shared⟩, hexec, hdone⟩ := Option.map_eq_some_iff.1 h
    obtain ⟨rfl, rfl⟩ := Prod.mk.inj hdone
    exact .other he (exec_of_answerWith hexec)
  cases e with
  | cachedJwks =>
    obtain ⟨rfl, rfl⟩ := Prod.mk.inj (Option.some.inj h)
    exact .cachedJwks s
  | storeJwks jwks now =>
    obtain ⟨rfl, rfl⟩ := Prod.mk.inj (Option.some.inj h)
    exact .storeJwks s jwks now
  | _ => exact hother id h

/-- The requests over the keys, driven: one is started with these headers, and the clock
ticks. -/
def serviceSimulation (env : Env) (tokens : Tokens) (config : AuthConfig) (jwksTtl : ℕ) :
    Machine.Driver (authService env tokens config jwksTtl) where
  Job := HeaderMap
  Choice := Fetched
  Turn := ℕ
  start headers _ := some (requestIdentityWithSecret env tokens config headers none)
  exec := serviceWith jwksTtl
  env ticks s := some { s with clock := s.clock + ticks }
  start_sound := fun {headers _ _} h => ⟨headers, none, (Option.some.inj h).symm⟩
  exec_sound := exec_of_serviceWith
  env_sound := fun {ticks s _} h => by
    obtain rfl := Option.some.inj h
    exact ⟨rfl, rfl, Nat.le_add_right s.clock ticks⟩

namespace Sample

/-- What the token `a.b.c` claims. -/
def claims : Claims where
  sub := "a"
  orgId := "a"
  scopes := ["kv:read"]
  iss := "fiducia-auth"
  aud := "fiducia-api"
  iat := 0
  exp := 300
  jti := "j"
  fits := by decide +kernel

/-- An auth service that publishes the key `k`, which every token is signed with. -/
def signing : Tokens :=
  { keyed with
    jwkSet := fun _ => some [{ keyId := some "k", octetKey := false, material := [] }]
    decodingKey := fun jwk => some jwk.material
    decode := fun _ _ _ _ => some claims }

def keysDriver : Machine.Driver (authService Reference.env signing config 600) :=
  serviceSimulation Reference.env signing config 600

/-- A request with the token `a.b.c`. -/
def tokenHeaders : HeaderMap := ⟨[("authorization", ⟨utf8 "Bearer a.b.c", by decide⟩)]⟩

/-- The next call of request `i` is answered; the auth service answers. -/
def published (i : ℕ) : keysDriver.Move := .answer i (.response .ok (some []))

end Sample

/-- The second of two requests with a token, 59 seconds after the first, uses the set that the
first one was sent. -/
theorem jwt_grounded_twice : ∃ h c,
    (authService Reference.env Sample.signing Sample.config 600).Run ⟨⟨∅, 0⟩, none⟩ h c ∧
      c.shared.clock = 59 ∧ ∃ kid jwk, Current Sample.signing 600 h 1 kid jwk := by
  obtain ⟨h₁, c₁, h₂, c₂, hplay₁, hplay₂, hfound⟩ := Sample.keysDriver.exists_play
    (.initial ⟨⟨∅, 0⟩, none⟩)
    (.start Sample.tokenHeaders :: List.replicate 9 (Sample.published 0) ++ [.env (59 : ℕ)])
    (.start Sample.tokenHeaders :: List.replicate 6 (Sample.published 1))
    (fun _ c₁ _ c₂ => c₁.next = 1 ∧ c₂.shared.clock = 59 ∧
      (Sample.identified (c₂.result 1)).isSome)
    (by decide +kernel)
  obtain ⟨hnext, hclock, hidentified⟩ := of_decide_eq_true hfound
  obtain ⟨identity, hidentity⟩ := Option.isSome_iff_exists.1 hidentified
  have hrun := Sample.keysDriver.run_of_play (Sample.keysDriver.run_of_play .init hplay₁) hplay₂
  have hst := Sample.keysDriver.started_of_play hplay₂ rfl
  rw [hnext] at hst
  have hcredential : credentialOf Sample.config Sample.tokenHeaders none = some (.jwt "a.b.c") := by
    decide +kernel
  obtain ⟨-, kid, jwk, -, -, hcurrent, -⟩ := jwt_grounded Reference.env Sample.signing
    Sample.config 600 rfl hrun (started_append.2 (Or.inr hst)) hcredential
    (Sample.eq_of_identified hidentity)
  exact ⟨_, c₂, hrun, hclock, kid, jwk, hcurrent⟩

end Auth

end LoadBalance
