import FiduciaLoadBalance.Auth.Keys

/-!
# What an identity stands on

A request that is let in has an identity, or none.  Whichever it is, there is a reason for
it, and the reason is this request's own: what an edge vouches for in its headers, an answer
of the auth service on the API key that it sends, a signature on the token that it sends, or
that nobody has to send anything.

* `Introspected` — what an API key gives, with `introspected_of_run`;
* `Standing` — the four reasons;
* `standing_of_run` — there is one of them for every request that is let in.
-/

namespace LoadBalance

open Http Text Conc Machine

namespace Auth

/-- Request `i` was told by the auth service that the key is of this identity, or by the cache,
less than `cacheTtl` after a request that was told so. -/
def Introspected (env : Env) (tokens : Tokens) (config : AuthConfig) (h : List AuthMoment)
    (i : ℕ) (text : String) (identity : VerifiedIdentity) : Prop :=
  (∃ ev ∈ own i h, Replied tokens text (some identity) ev) ∨
    ∃ pre b a post j t₀, h = pre ++ ⟨.answer i
        ⟨.cachedDecision (credentialCacheKey env "api_key" text), some (some identity)⟩, b, a⟩ ::
          post ∧
      Recorded env tokens config (.apiKey text) (some identity) t₀ j pre ∧
      t₀ ≤ b.clock ∧ b.clock < t₀ + config.cacheTtl

/-- What an identity of a request with these headers stands on, or the absence of one. -/
inductive Standing (env : Env) (tokens : Tokens) (config : AuthConfig) (jwksTtl : ℕ)
    (h : List CachesMoment) (i : ℕ) (headers : HeaderMap) (expectedSecret : Option String) :
    Option VerifiedIdentity → Prop
  /-- Nobody vouches for the request, it has no credential, and needs none. -/
  | anonymous (hedge : trustedEdgeIdentity headers expectedSecret = none)
      (hnone : extractCredential headers = none) (hrequired : config.required = false) :
      Standing env tokens config jwksTtl h i headers expectedSecret none
  | edge {identity : VerifiedIdentity} (hvouched : Vouched headers expectedSecret identity) :
      Standing env tokens config jwksTtl h i headers expectedSecret (some identity)
  | apiKey {text : String} {identity : VerifiedIdentity}
      (hcredential : credentialOf config headers expectedSecret = some (.apiKey text))
      (hintrospected : Introspected env tokens config (h.map (.map Caches.toShared)) i text
        identity) :
      Standing env tokens config jwksTtl h i headers expectedSecret (some identity)
  | jwt {text : String} {claims : Revocation.Claims} {second : ℕ}
      (hcredential : credentialOf config headers expectedSecret = some (.jwt text))
      (hshown : Shown tokens config jwksTtl h i text claims)
      (hallowed : ⟨.authorizeRevocation claims second, .allowed⟩ ∈ own i h) :
      Standing env tokens config jwksTtl h i headers expectedSecret
        (some (identityFromClaims claims))

section

variable {env : Env} {tokens : Tokens} {config : AuthConfig} {headers : HeaderMap}
  {expectedSecret : Option String} {i : ℕ}

/-- A request that no credential decides on is let in by its edge, or because it has none and
needs none. -/
theorem requestIdentityWithSecret_uncredited (env : Env) (tokens : Tokens)
    (h : credentialOf config headers expectedSecret = none) :
    ∃ result, requestIdentityWithSecret env tokens config headers expectedSecret =
      .done result ∧ ∀ identity, result = .ok identity →
        identity = trustedEdgeIdentity headers expectedSecret ∧
        (identity = none → extractCredential headers = none ∧ config.required = false) := by
  unfold credentialOf at h
  unfold requestIdentityWithSecret authenticate
  cases hedge : trustedEdgeIdentity headers expectedSecret with
  | some caller =>
    refine ⟨.ok (some caller), rfl, ?_⟩
    intro identity heq
    obtain rfl := Except.ok.inj heq
    exact ⟨rfl, fun hnone => absurd hnone (by simp)⟩
  | none =>
    rw [hedge, if_neg (by simp)] at h
    cases htext : extractCredential headers with
    | none =>
      dsimp only
      cases hrequired : config.required with
      | true => exact ⟨_, rfl, by simp⟩
      | false =>
        refine ⟨.ok none, rfl, ?_⟩
        intro identity heq
        obtain rfl := Except.ok.inj heq
        exact ⟨rfl, fun _ => ⟨rfl, rfl⟩⟩
    | some text =>
      rw [htext, Option.bind_some] at h
      dsimp only
      by_cases hkey : isApiKey text = true
      · rw [if_pos hkey] at h ⊢
        cases hallowed : config.allowApiKeys with
        | false => exact ⟨_, rfl, by simp⟩
        | true => simp [hallowed] at h
      · rw [if_neg hkey] at h ⊢
        by_cases hjwt : looksLikeJwt text = true
        · rw [if_pos hjwt] at h ⊢
          cases hallowed : config.allowJwts with
          | false => exact ⟨_, rfl, by simp⟩
          | true => simp [hallowed] at h
        · rw [if_neg hjwt]
          exact ⟨_, rfl, by simp⟩

/-- **What an API key gives** was said by the auth service. -/
theorem introspected_of_run (hinj : env.CollisionFree) {start : Shared} {h : List AuthMoment}
    {c : Config Call Call.Answer (Except Response (Option VerifiedIdentity)) Shared}
    (hrun : (authGate env tokens config).Run start h c) (hempty : start.decisions = ∅)
    (hst : Started h i (requestIdentityWithSecret env tokens config headers expectedSecret))
    {text : String} (hcredential : credentialOf config headers expectedSecret = some (.apiKey text))
    {identity : VerifiedIdentity} (hresult : c.result i = some (.ok (some identity))) :
    Introspected env tokens config h i text identity := by
  have hidentified := hrun.own_result (K := deciding env tokens config (.apiKey text)) hst
    (wp_requestIdentityWithSecret hcredential) (fun _ _ _ _ _ _ => trivial)
    (Config.result_eq_some.1 hresult) text identity rfl rfl
  rcases hidentified with hcached | hreplied
  · obtain ⟨pre, b, a, post, rfl⟩ := exists_of_mem_own hcached
    obtain ⟨j, t₀, hrecorded, hle, hlt⟩ := recorded_of_cached hinj (.apiKey text) hrun hempty
    exact Or.inr ⟨pre, b, a, post, j, t₀, rfl, hrecorded, hle, hlt⟩
  · exact Or.inl hreplied

/-- **Every request that is let in stands on something**, whatever the others do. -/
theorem standing_of_run (hinj : env.CollisionFree) {jwksTtl : ℕ} {start : Caches}
    {h : List CachesMoment}
    {c : Config Call Call.Answer (Except Response (Option VerifiedIdentity)) Caches}
    (hrun : (authService env tokens config jwksTtl).Run start h c)
    (hempty : start.decisions = ∅) (hnokeys : start.jwks = none)
    (hst : Started h i (requestIdentityWithSecret env tokens config headers expectedSecret))
    {identity : Option VerifiedIdentity} (hresult : c.result i = some (.ok identity)) :
    Standing env tokens config jwksTtl h i headers expectedSecret identity := by
  cases hcredential : credentialOf config headers expectedSecret with
  | none =>
    obtain ⟨result, hdone, hstands⟩ :=
      requestIdentityWithSecret_uncredited env tokens hcredential
    rw [hdone] at hst
    obtain ⟨q, hsteps, hlast⟩ := hrun.own_steps hst
    obtain ⟨-, rfl⟩ := Proc.steps_done_iff.1 hsteps
    obtain rfl := Proc.done.inj (hlast _ (Config.result_eq_some.1 hresult))
    obtain ⟨hedge, hanonymous⟩ := hstands identity rfl
    cases identity with
    | none =>
      obtain ⟨hnone, hrequired⟩ := hanonymous rfl
      exact .anonymous hedge.symm hnone hrequired
    | some caller => exact .edge (trustedEdgeIdentity_eq_some_iff.1 hedge.symm)
  | some credential =>
    cases identity with
    | none =>
      rw [requestIdentityWithSecret_of_some hcredential] at hst
      obtain ⟨q, hsteps, hlast⟩ := hrun.own_steps hst
      rw [← hlast _ (Config.result_eq_some.1 hresult)] at hsteps
      obtain ⟨result, h₁, h₂, -, -, hdone⟩ := hsteps.bind_done
      obtain ⟨-, hdone⟩ := Proc.steps_done_iff.1 hdone
      cases result with
      | error response => exact absurd (Proc.done.inj hdone) (by simp [Except.map])
      | ok caller => exact absurd (Proc.done.inj hdone) (by simp [Except.map])
    | some caller =>
      cases credential with
      | apiKey text =>
        refine .apiKey hcredential ?_
        have hauth := hrun.map (authService_refines env tokens config jwksTtl)
        exact introspected_of_run hinj hauth hempty ((started_map _).2 hst) hcredential hresult
      | jwt text =>
        obtain ⟨claims, rfl, hshown, second, -, hallowed⟩ :=
          shown_of_run env tokens config jwksTtl hnokeys hrun hst hcredential hresult
        exact .jwt hcredential hshown hallowed

end

end Auth

end LoadBalance
