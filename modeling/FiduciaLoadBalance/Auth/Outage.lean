import FiduciaLoadBalance.Auth.Decisions

/-!
# An outage is not a verdict

Where the auth service could not be consulted nothing is known of a credential, and there
is nothing to remember.  An API key is answered so, unless the answer is a redirection that
reads like a verdict; a token that could not be checked is remembered as rejected.

* `Failed`, `Outage` — the answers, and the steps, at which the service was not consulted.
* `steps_authenticateApiKey_of_outage`, `steps_authenticateJwt_of_outage` — what a call does
  that met one and was refused: a key's call stops there, unless it misread the answer; a
  token's call records a rejection.
* `no_verdict_iff` — when such a call leaves the cache as it was and the next one free.
-/

namespace LoadBalance

open Http Conc

namespace Auth

open Revocation (Claims)

/-- Nothing was learned: there is no answer, or one whose status is no success, or whose body
breaks off, is too long or is malformed. -/
def Failed {α : Type} (limit : ℕ) (parse : Bytes → Option α) : Fetched → Prop
  | .failed => True
  | .response status body => status.isSuccess = false ∨
    ∀ whole, body = some whole → limit < whole.length ∨ parse whole = none

/-- The service could not be consulted: a fetch failed, or it brought a set of no keys. -/
def Outage (tokens : Tokens) : TaskEvent → Prop
  | ⟨.introspect _, fetched⟩ => Failed maxIntrospectionResponseBytes tokens.introspection fetched
  | ⟨.fetchJwks, fetched⟩ => Failed maxJwksResponseBytes tokens.jwkSet fetched ∨
    ∃ status body, fetched = .response status (some body) ∧ tokens.jwkSet body = some []
  | _ => False

/-- An introspection that is no success and that is read all the same: its status is that of
no error, a redirection say, and its body is whole, short enough and well formed. -/
def Misread (tokens : Tokens) (fetched : Fetched) : Prop :=
  ∃ status body, fetched = .response status (some body) ∧ status.isSuccess = false ∧
    ¬(400 ≤ status.code ∧ status.code < 600) ∧ body.length ≤ maxIntrospectionResponseBytes ∧
    tokens.introspection body ≠ none

/-! ## Credentials of either kind -/

inductive Credential : Type
  | apiKey (text : String)
  | jwt (text : String)

namespace Credential

/-- Authenticate this credential. -/
def authenticate (env : Env) (tokens : Tokens) (config : AuthConfig) :
    Credential → Task (Except Response VerifiedIdentity)
  | .apiKey text => authenticateApiKey env tokens config text
  | .jwt text => authenticateJwt env tokens config text

/-- Where decisions on this credential are remembered. -/
def cacheKey (env : Env) : Credential → String
  | .apiKey text => credentialCacheKey env "api_key" text
  | .jwt text => credentialCacheKey env "invalid_jwt" text

/-- A lookup with this answer decides the call: a key is decided by any decision, a token
by a rejection. -/
def DecidedBy : Credential → Option (Option VerifiedIdentity) → Prop
  | .apiKey _, cached => cached ≠ none
  | .jwt _, cached => cached = some none

end Credential

/-- The call left the cache as it was, and the next call for the credential is not decided
by the cache, however soon it comes. -/
structure NoVerdict (env : Env) (tokens : Tokens) (config : AuthConfig) (credential : Credential)
    (decisions decisions' : Decisions) (t' : Instant) : Prop where
  unchanged : decisions' = decisions
  next : ∀ tr q after t'', (credential.authenticate env tokens config).Steps tr q →
    Runs decisions' t' tr after t'' → ∀ cached rest,
      tr = ⟨.cachedDecision (credential.cacheKey env), cached⟩ :: rest →
        ¬credential.DecidedBy cached

section

variable {env : Env} {tokens : Tokens} {config : AuthConfig} {tr : List TaskEvent}

/-! ## Verifying a token -/

/-- The contract of the check of a token: it does not touch the decisions. -/
def verifying : Contract Call Call.Answer where
  rely _ _ _ := True
  guarantee _ e := ¬e.IsDecision

theorem wp_refreshJwks (h : List TaskEvent) :
    (refreshJwks tokens).wp verifying (fun _ _ => True) h := by
  rw [refreshJwks, Proc.wp_bind]
  refine ⟨id, ?_⟩
  intro fetched _
  rw [Proc.wp_done]
  rcases readFetched maxJwksResponseBytes "jwks" tokens.jwkSet fetched with
    error | ⟨_ | ⟨jwk, jwks⟩⟩
  · trivial
  · trivial
  · refine ⟨id, ?_⟩
    intro now _
    refine ⟨id, ?_⟩
    intro _ _
    trivial

theorem wp_cachedJwks (h : List TaskEvent) :
    (cachedJwks tokens).wp verifying (fun _ _ => True) h := by
  rw [cachedJwks, Proc.wp_bind]
  refine ⟨id, ?_⟩
  intro cached _
  cases cached with
  | none => exact wp_refreshJwks _
  | some jwks => trivial

theorem wp_jwkForKid (h : List TaskEvent) (kid : String) :
    (jwkForKid tokens kid).wp verifying (fun _ _ => True) h := by
  rw [jwkForKid, Proc.wp_bind]
  refine Proc.wp_mono (wp_cachedJwks h) ?_
  intro h₁ found _
  cases found with
  | error error => trivial
  | ok jwks =>
    dsimp only
    cases findJwk jwks kid with
    | some jwk => trivial
    | none =>
      dsimp only
      rw [Proc.wp_bind]
      refine Proc.wp_mono (wp_refreshJwks h₁) ?_
      intro h₂ found _
      cases found with
      | error error => trivial
      | ok jwks =>
        dsimp only
        cases findJwk jwks kid with
        | some jwk => trivial
        | none => trivial

theorem wp_decodeWith (h : List TaskEvent) (jwt : String) (alg : Algorithm) (jwk : Jwk) :
    (decodeWith tokens config jwt alg jwk).wp verifying (fun _ _ => True) h := by
  rw [decodeWith]
  split
  · trivial
  split
  · trivial
  dsimp only
  rw [Proc.wp_bind]
  refine ⟨id, ?_⟩
  intro now _
  rw [Proc.wp_done]
  split
  · trivial
  rw [Proc.wp_bind]
  refine ⟨id, ?_⟩
  intro now' _
  rw [Proc.wp_done]
  split
  · trivial
  · trivial

/-- **The check of a token** leaves the decisions alone. -/
theorem wp_verifyJwt (h : List TaskEvent) (jwt : String) :
    (verifyJwt tokens config jwt).wp verifying (fun _ _ => True) h := by
  unfold verifyJwt
  split
  · trivial
  split
  · trivial
  split
  · trivial
  rw [Proc.wp_bind]
  refine Proc.wp_mono (wp_jwkForKid h _) ?_
  intro h₁ found _
  cases found with
  | error error => trivial
  | ok jwk => exact wp_decodeWith _ _ _ _

theorem steps_verifyJwt {text : String} {found : Except AuthError (VerifiedIdentity × Claims)}
    (h : (verifyJwt tokens config text).Steps tr (.done found)) :
    ∀ ev ∈ tr, ¬ev.1.IsDecision := by
  have hrelied : verifying.Relied [] tr := Contract.along_iff.2 fun _ _ _ _ => trivial
  intro ev hev
  obtain ⟨pre, post, hsplit⟩ := List.append_of_mem hev
  exact Proc.wp_guarantee (wp_verifyJwt [] text) h hrelied hsplit

/-! ## What a call does -/

/-- What is remembered: nothing, or one decision at the time the clock then tells. -/
theorem steps_cacheDecision {key : String} {identity : Option VerifiedIdentity} {ttl : ℕ}
    {tr : List TaskEvent} (h : (cacheDecision key identity ttl).Steps tr (.done ())) :
    (ttl = 0 ∧ tr = []) ∨
      (ttl ≠ 0 ∧ ∃ now : Instant,
        tr = [⟨.instantNow, now⟩, ⟨.insertDecision key identity ttl now, ()⟩]) := by
  rw [cacheDecision] at h
  split at h
  · rename_i hzero
    exact Or.inl ⟨hzero, (Proc.steps_done_iff.1 h).1⟩
  · rename_i hpos
    obtain ⟨now, tr₁, rfl, h₁⟩ := h.call_done
    obtain ⟨_, tr₂, rfl, h₂⟩ := h₁.call_done
    obtain ⟨rfl, -⟩ := Proc.steps_done_iff.1 h₂
    exact Or.inr ⟨hpos, now, rfl⟩

theorem not_outage_of_cacheDecision {key : String} {identity : Option VerifiedIdentity} {ttl : ℕ}
    {tr : List TaskEvent} (h : (cacheDecision key identity ttl).Steps tr (.done ())) :
    ∀ ev ∈ tr, ¬Outage tokens ev := by
  rcases steps_cacheDecision h with ⟨-, rfl⟩ | ⟨-, now, rfl⟩
  · intro ev hev
    exact absurd hev (by simp)
  · intro ev hev
    rcases List.mem_pair.1 hev with rfl | rfl
    · exact id
    · exact id

/-- What is read of an introspection that failed was misread. -/
theorem misread_of_failed {fetched : Fetched} {introspection : Introspection}
    (hfailed : Failed maxIntrospectionResponseBytes tokens.introspection fetched)
    (hread : readFetched maxIntrospectionResponseBytes "introspection" tokens.introspection
      fetched = .ok introspection) : Misread tokens fetched := by
  rcases fetched with _ | ⟨status, _ | body⟩
  · exact absurd hread (by simp [readFetched])
  · simp [readFetched] at hread
  · rw [readFetched] at hread
    split at hread
    · exact absurd hread (by simp)
    rename_i hstatus
    split at hread
    · exact absurd hread (by simp)
    rename_i hlength
    have hlength := Nat.le_of_not_lt hlength
    have hparsed : tokens.introspection body ≠ none := by
      intro hnone
      rw [hnone] at hread
      exact absurd hread (by simp)
    rcases hfailed with hsuccess | hbody
    · exact ⟨status, body, rfl, hsuccess, hstatus, hlength, hparsed⟩
    · exact absurd (hbody body rfl) (not_or.2 ⟨Nat.not_lt.2 hlength, hparsed⟩)

theorem readFetched_of_misread {fetched : Fetched} (h : Misread tokens fetched) :
    ∃ introspection, readFetched maxIntrospectionResponseBytes "introspection"
      tokens.introspection fetched = .ok introspection := by
  obtain ⟨status, body, rfl, -, hstatus, hlength, hparsed⟩ := h
  obtain ⟨introspection, hintrospection⟩ := Option.ne_none_iff_exists'.1 hparsed
  refine ⟨introspection, ?_⟩
  rw [readFetched, if_neg hstatus, if_neg (Nat.not_lt.2 hlength), hintrospection]

/-- An outage is met after the cache was asked. -/
theorem outage_of_lookup {key : String} {cached : Option (Option VerifiedIdentity)}
    (h : ∃ ev ∈ (⟨.cachedDecision key, cached⟩ :: tr : List TaskEvent), Outage tokens ev) :
    ∃ ev ∈ tr, Outage tokens ev := by
  obtain ⟨ev, hev, hout⟩ := h
  rcases List.mem_cons.1 hev with rfl | hev
  · exact absurd hout id
  · exact ⟨ev, hev, hout⟩

/-- **A key that is refused after an outage**: nothing else is done, unless the answer was
misread, and then the rejection is remembered. -/
theorem steps_authenticateApiKey_of_outage {text : String} {response : Response}
    (h : (authenticateApiKey env tokens config text).Steps tr (.done (.error response)))
    (houtage : ∃ ev ∈ tr, Outage tokens ev) :
    ∃ fetched settled, tr = ⟨.cachedDecision (credentialCacheKey env "api_key" text), none⟩ ::
        ([⟨.introspect text, fetched⟩] ++ settled) ∧
      ((¬Misread tokens fetched ∧ settled = []) ∨ (Misread tokens fetched ∧
        (cacheDecision (credentialCacheKey env "api_key" text) none
          config.negativeCacheTtl).Steps settled (.done ()))) := by
  obtain ⟨cached, tr₁, rfl, h₁⟩ := h.call_done
  obtain ⟨ev, hev₁, hout⟩ := outage_of_lookup houtage
  rcases cached with _ | ⟨_ | identity⟩
  · obtain ⟨fetched, tr₂, rfl, h₂⟩ := h₁.call_done
    refine ⟨fetched, tr₂, rfl, ?_⟩
    dsimp only [Proc.bind] at h₂
    cases hread : readFetched maxIntrospectionResponseBytes "introspection" tokens.introspection
        fetched with
    | error error =>
      rw [hread] at h₂
      obtain ⟨rfl, -⟩ := Proc.steps_done_iff.1 h₂
      refine Or.inl ⟨?_, rfl⟩
      intro hmisread
      obtain ⟨introspection, hok⟩ := readFetched_of_misread hmisread
      exact absurd (hread.symm.trans hok) (by simp)
    | ok introspection =>
      rw [hread, Proc.pure_eq] at h₂
      dsimp only [Proc.bind] at h₂
      cases hidentity : identityFromIntrospection introspection with
      | none =>
        rw [hidentity] at h₂
        obtain ⟨_, settled, last, rfl, hcache, hlast⟩ := h₂.bind_done
        obtain ⟨rfl, -⟩ := Proc.steps_done_iff.1 hlast
        rw [List.append_nil] at hev₁ ⊢
        refine Or.inr ⟨?_, hcache⟩
        -- the outage was at the introspection, as no other step can be one
        rcases List.mem_cons.1 hev₁ with rfl | hev₂
        · exact misread_of_failed hout hread
        · exact absurd hout (not_outage_of_cacheDecision hcache ev hev₂)
      | some identity =>
        rw [hidentity] at h₂
        obtain ⟨_, settled, last, rfl, -, hlast⟩ := h₂.bind_done
        obtain ⟨-, hresult⟩ := Proc.steps_done_iff.1 hlast
        exact absurd (Proc.done.inj hresult) (by simp)
  · obtain ⟨rfl, -⟩ := Proc.steps_done_iff.1 h₁
    exact absurd hev₁ (by simp)
  · obtain ⟨rfl, -⟩ := Proc.steps_done_iff.1 h₁
    exact absurd hev₁ (by simp)

/-- What follows the check of a token that the gate is not asked about: the rejection is
remembered. -/
theorem steps_checked_of_ungated {text key : String} {result : Except Response VerifiedIdentity}
    {k : Except AuthError (VerifiedIdentity × Claims) → Task (Except Response VerifiedIdentity)}
    (herror : ∀ error, k (.error error) =
      cacheDecision key none config.negativeCacheTtl >>= fun _ => pure (.error (invalidJwt env)))
    (hok : ∀ identity claims, k (.ok (identity, claims)) =
      .call .unixSecs fun now => .call (.authorizeRevocation claims now) fun authorization =>
        .done (authorizedIdentity env identity authorization))
    (h : (verifyJwt tokens config text >>= k).Steps tr (.done result))
    (hgate : ∀ claims now authorization, ⟨.authorizeRevocation claims now, authorization⟩ ∉ tr) :
    ∃ check settled, tr = check ++ settled ∧ (∀ ev ∈ check, ¬ev.1.IsDecision) ∧
      (cacheDecision key none config.negativeCacheTtl).Steps settled (.done ()) := by
  obtain ⟨found, check, rest, rfl, hcheck, hrest⟩ := h.bind_done
  cases found with
  | error error =>
    rw [herror] at hrest
    obtain ⟨_, settled, last, rfl, hcache, hlast⟩ := hrest.bind_done
    obtain ⟨rfl, -⟩ := Proc.steps_done_iff.1 hlast
    exact ⟨check, settled, by rw [List.append_nil], steps_verifyJwt hcheck, hcache⟩
  | ok verified =>
    obtain ⟨identity, claims⟩ := verified
    rw [hok] at hrest
    obtain ⟨now, tr₁, rfl, h₁⟩ := hrest.call_done
    obtain ⟨authorization, tr₂, rfl, -⟩ := h₁.call_done
    exact absurd (by simp) (hgate claims now authorization)

/-- **A token that is refused after an outage**, and not by the gate, is remembered as
rejected. -/
theorem steps_authenticateJwt_of_outage {text : String}
    {result : Except Response VerifiedIdentity}
    (h : (authenticateJwt env tokens config text).Steps tr (.done result))
    (houtage : ∃ ev ∈ tr, Outage tokens ev)
    (hgate : ∀ claims now authorization, ⟨.authorizeRevocation claims now, authorization⟩ ∉ tr) :
    ∃ cached check settled,
      tr = ⟨.cachedDecision (credentialCacheKey env "invalid_jwt" text), cached⟩ ::
        (check ++ settled) ∧
      cached ≠ some none ∧ (∀ ev ∈ check, ¬ev.1.IsDecision) ∧
      (cacheDecision (credentialCacheKey env "invalid_jwt" text) none
        config.negativeCacheTtl).Steps settled (.done ()) := by
  obtain ⟨cached, tr₁, rfl, h₁⟩ := h.call_done
  obtain ⟨ev, hev₁, hout⟩ := outage_of_lookup houtage
  have hgate₁ : ∀ claims now authorization,
      ⟨.authorizeRevocation claims now, authorization⟩ ∉ tr₁ := by
    intro claims now authorization hmem
    exact hgate claims now authorization (List.mem_cons_of_mem _ hmem)
  dsimp only [Proc.bind] at h₁
  rcases cached with _ | ⟨_ | identity⟩
  · obtain ⟨check, settled, rfl, hrest⟩ :=
      steps_checked_of_ungated (fun _ => rfl) (fun _ _ => rfl) h₁ hgate₁
    exact ⟨none, check, settled, rfl, by simp, hrest⟩
  · obtain ⟨rfl, -⟩ := Proc.steps_done_iff.1 h₁
    exact absurd hev₁ (by simp)
  · obtain ⟨check, settled, rfl, hrest⟩ :=
      steps_checked_of_ungated (fun _ => rfl) (fun _ _ => rfl) h₁ hgate₁
    exact ⟨some (some identity), check, settled, rfl, by simp, hrest⟩

/-! ## The cache after an outage -/

variable {decisions decisions' : Decisions} {t t' : Instant}
  {cached : Option (Option VerifiedIdentity)} {check settled : List TaskEvent}

/-- A cache that was left alone does not decide the next call either. -/
theorem noVerdict_of_unchanged {credential : Credential} {looked : Instant}
    (hundecided : ¬credential.DecidedBy (decisions.cached (credential.cacheKey env) looked))
    (hle : looked ≤ t') : NoVerdict env tokens config credential decisions decisions t' := by
  refine ⟨rfl, ?_⟩
  rintro tr q after t'' - hruns cached rest rfl hdecided
  cases hruns with
  | other he _ _ _ => exact he trivial
  | @cachedDecision _ _ _ now _ _ key hnow _ =>
    refine hundecided ?_
    cases credential with
    | apiKey text =>
      obtain ⟨found, hfound⟩ := Option.ne_none_iff_exists'.1 hdecided
      have hearlier := Decisions.cached_of_le (hle.trans hnow) hfound
      exact Option.ne_none_iff_exists'.2 ⟨found, hearlier⟩
    | jwt text => exact Decisions.cached_of_le (hle.trans hnow) hdecided

/-- A call that only looked up leaves the cache alone. -/
theorem noVerdict_of_quiet (credential : Credential)
    (hcache : Runs decisions t (⟨.cachedDecision (credential.cacheKey env), cached⟩ :: check)
      decisions' t')
    (hundecided : ¬credential.DecidedBy cached) (hquiet : ∀ ev ∈ check, ¬ev.1.IsDecision) :
    NoVerdict env tokens config credential decisions decisions' t' := by
  obtain ⟨looked, -, rfl, hrest⟩ := hcache.lookup
  obtain rfl := hrest.of_no_decision hquiet
  exact noVerdict_of_unchanged hundecided hrest.le

/-- **A call that goes on to remember a rejection** leaves the cache alone only if rejections
are not remembered. -/
theorem noVerdict_of_settled_iff (credential : Credential)
    (hcache : Runs decisions t
      (⟨.cachedDecision (credential.cacheKey env), cached⟩ :: (check ++ settled)) decisions' t')
    (hundecided : ¬credential.DecidedBy cached) (hquiet : ∀ ev ∈ check, ¬ev.1.IsDecision)
    (hsettled : (cacheDecision (credential.cacheKey env) none config.negativeCacheTtl).Steps
      settled (.done ())) :
    NoVerdict env tokens config credential decisions decisions' t' ↔
      config.negativeCacheTtl = 0 := by
  rcases steps_cacheDecision hsettled with ⟨hzero, rfl⟩ | ⟨hpos, now, rfl⟩
  · rw [List.append_nil] at hcache
    exact iff_of_true (noVerdict_of_quiet credential hcache hundecided hquiet) hzero
  · obtain ⟨looked, -, rfl, hrest⟩ := hcache.lookup
    obtain ⟨between, t₁, hcheck, hafter⟩ := hrest.of_append
    obtain rfl := hcheck.of_no_decision hquiet
    refine iff_of_false ?_ hpos
    intro hverdict
    obtain ⟨hle, kept, hkept⟩ := hafter.remembered
    -- the rejection would have been found already when this call looked
    have hfound : between.cached (credential.cacheKey env) looked = some none := by
      rw [← hverdict.unchanged, hkept]
      refine Decisions.cached_insert kept _ _ ?_
      have hlooked : looked ≤ now := hcheck.le.trans hle
      exact lt_add_of_le_of_pos hlooked (Nat.pos_of_ne_zero hpos)
    rw [hfound] at hundecided
    cases credential with
    | apiKey text => exact hundecided (Option.some_ne_none _)
    | jwt text => exact hundecided rfl

/-- **An outage is not a verdict**: a call that met an outage and was refused, not by the gate,
leaves the cache as it was, and the next call for the credential is decided on the credential,
exactly if rejections are not remembered at all, or the credential is an API key and its
introspection was not misread. -/
theorem no_verdict_iff (credential : Credential) {response : Response}
    (hrun : (credential.authenticate env tokens config).Steps tr (.done (.error response)))
    (hcache : Runs decisions t tr decisions' t') (houtage : ∃ ev ∈ tr, Outage tokens ev)
    (hgate : ∀ claims now authorization, ⟨.authorizeRevocation claims now, authorization⟩ ∉ tr) :
    NoVerdict env tokens config credential decisions decisions' t' ↔
      config.negativeCacheTtl = 0 ∨ ∃ text, credential = .apiKey text ∧
        ∀ fetched, ⟨.introspect text, fetched⟩ ∈ tr → ¬Misread tokens fetched := by
  cases credential with
  | apiKey text =>
    obtain ⟨fetched, settled, rfl, ⟨hread, rfl⟩ | ⟨hmisread, hsettled⟩⟩ :=
      steps_authenticateApiKey_of_outage hrun houtage
    · refine iff_of_true (noVerdict_of_quiet (.apiKey text) hcache (fun h => h rfl) ?_)
        (Or.inr ⟨text, rfl, ?_⟩)
      · intro ev hev
        obtain rfl : ev = ⟨.introspect text, fetched⟩ := by simpa using hev
        exact id
      · intro fetched' hmem
        obtain rfl : fetched' = fetched := by simpa using hmem
        exact hread
    · rw [noVerdict_of_settled_iff (.apiKey text) hcache (fun h => h rfl) ?_ hsettled]
      · constructor
        · exact Or.inl
        · rintro (hzero | ⟨text', heq, hall⟩)
          · exact hzero
          · obtain rfl := Credential.apiKey.inj heq
            exact absurd hmisread (hall fetched (by simp))
      · intro ev hev
        rw [List.mem_singleton.1 hev]
        exact id
  | jwt text =>
    obtain ⟨cached, check, settled, rfl, hcached, hquiet, hsettled⟩ :=
      steps_authenticateJwt_of_outage hrun houtage hgate
    rw [noVerdict_of_settled_iff (.jwt text) hcache hcached hquiet hsettled]
    constructor
    · exact Or.inl
    · rintro (hzero | ⟨text', heq, -⟩)
      · exact hzero
      · exact absurd heq (by simp)

end

namespace Sample

/-- A token library that reads every token as one of the key `k`. -/
def keyed : Tokens :=
  { tokens with decodeHeader := fun _ => some { alg := .rs256, kid := some "k" } }

/-- An auth service that disowns every API key. -/
def disowning : Tokens :=
  { tokens with introspection := fun _ => some { introspection with valid := false } }

/-- The lookup of the decision on the key `fdc_a.b`, and an introspection that fails. -/
def unknownKey : List TaskEvent :=
  [⟨.cachedDecision (credentialCacheKey Reference.env "api_key" "fdc_a.b"), none⟩,
    ⟨.introspect "fdc_a.b", .failed⟩]

/-- The lookup of the decision on the key `fdc_a.b`, a redirection for an introspection, and
the rejection that is remembered. -/
def redirectedKey : List TaskEvent :=
  [⟨.cachedDecision (credentialCacheKey Reference.env "api_key" "fdc_a.b"), none⟩,
    ⟨.introspect "fdc_a.b", .response .temporaryRedirect (some [])⟩, ⟨.instantNow, (0 : Instant)⟩,
    ⟨.insertDecision (credentialCacheKey Reference.env "api_key" "fdc_a.b") none 5 0, ()⟩]

/-- The lookup of the decision on the token `a.b.c`, keys that cannot be fetched, and the
rejection that is remembered. -/
def uncheckedToken : List TaskEvent :=
  [⟨.cachedDecision (credentialCacheKey Reference.env "invalid_jwt" "a.b.c"), none⟩,
    ⟨.cachedJwks, none⟩, ⟨.fetchJwks, .failed⟩, ⟨.instantNow, (0 : Instant)⟩,
    ⟨.insertDecision (credentialCacheKey Reference.env "invalid_jwt" "a.b.c") none 5 0, ()⟩]

/-- What is remembered after a rejection. -/
def rejected (key : String) : Decisions :=
  (pruneDecisions ∅ 0 maxCachedDecisions "").insert key { expiresAt := 5, identity := none }

theorem steps_unknownKey : ((Credential.apiKey "fdc_a.b").authenticate Reference.env tokens
    config).Steps unknownKey (.done (.error (authResponse Reference.env .serviceUnavailable
      "auth_unavailable" "auth service is unavailable"))) :=
  .call (.call (.refl _))

theorem runs_unknownKey : Runs ∅ 0 unknownKey ∅ 0 :=
  .cachedDecision le_rfl (.other id (by simp) le_rfl (.nil _ _))

theorem runs_rejected (key : String) :
    Runs ∅ 0 [⟨.instantNow, (0 : Instant)⟩, ⟨.insertDecision key none 5 0, ()⟩] (rejected key) 0 :=
  .instantNow le_rfl (.insertDecision le_rfl (Or.inr rfl) (by decide) (.nil _ _))

theorem steps_redirectedKey : ((Credential.apiKey "fdc_a.b").authenticate Reference.env disowning
    config).Steps redirectedKey (.done (.error (invalidApiKey Reference.env))) :=
  .call (.call (.call (.call (.refl _))))

theorem runs_redirectedKey : Runs ∅ 0 redirectedKey
    (rejected (credentialCacheKey Reference.env "api_key" "fdc_a.b")) 0 :=
  .cachedDecision le_rfl (.other id (by simp) le_rfl (runs_rejected _))

theorem steps_uncheckedToken : ((Credential.jwt "a.b.c").authenticate Reference.env keyed
    config).Steps uncheckedToken (.done (.error (invalidJwt Reference.env))) :=
  .call (.call (.call (.call (.call (.refl _)))))

theorem runs_uncheckedToken : Runs ∅ 0 uncheckedToken
    (rejected (credentialCacheKey Reference.env "invalid_jwt" "a.b.c")) 0 :=
  .cachedDecision le_rfl (.other id (by simp) le_rfl (.other id (by simp) le_rfl
    (runs_rejected _)))

theorem rejected_ne_empty (key : String) : rejected key ≠ ∅ :=
  Std.ExtTreeMap.insert_ne_empty

end Sample

/-- An API key whose introspection failed is decided afresh the next time. -/
theorem no_verdict_apiKey :
    NoVerdict Reference.env Sample.tokens Sample.config (.apiKey "fdc_a.b") ∅ ∅ 0 :=
  (no_verdict_iff (.apiKey "fdc_a.b") Sample.steps_unknownKey Sample.runs_unknownKey
    ⟨⟨.introspect "fdc_a.b", .failed⟩, by simp [Sample.unknownKey], trivial⟩
    (by simp [Sample.unknownKey])).2
    (Or.inr ⟨_, rfl, by simp [Sample.unknownKey, Misread]⟩)

/-- No outage is ever a verdict on this credential. -/
def NeverVerdict (credential : Credential) : Prop :=
  ∀ (env : Env) (tokens : Tokens) (config : AuthConfig) (decisions decisions' : Decisions)
    (t t' : Instant) (tr : List TaskEvent) (response : Response),
    (credential.authenticate env tokens config).Steps tr (.done (.error response)) →
    Runs decisions t tr decisions' t' → (∃ ev ∈ tr, Outage tokens ev) →
    (∀ claims now authorization, ⟨.authorizeRevocation claims now, authorization⟩ ∉ tr) →
      NoVerdict env tokens config credential decisions decisions' t'

/-- **A token that could not be checked is remembered as rejected**: the keys could not be
fetched, and for as long as rejections are remembered the token is invalid.  So is an API key
whose introspection was redirected, to an answer that disowns it. -/
theorem not_no_verdict : ¬NeverVerdict (.jwt "a.b.c") ∧ ¬NeverVerdict (.apiKey "fdc_a.b") := by
  constructor
  · intro hall
    have hverdict := hall Reference.env Sample.keyed Sample.config ∅ _ 0 0 Sample.uncheckedToken _
      Sample.steps_uncheckedToken Sample.runs_uncheckedToken
      ⟨⟨.fetchJwks, .failed⟩, by simp [Sample.uncheckedToken], Or.inl trivial⟩
      (by simp [Sample.uncheckedToken])
    exact Sample.rejected_ne_empty _ hverdict.unchanged
  · intro hall
    have hverdict := hall Reference.env Sample.disowning Sample.config ∅ _ 0 0
      Sample.redirectedKey _ Sample.steps_redirectedKey Sample.runs_redirectedKey
      ⟨⟨.introspect "fdc_a.b", .response .temporaryRedirect (some [])⟩,
        by simp [Sample.redirectedKey], Or.inl rfl⟩
      (by simp [Sample.redirectedKey])
    exact Sample.rejected_ne_empty _ hverdict.unchanged

end Auth

end LoadBalance
