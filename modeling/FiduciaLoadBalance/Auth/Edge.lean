import FiduciaLoadBalance.Auth.Identity

/-!
# The trusted hop

A trusted edge forwards the identity it verified in `x-fiducia-` headers, with the shared
secret as its proof.  The balancer takes the identity over only with the proof, and only
from headers that say one thing.

* `constantTimeEq_iff` — the comparison with the secret is equality;
* `trustedEdgeIdentity_eq_some_iff` — what it takes to be trusted;
* `trustedEdgeIdentity_of_not_proven` — without the proof there is no identity.
-/

namespace LoadBalance

open Http Text

/-! ## The decoder -/

/-- The text of a header that occurs at most once: `none` where it is repeated or is not
visible ASCII, `some none` where it is absent. -/
def uniqueHeaderStr (headers : HeaderMap) (name : String) : Option (Option String) :=
  match headers.getAll name with
  | [] => some none
  | [value] => value.toStr.map some
  | _ :: _ :: _ => none

def constantTimeEq (left right : Bytes) : Bool :=
  if left.length ≠ right.length then false
  else (left.zip right).foldl (fun difference pair => difference ||| (pair.1 ^^^ pair.2)) 0 == 0

/-- An identifier, white space around it aside. -/
def validIdentifier (value : String) : Bool :=
  let value := trim value
  value ≠ "" ∧ (utf8 value).length ≤ 256 ∧
    ¬(value.toList.any fun c => isControl c || isWhitespace c)

def validScopes (scopes : List String) : Bool :=
  scopes.length ≤ 64 ∧ scopes.all fun scope =>
    scope ≠ "" ∧ (utf8 scope).length ≤ 128 ∧
      ¬(scope.toList.any fun c => isControl c || isWhitespace c)

/-- The kind a header spells, an API key where there is none. -/
def edgeKind : Option String → Option AuthKind
  | none => some .apiKey
  | some text =>
    if text = "api_key" then some .apiKey else if text = "jwt" then some .jwt else none

/-- The identity that a trusted edge vouches for. -/
def trustedEdgeIdentity (headers : HeaderMap) (expectedSecret : Option String) :
    Option VerifiedIdentity := do
  let expected ← expectedSecret
  let provided ← (uniqueHeaderStr headers edgeAuthHeader).join
  guard (constantTimeEq (utf8 provided) (utf8 expected))
  let orgId := trim (← (uniqueHeaderStr headers "x-fiducia-org-id").join)
  guard (validIdentifier orgId)
  let kind ← edgeKind (← uniqueHeaderStr headers "x-fiducia-auth-kind")
  let scopes := ((← uniqueHeaderStr headers "x-fiducia-scopes").map splitWhitespace).getD []
  guard (validScopes scopes)
  let keyId := ((← uniqueHeaderStr headers "x-fiducia-key-id").map trim).filter (· ≠ "")
  guard (keyId.all validIdentifier)
  return { kind, orgId, keyId, scopes, requireIdempotency := false }

/-! ## The proof -/

/-- The headers prove the hop: its header occurs once, with the bytes of the secret. -/
def Proven (headers : HeaderMap) (secret : Option String) : Prop :=
  ∃ value expected, secret = some expected ∧ headers.getAll edgeAuthHeader = [value] ∧
    value.bytes = utf8 expected

section

variable {headers : HeaderMap} {name : String} {secret : Option String}

theorem uniqueHeaderStr_eq_none_iff : uniqueHeaderStr headers name = some none ↔
    headers.getAll name = [] := by
  unfold uniqueHeaderStr
  split <;> simp [*]

theorem uniqueHeaderStr_eq_some_iff {text : String} :
    uniqueHeaderStr headers name = some (some text) ↔
      ∃ value, headers.getAll name = [value] ∧ value.toStr = some text := by
  unfold uniqueHeaderStr
  split <;> simp [*]

/-- The difference of the bytes so far, or of the rest, is zero only if each is. -/
theorem foldl_difference_eq_zero {pairs : List (UInt8 × UInt8)} {difference : UInt8} :
    pairs.foldl (fun difference pair => difference ||| (pair.1 ^^^ pair.2)) difference = 0 ↔
      difference = 0 ∧ ∀ pair ∈ pairs, pair.1 = pair.2 := by
  induction pairs generalizing difference with
  | nil => simp
  | cons pair pairs ih =>
    rw [List.foldl_cons, ih, UInt8.or_eq_zero_iff, UInt8.xor_eq_zero_iff, List.forall_mem_cons,
      and_assoc]

/-- **The comparison is equality**, for bytes of any length. -/
theorem constantTimeEq_iff {left right : Bytes} :
    constantTimeEq left right = true ↔ left = right := by
  unfold constantTimeEq
  split
  · rename_i hlen
    simpa using fun h : left = right => hlen (congrArg List.length h)
  · rename_i hlen
    rw [beq_iff_eq, foldl_difference_eq_zero, and_iff_right rfl]
    constructor
    · intro h
      refine List.ext_getElem (not_not.1 hlen) fun i hi hi' => ?_
      exact h (left[i], right[i]) (List.mem_iff_getElem.2 ⟨i, by simp [hi, hi'], by simp⟩)
    · rintro rfl pair hpair
      obtain ⟨i, hi, rfl⟩ := List.mem_iff_getElem.1 hpair
      simp

/-! ## What it takes to be trusted -/

/-- The text of the header is there once at most, and is visible ASCII. -/
structure Unique (headers : HeaderMap) (name : String) : Prop where
  single : (headers.getAll name).length ≤ 1
  visible : ∀ value ∈ headers.getAll name, value.bytes.all isVisibleAscii = true

theorem Unique.of_ne_none (h : uniqueHeaderStr headers name ≠ none) : Unique headers name := by
  unfold uniqueHeaderStr at h
  split at h
  · rename_i hnone
    exact ⟨by simp [hnone], by simp [hnone]⟩
  · rename_i value hsome
    refine ⟨by simp [hsome], fun v hv => ?_⟩
    rw [hsome] at hv
    rw [List.mem_singleton.1 hv]
    by_contra hall
    exact h (by rw [HeaderValue.toStr, if_neg hall]; rfl)
  · exact absurd rfl h

/-- The headers vouch for an identity: with the proof, and with one valid reading of each
of its parts. -/
structure Vouched (headers : HeaderMap) (secret : Option String) (identity : VerifiedIdentity) :
    Prop where
  proof : ∃ expected, secret = some expected ∧
    uniqueHeaderStr headers edgeAuthHeader = some (some expected)
  orgId : ∃ text, uniqueHeaderStr headers "x-fiducia-org-id" = some (some text) ∧
    identity.orgId = trim text
  orgId_valid : validIdentifier identity.orgId = true
  kind : ∃ text, uniqueHeaderStr headers "x-fiducia-auth-kind" = some text ∧
    edgeKind text = some identity.kind
  scopes : ∃ text, uniqueHeaderStr headers "x-fiducia-scopes" = some text ∧
    identity.scopes = (text.map splitWhitespace).getD []
  scopes_valid : validScopes identity.scopes = true
  keyId : ∃ text, uniqueHeaderStr headers "x-fiducia-key-id" = some text ∧
    identity.keyId = (text.map trim).filter (· ≠ "")
  keyId_valid : identity.keyId.all validIdentifier = true
  requireIdempotency : identity.requireIdempotency = false

/-- **What it takes to be trusted.** -/
theorem trustedEdgeIdentity_eq_some_iff {identity : VerifiedIdentity} :
    trustedEdgeIdentity headers secret = some identity ↔ Vouched headers secret identity := by
  simp only [trustedEdgeIdentity, Option.bind_eq_bind, Option.bind_eq_some_iff,
    Option.join_eq_some_iff, Option.guard_eq_some', constantTimeEq_iff, exists_and_left,
    exists_const]
  constructor
  · rintro ⟨expected, hexpected, provided, hprovided, hproof, orgText, horgText, horg, kindText,
      hkindText, kind, hkind, scopesText, hscopesText, hscopes, keyText, hkeyText, hkey, heq⟩
    obtain rfl := Option.some.inj heq
    obtain rfl := utf8_injective hproof
    exact ⟨⟨_, hexpected, hprovided⟩, ⟨_, horgText, rfl⟩, horg, ⟨_, hkindText, hkind⟩,
      ⟨_, hscopesText, rfl⟩, hscopes, ⟨_, hkeyText, rfl⟩, hkey, rfl⟩
  · rintro ⟨⟨expected, hexpected, hproof⟩, ⟨orgText, horgText, horgId⟩, horg,
      ⟨kindText, hkindText, hkind⟩, ⟨scopesText, hscopesText, hscopesId⟩, hscopes,
      ⟨keyText, hkeyText, hkeyId⟩, hkey, hrequire⟩
    obtain ⟨kind, orgId, keyId, scopes, requireIdempotency⟩ := identity
    dsimp only at *
    subst horgId hscopesId hkeyId hrequire
    exact ⟨expected, hexpected, expected, hproof, rfl, orgText, horgText, horg, kindText,
      hkindText, kind, hkind, scopesText, hscopesText, hscopes, keyText, hkeyText, hkey, rfl⟩

theorem Vouched.proven {identity : VerifiedIdentity} (h : Vouched headers secret identity) :
    Proven headers secret := by
  obtain ⟨expected, hexpected, hproof⟩ := h.proof
  obtain ⟨value, hvalue, htext⟩ := uniqueHeaderStr_eq_some_iff.1 hproof
  exact ⟨value, expected, hexpected, hvalue, (HeaderValue.utf8_of_toStr htext).symm⟩

/-- **Without the proof there is no identity**, whatever else the headers say. -/
theorem trustedEdgeIdentity_of_not_proven (h : ¬Proven headers secret) :
    trustedEdgeIdentity headers secret = none := by
  rw [Option.eq_none_iff_forall_ne_some]
  exact fun identity hidentity => h (trustedEdgeIdentity_eq_some_iff.1 hidentity).proven

/-- The headers an identity is read from. -/
def identityHeaderNames : List String :=
  ["x-fiducia-org-id", "x-fiducia-auth-kind", "x-fiducia-scopes", "x-fiducia-key-id"]

/-- An identity is read from headers that say one thing each. -/
theorem Vouched.unique {identity : VerifiedIdentity} (h : Vouched headers secret identity) :
    ∀ name ∈ identityHeaderNames, Unique headers name := by
  obtain ⟨orgText, horgText, -⟩ := h.orgId
  obtain ⟨kindText, hkindText, -⟩ := h.kind
  obtain ⟨scopesText, hscopesText, -⟩ := h.scopes
  obtain ⟨keyText, hkeyText, -⟩ := h.keyId
  intro name hname
  refine .of_ne_none ?_
  unfold identityHeaderNames at hname
  fin_cases hname <;> simp [*]

/-! ## Identifiers -/

theorem validIdentifier_iff {value : String} : validIdentifier value = true ↔
    trim value ≠ "" ∧ (utf8 (trim value)).length ≤ 256 ∧
      ∀ c ∈ (trim value).toList, isControl c = false ∧ isWhitespace c = false := by
  simp [validIdentifier]

theorem validScopes_iff {scopes : List String} : validScopes scopes = true ↔
    scopes.length ≤ 64 ∧ ∀ scope ∈ scopes, scope ≠ "" ∧ (utf8 scope).length ≤ 128 ∧
      ∀ c ∈ scope.toList, isControl c = false ∧ isWhitespace c = false := by
  simp [validScopes]

theorem trim_trim (s : String) : trim (trim s) = trim s := trimMatches_idem _ _

/-- The tenant of a trusted identity: text without white space, and not too long. -/
theorem Vouched.orgId_plain {identity : VerifiedIdentity} (h : Vouched headers secret identity) :
    identity.orgId ≠ "" ∧ (utf8 identity.orgId).length ≤ 256 ∧
      ∀ c ∈ identity.orgId.toList, isWhitespace c = false := by
  obtain ⟨text, -, horg⟩ := h.orgId
  have hvalid := validIdentifier_iff.1 h.orgId_valid
  rw [horg, trim_trim, ← horg] at hvalid
  exact ⟨hvalid.1, hvalid.2.1, fun c hc => (hvalid.2.2 c hc).2⟩

end

end LoadBalance
