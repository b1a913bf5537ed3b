import FiduciaLoadBalance.Auth.Verify
import FiduciaLoadBalance.Proxy.Headers

/-!
# An identity across the trusted hop

What the balancer tells a node about an identity, read back by the balancer's own decoder.
The checks on an identity look at it with the white space around it removed, and let any
script through; the headers carry visible ASCII only, and lose white space around them.

* `appended` — the headers of the hop, and what is read from each;
* `survivesHop_iff` — when an identity is read back as it was.
-/

namespace LoadBalance

open Http Text
open HeaderValue (VisibleText visibleText_iff)

namespace Auth

open Revocation (Claims)
open Proxy (appendHeaders identityHeaders getAll_appendHeaders)

/-- An identity that the balancer can come to. -/
def Produced (identity : VerifiedIdentity) : Prop :=
  (∃ headers secret, trustedEdgeIdentity headers secret = some identity) ∨
    (∃ introspection, identityFromIntrospection introspection = some identity) ∨
    ∃ claims issuer audience now, validateClaimContract claims issuer audience now = .ok () ∧
      identityFromClaims claims = identity

/-- The headers of the hop: what a node is told of the identity, and the proof. -/
def hopHeaders (secret : String) (identity : VerifiedIdentity) : List (String × String) :=
  identityHeaders (some identity) ++ [(edgeAuthHeader, secret)]

/-- The headers sent for an identity with this proof, read back with it, give the same
kind, tenant, key and scopes. -/
def SurvivesHop (secret : String) (identity : VerifiedIdentity) : Prop :=
  ∃ headers read,
    appendHeaders .empty (hopHeaders secret identity) = some headers ∧
    trustedEdgeIdentity headers (some secret) = some read ∧
    read.kind = identity.kind ∧ read.orgId = identity.orgId ∧ read.keyId = identity.keyId ∧
    read.scopes = identity.scopes

/-- All parts of the identity are visible ASCII, and its identifiers have no white space
around them. -/
structure Plain (identity : VerifiedIdentity) : Prop where
  orgId : VisibleText identity.orgId ∧ trim identity.orgId = identity.orgId
  keyId : ∀ keyId, identity.keyId = some keyId → VisibleText keyId ∧ trim keyId = keyId
  scopes : ∀ scope ∈ identity.scopes, VisibleText scope

section

variable {identity : VerifiedIdentity} {secret : String} {headers : HeaderMap}

theorem Produced.checked (h : Produced identity) : Checked identity := by
  rcases h with ⟨headers, secret, h⟩ | ⟨introspection, h⟩ | ⟨claims, issuer, audience, now, h, rfl⟩
  · exact .of_vouched (trustedEdgeIdentity_eq_some_iff.1 h)
  · exact .of_introspection h
  · exact .of_claims h

/-! ## Visible text -/

theorem visibleText_append {s t : String} : VisibleText (s ++ t) ↔ VisibleText s ∧ VisibleText t := by
  simp only [VisibleText, String.toList_append, List.mem_append]
  exact ⟨fun h => ⟨fun c hc => h c (Or.inl hc), fun c hc => h c (Or.inr hc)⟩,
    fun h c hc => hc.elim (h.1 c) (h.2 c)⟩

/-- What is joined by spaces is visible when its pieces are. -/
theorem visibleText_intercalate {pieces : List String} :
    VisibleText (" ".intercalate pieces) ↔ ∀ piece ∈ pieces, VisibleText piece := by
  have hspace : VisibleText " " := visibleText_iff.2 (by decide)
  induction pieces with
  | nil => simpa using visibleText_iff.2 (by decide)
  | cons piece pieces ih =>
    cases pieces with
    | nil => simp
    | cons next pieces =>
      rw [String.intercalate_cons_cons, visibleText_append, visibleText_append, and_assoc,
        and_iff_right hspace, List.forall_mem_cons]
      exact and_congr_right fun _ => ih

/-! ## The headers of the hop -/

/-- Each header that was added is a valid one. -/
theorem exists_of_appendHeaders {added : List (String × String)} {start : HeaderMap}
    (h : appendHeaders start added = some headers) :
    ∀ header ∈ added, ∃ value, HeaderValue.fromStr header.2 = some value := by
  induction added generalizing start with
  | nil => simp
  | cons header added ih =>
    rw [appendHeaders] at h
    obtain ⟨value, hvalue, hrest⟩ := Option.bind_eq_some_iff.1 h
    exact List.forall_mem_cons.2 ⟨⟨value, hvalue⟩, ih hrest⟩

/-- Valid headers can be added. -/
theorem exists_appendHeaders {added : List (String × String)}
    (h : ∀ header ∈ added, VisibleText header.2) (start : HeaderMap) :
    ∃ headers, appendHeaders start added = some headers := by
  induction added generalizing start with
  | nil => exact ⟨start, rfl⟩
  | cons header added ih =>
    obtain ⟨hheader, hadded⟩ := List.forall_mem_cons.1 h
    obtain ⟨value, hvalue⟩ := HeaderValue.exists_fromStr hheader
    obtain ⟨headers, hheaders⟩ := ih hadded (start.append header.1 value)
    exact ⟨headers, by rw [appendHeaders, hvalue, Option.bind_some, hheaders]⟩

/-- **What is read of a header that was added once**: its text, if it is visible. -/
theorem uniqueHeaderStr_appended {added : List (String × String)} {name text : String}
    (h : appendHeaders .empty added = some headers)
    (honce : added.filter (·.1 = name) = [(name, text)]) (read : Option String) :
    uniqueHeaderStr headers name = some read ↔ read = some text ∧ VisibleText text := by
  have hmem : (name, text) ∈ added :=
    (List.mem_filter.1 (honce ▸ List.mem_singleton_self _ : (name, text) ∈ added.filter _)).1
  obtain ⟨value, hvalue⟩ := exists_of_appendHeaders h _ hmem
  have hfilter : ∀ l : List (String × String), (l.filterMap fun header =>
      if header.1 = name then HeaderValue.fromStr header.2 else none) =
      (l.filter (·.1 = name)).filterMap fun header => HeaderValue.fromStr header.2 := by
    intro l
    induction l with
    | nil => rfl
    | cons header l ih =>
      by_cases hname : header.1 = name
      · rw [List.filter_cons_of_pos (by simpa using hname), List.filterMap_cons,
          List.filterMap_cons, if_pos hname, ih]
      · rw [List.filter_cons_of_neg (by simpa using hname), List.filterMap_cons, if_neg hname, ih]
  have hall : headers.getAll name = [value] := by
    rw [getAll_appendHeaders h, hfilter, honce]
    simp [hvalue]
  have hbytes := HeaderValue.bytes_of_fromStr hvalue
  rw [uniqueHeaderStr, hall]
  constructor
  · intro hread
    obtain ⟨t, ht, rfl⟩ := Option.map_eq_some_iff.1 hread
    obtain ⟨hutf8, hvisible⟩ := HeaderValue.toStr_eq_some_iff.1 ht
    obtain rfl := utf8_injective (hbytes.symm.trans hutf8)
    exact ⟨rfl, hvisible⟩
  · rintro ⟨rfl, hvisible⟩
    exact Option.map_eq_some_iff.2 ⟨text, HeaderValue.toStr_eq_some_iff.2 ⟨hbytes, hvisible⟩, rfl⟩

theorem uniqueHeaderStr_not_appended {added : List (String × String)} {name : String}
    (h : appendHeaders .empty added = some headers)
    (hnone : added.filter (·.1 = name) = []) : uniqueHeaderStr headers name = some none := by
  have hfilter : ∀ header ∈ added, header.1 ≠ name := by
    simpa [List.filter_eq_nil_iff] using hnone
  rw [uniqueHeaderStr_eq_none_iff, getAll_appendHeaders h, HeaderMap.getAll_empty,
    List.nil_append, List.filterMap_eq_nil_iff]
  exact fun header hheader => if_neg (hfilter header hheader)

/-- Each header of the hop is there once, the key's if there is a key. -/
theorem filter_hopHeaders :
    (hopHeaders secret identity).filter (·.1 = edgeAuthHeader) = [(edgeAuthHeader, secret)] ∧
    (hopHeaders secret identity).filter (·.1 = "x-fiducia-org-id") =
      [("x-fiducia-org-id", identity.orgId)] ∧
    (hopHeaders secret identity).filter (·.1 = "x-fiducia-auth-kind") =
      [("x-fiducia-auth-kind", identity.kindHeader)] ∧
    (hopHeaders secret identity).filter (·.1 = "x-fiducia-scopes") =
      [("x-fiducia-scopes", identity.scopesHeader)] ∧
    (hopHeaders secret identity).filter (·.1 = "x-fiducia-key-id") =
      identity.keyId.toList.map fun keyId => ("x-fiducia-key-id", keyId) := by
  unfold hopHeaders identityHeaders edgeAuthHeader
  dsimp only
  cases identity.keyId <;> simp

theorem visibleText_kindHeader : VisibleText identity.kindHeader := by
  unfold VerifiedIdentity.kindHeader
  cases identity.kind <;> exact visibleText_iff.2 (by decide)

theorem edgeKind_kindHeader : edgeKind (some identity.kindHeader) = some identity.kind := by
  unfold VerifiedIdentity.kindHeader
  cases identity.kind <;> decide

/-- A checked identifier that is read back as it was is nothing but its text. -/
theorem filter_trim {keyId : String} (hvalid : validIdentifier keyId = true)
    (htrim : trim keyId = keyId) : ((some keyId).map trim).filter (· ≠ "") = some keyId := by
  have hne : keyId ≠ "" := by
    rw [← htrim]
    exact (validIdentifier_iff.1 hvalid).1
  simp [htrim, hne, Option.filter]

/-! ## There and back -/

/-- **There**: the headers of a plain identity vouch for it. -/
theorem SurvivesHop.of_plain (hsecret : VisibleText secret) (hchecked : Checked identity)
    (hplain : Plain identity) : SurvivesHop secret identity := by
  have hscopes : VisibleText identity.scopesHeader := visibleText_intercalate.2 hplain.scopes
  have hvisible : ∀ header ∈ hopHeaders secret identity, VisibleText header.2 := by
    have hkey := hplain.keyId
    unfold hopHeaders identityHeaders
    dsimp only
    cases hkeyId : identity.keyId with
    | none => simp [hplain.orgId.1, hscopes, hsecret, visibleText_kindHeader]
    | some keyId => simp [hplain.orgId.1, hscopes, hsecret, visibleText_kindHeader,
        (hkey keyId hkeyId).1]
  obtain ⟨headers, hheaders⟩ := exists_appendHeaders hvisible .empty
  obtain ⟨hproof, horg, hkind, hscope, hkey⟩ := @filter_hopHeaders identity secret
  refine ⟨headers, { identity with requireIdempotency := false }, hheaders, ?_, rfl, rfl, rfl, rfl⟩
  have hread : ∀ {name text}, (hopHeaders secret identity).filter (·.1 = name) = [(name, text)] →
      VisibleText text → uniqueHeaderStr headers name = some (some text) := fun honce htext =>
    (uniqueHeaderStr_appended hheaders honce _).2 ⟨rfl, htext⟩
  have hjoined : splitWhitespace identity.scopesHeader = identity.scopes := by
    refine splitWhitespace_intercalate fun scope hscope => ?_
    obtain ⟨hne, -, hclean⟩ := (validScopes_iff.1 hchecked.scopes).2 scope hscope
    exact ⟨hne, fun c hc => (hclean c hc).2⟩
  refine trustedEdgeIdentity_eq_some_iff.2
    ⟨⟨secret, rfl, hread hproof hsecret⟩,
      ⟨identity.orgId, hread horg hplain.orgId.1, hplain.orgId.2.symm⟩, hchecked.orgId,
      ⟨_, hread hkind visibleText_kindHeader, edgeKind_kindHeader⟩,
      ⟨_, hread hscope hscopes, hjoined.symm⟩, hchecked.scopes, ?_, hchecked.keyId, rfl⟩
  cases hkeyId : identity.keyId with
  | none =>
    rw [hkeyId] at hkey
    exact ⟨none, uniqueHeaderStr_not_appended hheaders hkey, rfl⟩
  | some keyId =>
    have hvalid := hchecked.keyId
    rw [hkeyId] at hkey hvalid
    obtain ⟨hvisible, htrim⟩ := hplain.keyId keyId hkeyId
    refine ⟨some keyId, hread hkey hvisible, ?_⟩
    rw [filter_trim (by simpa using hvalid) htrim]

/-- **And back**: an identity that is read back as it was is plain. -/
theorem Plain.of_survives (hsurvives : SurvivesHop secret identity) : Plain identity := by
  obtain ⟨headers, read, hheaders, hidentity, -, horgId, hkeyId, -⟩ := hsurvives
  have hvouched := trustedEdgeIdentity_eq_some_iff.1 hidentity
  obtain ⟨-, horg, -, hscope, hkey⟩ := @filter_hopHeaders identity secret
  refine ⟨?_, fun keyId hsome => ?_, ?_⟩
  · obtain ⟨text, hread, htrim⟩ := hvouched.orgId
    obtain ⟨heq, hvisible⟩ := (uniqueHeaderStr_appended hheaders horg _).1 hread
    obtain rfl := Option.some.inj heq
    exact ⟨hvisible, htrim.symm.trans horgId⟩
  · obtain ⟨text, hread, hfilter⟩ := hvouched.keyId
    rw [hsome] at hkey
    obtain ⟨rfl, hvisible⟩ := (uniqueHeaderStr_appended hheaders hkey _).1 hread
    rw [hkeyId, hsome] at hfilter
    have htrim : some (trim keyId) = some keyId := by
      have := (Option.filter_eq_some_iff.1 hfilter.symm).1
      exact this
    exact ⟨hvisible, Option.some.inj htrim⟩
  · obtain ⟨text, hread, -⟩ := hvouched.scopes
    obtain ⟨-, hvisible⟩ := (uniqueHeaderStr_appended hheaders hscope _).1 hread
    exact visibleText_intercalate.1 hvisible

end

/-- **When an identity survives the trusted hop.**  Of the identities the balancer can come
to, exactly those are read back as they were — with a proof that can be sent — whose parts
are visible ASCII and whose identifiers have no white space around them. -/
theorem survivesHop_iff {secret : String} (hsecret : VisibleText secret)
    {identity : VerifiedIdentity} (h : Produced identity) :
    SurvivesHop secret identity ↔ Plain identity :=
  ⟨.of_survives, .of_plain hsecret h.checked⟩

namespace Sample

/-- What the auth service says of a key of this tenant. -/
def introspectionOf (orgId : String) : Introspection where
  valid := true
  orgId := some orgId
  keyId := none
  scopes := ["kv:read"]
  requireIdempotency := none

/-- The identity of this tenant's key. -/
def tenant (orgId : String) : VerifiedIdentity where
  kind := .apiKey
  orgId
  keyId := none
  scopes := ["kv:read"]
  requireIdempotency := false

end Sample

/-- A tenant without white space around its name survives the hop. -/
theorem survivesHop_plain : SurvivesHop "s" (Sample.tenant "a") := by
  have hproduced : Produced (Sample.tenant "a") :=
    Or.inr (Or.inl ⟨Sample.introspectionOf "a", by decide +kernel⟩)
  refine (survivesHop_iff (visibleText_iff.2 (by decide)) hproduced).2 ⟨⟨?_, ?_⟩, ?_, ?_⟩
  · exact visibleText_iff.2 (by decide)
  · decide +kernel
  · exact fun keyId hkeyId => absurd hkeyId (by simp [Sample.tenant])
  · exact List.forall_mem_singleton.2 (visibleText_iff.2 (by decide))

/-- **A tenant with a space before its name does not survive the hop**: the balancer routes
by the name with the space, the next hop reads it without. -/
theorem not_survivesHop :
    identityFromIntrospection (Sample.introspectionOf " a") = some (Sample.tenant " a") ∧
      ¬SurvivesHop "s" (Sample.tenant " a") := by
  refine ⟨by decide +kernel, fun hsurvives => ?_⟩
  exact absurd (Plain.of_survives hsurvives).orgId.2 (by decide +kernel)

end Auth

end LoadBalance
