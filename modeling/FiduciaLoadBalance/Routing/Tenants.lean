import FiduciaLoadBalance.Auth.Hop
import FiduciaLoadBalance.Routing.Spelling

/-!
# Routing keys separate tenants

The cluster names an org's key with the org in front, between two separators.  A key may
hold any character; what keeps the names of two orgs apart is that no org id holds the
separator, and that is the work of the checks on an identity.

* `separator_notMem_orgId` — whichever of its three sources an identity came from, its org
  id holds no separator, although the checks look at it with the white space removed.
* `scopedKey_inj` — so scoping is injective in org and key together.
* `tenants_separate` — two requests to endpoints of their orgs share a routing key exactly
  when their orgs and their keys are the same, unless one of them releases a claim.
-/

namespace LoadBalance

open Http Text
open Auth (Produced)

/-- What stands in front of an org and in front of its key. -/
def separator : Char := Char.ofNat 1

/-- The cluster's shared crate names an org's key so. -/
def Env.ScopesByOrg (env : Env) : Prop :=
  ∀ org key, env.orgScopedKey org key =
    String.singleton separator ++ org ++ String.singleton separator ++ key

/-- The separator is a control character, and no white space: it is not trimmed away before
the check for control characters. -/
theorem separator_notMem_orgId {identity : VerifiedIdentity} (h : Produced identity) :
    separator ∉ identity.orgId.toList := by
  intro hmem
  have hvalid := validIdentifier_iff.1 h.checked.orgId
  have htrimmed : separator ∈ (trim identity.orgId).toList :=
    mem_trimMatches_of_not (by decide) hmem
  exact absurd (hvalid.2.2 separator htrimmed).1 (by decide)

/-- **Scoping is injective**: the first two separators of a scoped key are the ones that
were put there. -/
theorem scopedKey_inj {env : Env} (hscopes : env.ScopesByOrg) {org org' key key' : String}
    (horg : separator ∉ org.toList) (horg' : separator ∉ org'.toList) :
    scopedKey env (some org) key = scopedKey env (some org') key' ↔ org = org' ∧ key = key' := by
  constructor
  · intro h
    have htext :
        org.toList ++ separator :: key.toList = org'.toList ++ separator :: key'.toList := by
      have hsame : env.orgScopedKey org key = env.orgScopedKey org' key' := h
      rw [hscopes, hscopes, ← String.toList_inj] at hsame
      simpa using hsame
    obtain ⟨hfirst, hrest⟩ := append_cons_inj_of_first horg horg' htext
    exact ⟨String.toList_inj.1 hfirst, String.toList_inj.1 hrest⟩
  · rintro ⟨rfl, rfl⟩
    rfl

section

variable {env : Env} {org org' key key' : String} {uri uri' : Uri} {body body' : Bytes}

/-- The two requests have a routing key, and the same. -/
def ShareKey (env : Env) (org : String) (uri : Uri) (body : Bytes) (org' : String) (uri' : Uri)
    (body' : Bytes) : Prop :=
  ∃ shared, routingKeyWithBody env uri body (some org) = some shared ∧
    routingKeyWithBody env uri' body' (some org') = some shared

/-- Two requests share a routing key exactly when neither releases a claim, and org and key are
the same. -/
theorem shareKey_iff (hscopes : env.ScopesByOrg) (horg : separator ∉ org.toList)
    (horg' : separator ∉ org'.toList) (hkey : CallerKey env uri body key)
    (hkey' : CallerKey env uri' body' key') :
    ShareKey env org uri body org' uri' body' ↔
      (¬Releases uri ∧ ¬Releases uri') ∧ org = org' ∧ key = key' := by
  constructor
  · rintro ⟨shared, hshared, hshared'⟩
    have hnot : ¬Releases uri := fun hreleases => by
      rw [routingKeyWithBody_of_releases hreleases] at hshared
      exact absurd hshared (by simp)
    have hnot' : ¬Releases uri' := fun hreleases => by
      rw [routingKeyWithBody_of_releases hreleases] at hshared'
      exact absurd hshared' (by simp)
    rw [routingKeyWithBody_of_routedKey (hkey.routed_iff.2 hnot)] at hshared
    rw [routingKeyWithBody_of_routedKey (hkey'.routed_iff.2 hnot')] at hshared'
    have hsame := Option.some.inj (hshared.trans hshared'.symm)
    exact ⟨⟨hnot, hnot'⟩, (scopedKey_inj hscopes horg horg').1 hsame⟩
  · rintro ⟨⟨hnot, hnot'⟩, rfl, rfl⟩
    exact ⟨scopedKey env (some org) key, routingKeyWithBody_of_routedKey (hkey.routed_iff.2 hnot) _,
      routingKeyWithBody_of_routedKey (hkey'.routed_iff.2 hnot') _⟩

theorem routingKeyWithBody_eq_none_iff (hkey : CallerKey env uri body key) (org : String) :
    routingKeyWithBody env uri body (some org) = none ↔ Releases uri := by
  refine ⟨fun hnone => ?_, fun hreleases => routingKeyWithBody_of_releases hreleases _⟩
  by_contra hnot
  rw [routingKeyWithBody_of_routedKey (hkey.routed_iff.2 hnot)] at hnone
  exact absurd hnone (by simp)

/-- Two requests that get the same share a routing key, or have none. -/
theorem routingKeyWithBody_eq_iff (hkey : CallerKey env uri body key)
    (hkey' : CallerKey env uri' body' key') :
    routingKeyWithBody env uri body (some org) = routingKeyWithBody env uri' body' (some org') ↔
      ShareKey env org uri body org' uri' body' ∨ (Releases uri ∧ Releases uri') := by
  rw [← routingKeyWithBody_eq_none_iff hkey org, ← routingKeyWithBody_eq_none_iff hkey' org',
    ShareKey]
  cases routingKeyWithBody env uri body (some org) with
  | none => simp [eq_comm]
  | some shared => simp [eq_comm]

end

/-- **Routing keys separate tenants and agree within one.**  Two requests that name keys at
endpoints of their orgs share a routing key exactly when org and key are the same, whichever
endpoints and surfaces carried the keys; if and only if neither of them releases a claim, or
they differ in org or key.  And what they get is the same, be it nothing, exactly when org and
key are; if and only if neither releases a claim, or both do just when org and key are the
same. -/
theorem tenants_separate {env : Env} (hscopes : env.ScopesByOrg)
    {identity identity' : VerifiedIdentity} (h : Produced identity) (h' : Produced identity')
    {uri uri' : Uri} {body body' : Bytes} {key key' : String}
    (hkey : CallerKey env uri body key) (hkey' : CallerKey env uri' body' key') :
    ((ShareKey env identity.orgId uri body identity'.orgId uri' body' ↔
        identity.orgId = identity'.orgId ∧ key = key') ↔
      (¬Releases uri ∧ ¬Releases uri') ∨ ¬(identity.orgId = identity'.orgId ∧ key = key')) ∧
    ((routingKeyWithBody env uri body (some identity.orgId) =
          routingKeyWithBody env uri' body' (some identity'.orgId) ↔
        identity.orgId = identity'.orgId ∧ key = key') ↔
      (¬Releases uri ∧ ¬Releases uri') ∨
        (Releases uri ∧ Releases uri' ↔ identity.orgId = identity'.orgId ∧ key = key')) := by
  rw [routingKeyWithBody_eq_iff hkey hkey', shareKey_iff hscopes (separator_notMem_orgId h)
    (separator_notMem_orgId h') hkey hkey']
  by_cases hsame : identity.orgId = identity'.orgId ∧ key = key'
  · simp only [hsame, and_true, iff_true, not_true_eq_false, or_false]
  · simp only [hsame, and_false, iff_false, not_false_eq_true, or_true, false_or]
    exact ⟨trivial, ⟨Or.inr, fun h => h.elim (fun hnot hboth => hnot.1 hboth.1) id⟩⟩

namespace Reference

/-- The cluster's own naming of keys. -/
def scopingEnv : Env :=
  { env with orgScopedKey := fun org key =>
      String.singleton separator ++ org ++ String.singleton separator ++ key }

theorem scopesByOrg : scopingEnv.ScopesByOrg := fun _ _ => rfl

end Reference

/-- One tenant's key in a query and in a path. -/
theorem tenants_separate_surfaces :
    ShareKey Reference.scopingEnv "a" (Reference.kvUri "key=a+b" (by decide)) [] "a"
      Reference.electionUri [] := by
  have hproduced : Produced (Auth.Sample.tenant "a") :=
    Or.inr (Or.inl ⟨Auth.Sample.introspectionOf "a", by decide +kernel⟩)
  have hkv : RoutedKey Reference.scopingEnv (Reference.kvUri "key=a+b" (by decide)) [] "a b" :=
    Reference.carries_kv.routedKey (by decide) []
  have helection : RoutedKey Reference.scopingEnv Reference.electionUri [] "a b" :=
    Reference.carries_election.routedKey (by decide) []
  have hnot := (CallerKey.routed hkv).routed_iff.1 hkv
  have hnot' := (CallerKey.routed helection).routed_iff.1 helection
  exact ((tenants_separate Reference.scopesByOrg hproduced hproduced (.routed hkv)
    (.routed helection)).1.2 (Or.inl ⟨hnot, hnot'⟩)).2 ⟨rfl, rfl⟩

/-- **The release of a claim is routed apart from the claim**: one org claims a key and
releases it, and only one of the two requests gets a routing key. -/
theorem not_tenants_separate : ∃ body : Bytes,
    Produced (Auth.Sample.tenant "a") ∧
    CallerKey Reference.scopingEnv Proxy.claimUri body "k" ∧
    CallerKey Reference.scopingEnv Proxy.abandonUri body "k" ∧
    ¬(routingKeyWithBody Reference.scopingEnv Proxy.claimUri body
          (some (Auth.Sample.tenant "a").orgId) =
        routingKeyWithBody Reference.scopingEnv Proxy.abandonUri body
          (some (Auth.Sample.tenant "a").orgId) ↔
      (Auth.Sample.tenant "a").orgId = (Auth.Sample.tenant "a").orgId ∧ "k" = "k") := by
  have hproduced : Produced (Auth.Sample.tenant "a") :=
    Or.inr (Or.inl ⟨Auth.Sample.introspectionOf "a", by decide +kernel⟩)
  have hfield : jsonBodyField Reference.scopingEnv
      (Reference.env.toVec (.ofFields [("key", .string "k")])) "key" = some "k" := by
    decide +kernel
  have hclaim : segments Proxy.claimUri.path = ["v1", "idempotency", "claim"] := by
    decide +kernel
  have habandon : segments Proxy.abandonUri.path = ["v1", "idempotency", "abandon"] := by
    decide +kernel
  have hrouted : RoutedKey Reference.scopingEnv Proxy.claimUri
      (Reference.env.toVec (.ofFields [("key", .string "k")])) "k" := .body .claim hclaim hfield
  refine ⟨_, hproduced, .routed hrouted, .release habandon hfield, ?_⟩
  intro hiff
  have hequal := hiff.2 ⟨rfl, rfl⟩
  rw [routingKeyWithBody_of_routedKey hrouted, routingKeyWithBody_of_releases habandon] at hequal
  exact absurd hequal (by simp)

end LoadBalance
