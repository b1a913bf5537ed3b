import FiduciaLoadBalance.Reference
import FiduciaLoadBalance.Revocation.Cache

/-!
# Tokens and their entries

Which tokens share an entry of the cache: those that agree in issuer, audience, org, subject
and token ID, whatever bytes these hold.

* `cacheKeyInput` — the bytes that are hashed, each field behind its length;
* `cacheKeyInput_eq_iff` — and what they tell;
* `entry_shared_iff` — so a decision on one token never answers for another.
-/

namespace LoadBalance

open Http Text

namespace Revocation

/-- The bytes whose digest is the key of a token. -/
def cacheKeyInput (claims : Claims) : Bytes :=
  framed ([claims.iss, claims.aud, claims.orgId, claims.sub, claims.jti].map utf8)

variable {env : Env} {claims claims' : Claims}

theorem revocationCacheKey_eq (env : Env) (claims : Claims) :
    revocationCacheKey env claims = toHex (env.sha256 (cacheKeyInput claims)) := rfl

/-- Claims of one token are hashed as the same bytes. -/
theorem SameToken.cacheKeyInput_eq (h : SameToken claims claims') :
    cacheKeyInput claims = cacheKeyInput claims' := by
  obtain ⟨hiss, haud, horg, hsub, hjti⟩ := h
  rw [cacheKeyInput, cacheKeyInput, hiss, haud, horg, hsub, hjti]

/-- **The bytes tell tokens apart**: the lengths say where each field ends. -/
theorem cacheKeyInput_eq_iff :
    cacheKeyInput claims = cacheKeyInput claims' ↔ SameToken claims claims' := by
  constructor
  · intro h
    have hfields := framed_injective (by simp) (by simpa using claims.fits)
      (by simpa using claims'.fits) h
    simp only [List.map_cons, List.map_nil, List.cons.injEq, and_true] at hfields
    obtain ⟨hiss, haud, horg, hsub, hjti⟩ := hfields
    exact ⟨utf8_injective hiss, utf8_injective haud, utf8_injective horg, utf8_injective hsub,
      utf8_injective hjti⟩
  · intro h
    exact h.cacheKeyInput_eq

theorem revocationCacheKey_eq_iff (hinj : env.CollisionFree) :
    revocationCacheKey env claims = revocationCacheKey env claims' ↔
      SameToken claims claims' := by
  constructor
  · exact revocationCacheKey_injective hinj
  · intro h
    rw [revocationCacheKey_eq, revocationCacheKey_eq, h.cacheKeyInput_eq]

/-- **Decisions are never shared between different tokens.**  The bytes that are hashed are
the same exactly for claims of one token, and the spelling of a digest is its own; so if no
two inputs have one digest, two tokens have one key exactly if they are the same.  Then a
decision recorded for one is what the cache has for the other; and otherwise it leaves the
cache with nothing for the other that was not there. -/
theorem entry_shared_iff (env : Env) (claims claims' : Claims) :
    (cacheKeyInput claims = cacheKeyInput claims' ↔ SameToken claims claims') ∧
    (∀ digest digest' : Bytes, toHex digest = toHex digest' ↔ digest = digest') ∧
    (env.CollisionFree →
      (revocationCacheKey env claims = revocationCacheKey env claims' ↔
        SameToken claims claims') ∧
      ∀ (cache cache' : RevocationCache) (victim : String) (decision : Decision) (now : ℕ),
        cache.apply victim (revocationCacheKey env claims) decision now = some cache' →
        (SameToken claims claims' →
          cache'.entries[revocationCacheKey env claims']? = some ⟨decision, now⟩) ∧
        (¬SameToken claims claims' → ∀ entry,
          cache'.entries[revocationCacheKey env claims']? = some entry →
          cache.entries[revocationCacheKey env claims']? = some entry)) := by
  refine ⟨cacheKeyInput_eq_iff, fun digest digest' => ⟨fun h => toHex_injective h, ?_⟩, ?_⟩
  · intro h
    rw [h]
  · intro hinj
    refine ⟨revocationCacheKey_eq_iff hinj, fun cache cache' victim decision now happly => ?_⟩
    obtain ⟨-, -, -, hown, hothers⟩ := RevocationCache.apply_eq_some happly
    constructor
    · intro hsame
      rw [← (revocationCacheKey_eq_iff hinj).2 hsame]
      exact hown
    · intro hother entry hentry
      refine hothers _ entry (fun hkey => hother ?_) hentry
      exact (revocationCacheKey_eq_iff hinj).1 hkey.symm

namespace Sample

/-- A token of the org `o`. -/
def ofOrg : Claims where
  sub := "o"
  orgId := "o"
  scopes := []
  iss := "i"
  aud := "a"
  iat := 0
  exp := 100
  jti := "j"
  fits := by decide +kernel

/-- One whose audience goes on like a length and an org. -/
def imitating : Claims where
  sub := "o"
  orgId := "o"
  scopes := []
  iss := "i"
  aud := "a\x00\x00\x00\x00\x00\x00\x00\x01o"
  iat := 0
  exp := 100
  jti := "j"
  fits := by decide +kernel

end Sample

/-- Bytes that look like the next field do not make it one. -/
theorem entry_shared_iff_imitating :
    cacheKeyInput Sample.ofOrg ≠ cacheKeyInput Sample.imitating ∧
      revocationCacheKey Reference.env Sample.ofOrg ≠
        revocationCacheKey Reference.env Sample.imitating := by
  have hother : ¬SameToken Sample.ofOrg Sample.imitating := by
    rintro ⟨-, haud, -⟩
    exact absurd haud (by decide)
  obtain ⟨hinput, -, hkeys⟩ := entry_shared_iff Reference.env Sample.ofOrg Sample.imitating
  exact ⟨fun h => hother (hinput.1 h), fun h => hother ((hkeys Reference.collisionFree).1.1 h)⟩

end Revocation

end LoadBalance
