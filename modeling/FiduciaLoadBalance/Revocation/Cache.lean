import FiduciaLoadBalance.Env
import FiduciaLoadBalance.Text.Framed

/-!
# The cache of revocation decisions

What the gate remembers about tokens: per key the last decision of the authority and
when it was made.  All of it is behind one clock, the latest second at which the cache
was touched (`highWater`); a touch from before that second is refused.

* `RevocationCache.lookup`, `recordRefreshStart`, `apply` — its critical sections;
* `revocationCacheKey` — the key of a token, with `revocationCacheKey_injective`.
-/

namespace LoadBalance

open Http Text

namespace Revocation

/-- The claims of a token. -/
structure Claims where
  sub : String
  orgId : String
  scopes : List String
  iss : String
  aud : String
  iat : UInt64
  exp : UInt64
  jti : String
  /-- The length of a string is a machine word. -/
  fits : ∀ field ∈ [iss, aud, orgId, sub, jti], (utf8 field).length < 2 ^ 64
deriving DecidableEq

inductive Unavailable : Type
  | clockRegression
  | refreshFailed
  | refreshTimedOut
deriving DecidableEq

inductive Authorization : Type
  | allowed
  | revoked
  | unavailable (reason : Unavailable)
deriving DecidableEq

inductive Decision : Type
  | allow
  | deny
deriving DecidableEq

inductive Lookup : Type
  | fresh (decision : Decision)
  | stale
  | miss
deriving DecidableEq

structure Entry where
  decision : Decision
  observedAt : ℕ
deriving DecidableEq

structure RevocationCache where
  entries : Std.ExtTreeMap String Entry
  highWater : ℕ
  freshnessBudgetSecs : ℕ
  capacity : ℕ

namespace RevocationCache

def new (freshnessBudgetSecs capacity : ℕ) : RevocationCache where
  entries := ∅
  highWater := 0
  freshnessBudgetSecs := max freshnessBudgetSecs 1
  capacity := max capacity 1

/-- Touch the cache at a second; none if it was touched at a later one. -/
def advance (cache : RevocationCache) (now : ℕ) : Option RevocationCache :=
  if now < cache.highWater then none else some { cache with highWater := now }

/-- What the cache knows of a key. -/
def lookup (cache : RevocationCache) (key : String) (now : ℕ) :
    Option (Lookup × RevocationCache) :=
  (cache.advance now).map fun cache =>
    (match cache.entries[key]? with
      | some entry =>
        if now - entry.observedAt ≤ cache.freshnessBudgetSecs then .fresh entry.decision else .stale
      | none => .miss, cache)

def recordRefreshStart (cache : RevocationCache) (now : ℕ) : Option RevocationCache :=
  cache.advance now

/-- The keys of the entries with the earliest observation: one of them is evicted when
the cache is full, and which one is not determined. -/
def oldest (cache : RevocationCache) : List String :=
  (cache.entries.toList.filter fun entry =>
    cache.entries.toList.all fun other => entry.2.observedAt ≤ other.2.observedAt).map Prod.fst

/-- Does recording a decision for this key evict an entry? -/
def evicts (cache : RevocationCache) (key : String) : Bool :=
  !cache.entries.contains key && cache.capacity ≤ cache.entries.size

/-- Record a decision; `victim` is the entry evicted if the cache is full. -/
def apply (cache : RevocationCache) (victim key : String) (decision : Decision) (now : ℕ) :
    Option RevocationCache :=
  (cache.advance now).map fun cache =>
    { cache with
      entries := (if cache.evicts key then cache.entries.erase victim else cache.entries).insert key
        { decision, observedAt := now } }

/-! ### What a critical section does -/

variable {cache cache' : RevocationCache} {key victim : String} {decision : Decision} {now : ℕ}

theorem advance_eq_some : cache.advance now = some cache' ↔
    cache.highWater ≤ now ∧ cache' = { cache with highWater := now } := by
  unfold advance
  by_cases hlt : now < cache.highWater
  · rw [if_pos hlt]
    exact ⟨fun h => absurd h (by simp), fun h => absurd hlt (not_lt.2 h.1)⟩
  · rw [if_neg hlt, Option.some.injEq, eq_comm]
    exact ⟨fun h => ⟨not_lt.1 hlt, h⟩, And.right⟩

theorem advance_eq_none : cache.advance now = none ↔ now < cache.highWater := by
  simp [advance]

theorem lookup_eq_none : cache.lookup key now = none ↔ now < cache.highWater := by
  rw [lookup, Option.map_eq_none_iff, advance_eq_none]

theorem apply_eq_none : cache.apply victim key decision now = none ↔ now < cache.highWater := by
  rw [apply, Option.map_eq_none_iff, advance_eq_none]

/-- A lookup touches the cache and does nothing else to it. -/
theorem lookup_eq_some {found : Lookup} (h : cache.lookup key now = some (found, cache')) :
    cache.highWater ≤ now ∧ cache' = { cache with highWater := now } := by
  obtain ⟨touched, htouched, hpair⟩ := Option.map_eq_some_iff.1 h
  rw [← (Prod.mk.inj hpair).2]
  exact advance_eq_some.1 htouched

/-- A fresh decision is an entry's, observed within the budget. -/
theorem lookup_eq_fresh (h : cache.lookup key now = some (.fresh decision, cache')) :
    ∃ entry, cache.entries[key]? = some entry ∧ entry.decision = decision ∧
      now - entry.observedAt ≤ cache.freshnessBudgetSecs := by
  obtain ⟨touched, htouched, hpair⟩ := Option.map_eq_some_iff.1 h
  obtain ⟨-, rfl⟩ := advance_eq_some.1 htouched
  obtain ⟨hfound, -⟩ := Prod.mk.inj hpair
  split at hfound
  · rename_i entry hentry
    split at hfound
    · rename_i hbudget
      exact ⟨entry, hentry, Lookup.fresh.inj hfound, hbudget⟩
    · exact absurd hfound (by simp)
  · exact absurd hfound (by simp)

/-- An entry of the second it is looked up in, or of a later one, is fresh. -/
theorem lookup_eq_fresh_of_entry {found : Lookup} {entry : Entry}
    (h : cache.lookup key now = some (found, cache')) (hentry : cache.entries[key]? = some entry)
    (hobserved : now ≤ entry.observedAt) : found = .fresh entry.decision := by
  obtain ⟨touched, htouched, hpair⟩ := Option.map_eq_some_iff.1 h
  obtain ⟨-, rfl⟩ := advance_eq_some.1 htouched
  rw [← (Prod.mk.inj hpair).1]
  dsimp only
  rw [hentry]
  dsimp only
  rw [Nat.sub_eq_zero_of_le hobserved, if_pos (Nat.zero_le _)]

/-- What is known after a decision was recorded: that decision, and of another key at
most what was known of it. -/
theorem apply_eq_some (h : cache.apply victim key decision now = some cache') :
    cache.highWater ≤ now ∧ cache'.highWater = now ∧
      cache'.freshnessBudgetSecs = cache.freshnessBudgetSecs ∧
      cache'.entries[key]? = some ⟨decision, now⟩ ∧
      ∀ key' entry, key' ≠ key → cache'.entries[key']? = some entry →
        cache.entries[key']? = some entry := by
  obtain ⟨touched, htouched, rfl⟩ := Option.map_eq_some_iff.1 h
  obtain ⟨hle, rfl⟩ := advance_eq_some.1 htouched
  refine ⟨hle, rfl, rfl, by simp, fun key' entry hne hentry => ?_⟩
  rw [Std.ExtTreeMap.getElem?_insert, if_neg (by simpa using Ne.symm hne)] at hentry
  split at hentry
  · rw [Std.ExtTreeMap.getElem?_erase] at hentry
    split at hentry
    · exact absurd hentry (by simp)
    · exact hentry
  · exact hentry

end RevocationCache

/-- The key of a token: what the decision about it depends on. -/
def revocationCacheKey (env : Env) (claims : Claims) : String :=
  toHex (env.sha256 (framed
    ([claims.iss, claims.aud, claims.orgId, claims.sub, claims.jti].map utf8)))

/-- Claims of one token: the same issuer, audience, org, subject and token ID. -/
def SameToken (claims claims' : Claims) : Prop :=
  claims.iss = claims'.iss ∧ claims.aud = claims'.aud ∧ claims.orgId = claims'.orgId ∧
    claims.sub = claims'.sub ∧ claims.jti = claims'.jti

/-- **The key tells tokens apart.** -/
theorem revocationCacheKey_injective {env : Env} (hinj : env.CollisionFree) {claims claims' : Claims}
    (h : revocationCacheKey env claims = revocationCacheKey env claims') :
    SameToken claims claims' := by
  have hfields := framed_injective (by simp)
    (by simpa using claims.fits) (by simpa using claims'.fits) (hinj (toHex_injective h))
  simp only [List.map_cons, List.map_nil, List.cons.injEq, and_true] at hfields
  obtain ⟨hiss, haud, horg, hsub, hjti⟩ := hfields
  exact ⟨utf8_injective hiss, utf8_injective haud, utf8_injective horg, utf8_injective hsub,
    utf8_injective hjti⟩

end Revocation

end LoadBalance
