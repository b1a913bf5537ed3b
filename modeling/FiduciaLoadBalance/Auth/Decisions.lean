import FiduciaLoadBalance.Auth.Authenticate
import FiduciaLoadBalance.Data.TreeMap

/-!
# The cache of decisions on credentials

What was decided on a credential is remembered until it expires: the identity of an API
key, or that a credential was rejected.

* `pruneDecisions` — a full cache drops what has expired, or else what expires soonest.
* `Runs` — an authentication process against the cache and the clock: lookups are answered
  from the cache, decisions go into it, and nothing else touches it.
* `Runs.of_no_decision` — steps that neither look up nor decide leave the cache alone.
* `size_pruneDecisions`, `evicted_of_pruneDecisions` — there is room after pruning, and what
  that costs.
-/

namespace LoadBalance

open Conc

namespace Auth

structure CachedDecision where
  expiresAt : Instant
  identity : Option VerifiedIdentity
deriving DecidableEq

abbrev Decisions : Type := Std.ExtTreeMap String CachedDecision

def maxCachedDecisions : ℕ := 10000

/-- Where the monotonic clock ends: its seconds are a signed 64-bit number. -/
def instantLimit : Instant := 2 ^ 63 * 1000000000

/-- What was decided, if that has not expired. -/
def Decisions.cached (decisions : Decisions) (key : String) (now : Instant) :
    Option (Option VerifiedIdentity) :=
  decisions[key]?.bind fun cached =>
    if now < cached.expiresAt then some cached.identity else none

/-- The decisions that have not expired. -/
def Decisions.live (decisions : Decisions) (now : Instant) : Decisions :=
  decisions.filter fun _ cached => now < cached.expiresAt

/-- The keys of the decisions that expire soonest: one of them is dropped when the cache
is full, and which one is not determined. -/
def Decisions.soonest (decisions : Decisions) : List String :=
  (decisions.toList.filter fun entry =>
    decisions.toList.all fun other => entry.2.expiresAt ≤ other.2.expiresAt).map Prod.fst

/-- Make room; `victim` is the decision dropped where expiry makes none. -/
def pruneDecisions (decisions : Decisions) (now : Instant) (capacity : ℕ) (victim : String) :
    Decisions :=
  if decisions.size < capacity then decisions
  else if (decisions.live now).size < capacity then decisions.live now
  else (decisions.live now).erase victim

/-- A call on the cache of decisions. -/
def Call.IsDecision : Call → Prop
  | .cachedDecision _ => True
  | .insertDecision _ _ _ _ => True
  | _ => False

/-- A process against the cache and the clock, from the decisions at one time to those at
a later one.  A decision that would expire past the end of the clock is not stored: adding up
when it does panics, and the call ends there without a result. -/
inductive Runs : Decisions → Instant → List TaskEvent → Decisions → Instant → Prop
  | nil (decisions : Decisions) (t : Instant) : Runs decisions t [] decisions t
  | cachedDecision {decisions decisions' : Decisions} {t now t' : Instant} {tr : List TaskEvent}
      {key : String} (hnow : t ≤ now) (rest : Runs decisions now tr decisions' t') :
      Runs decisions t (⟨.cachedDecision key, decisions.cached key now⟩ :: tr) decisions' t'
  | instantNow {decisions decisions' : Decisions} {t now t' : Instant} {tr : List TaskEvent}
      (hnow : t ≤ now) (rest : Runs decisions now tr decisions' t') :
      Runs decisions t (⟨.instantNow, now⟩ :: tr) decisions' t'
  | insertDecision {decisions decisions' : Decisions} {t now t₁ t' : Instant}
      {tr : List TaskEvent} {key victim : String} {identity : Option VerifiedIdentity} {ttl : ℕ}
      (hnow : t ≤ t₁) (hvictim : victim ∈ (decisions.live now).soonest ∨ decisions.live now = ∅)
      (hexpires : now + ttl < instantLimit)
      (rest : Runs ((pruneDecisions decisions now maxCachedDecisions victim).insert key
        { expiresAt := now + ttl, identity }) t₁ tr decisions' t') :
      Runs decisions t (⟨.insertDecision key identity ttl now, ()⟩ :: tr) decisions' t'
  | other {decisions decisions' : Decisions} {t now t' : Instant} {tr : List TaskEvent}
      {e : Call} {answer : e.Answer} (he : ¬e.IsDecision) (hclock : e ≠ .instantNow)
      (hnow : t ≤ now) (rest : Runs decisions now tr decisions' t') :
      Runs decisions t (⟨e, answer⟩ :: tr) decisions' t'

variable {decisions decisions' : Decisions} {t t' : Instant} {tr tr' : List TaskEvent}

/-- The clock does not go back. -/
theorem Runs.le (h : Runs decisions t tr decisions' t') : t ≤ t' := by
  induction h with
  | nil => exact le_rfl
  | cachedDecision hnow _ ih => exact hnow.trans ih
  | instantNow hnow _ ih => exact hnow.trans ih
  | insertDecision hnow _ _ _ ih => exact hnow.trans ih
  | other _ _ hnow _ ih => exact hnow.trans ih

/-- A run can be cut anywhere. -/
theorem Runs.of_append (h : Runs decisions t (tr ++ tr') decisions' t') :
    ∃ between t₁, Runs decisions t tr between t₁ ∧ Runs between t₁ tr' decisions' t' := by
  induction tr generalizing decisions t with
  | nil => exact ⟨decisions, t, .nil _ _, h⟩
  | cons ev tr ih =>
    cases h with
    | cachedDecision hnow rest =>
      obtain ⟨between, t₁, hfirst, hsecond⟩ := ih rest
      exact ⟨between, t₁, .cachedDecision hnow hfirst, hsecond⟩
    | instantNow hnow rest =>
      obtain ⟨between, t₁, hfirst, hsecond⟩ := ih rest
      exact ⟨between, t₁, .instantNow hnow hfirst, hsecond⟩
    | insertDecision hnow hvictim hexpires rest =>
      obtain ⟨between, t₁, hfirst, hsecond⟩ := ih rest
      exact ⟨between, t₁, .insertDecision hnow hvictim hexpires hfirst, hsecond⟩
    | other he hclock hnow rest =>
      obtain ⟨between, t₁, hfirst, hsecond⟩ := ih rest
      exact ⟨between, t₁, .other he hclock hnow hfirst, hsecond⟩

/-- **Nothing else touches the cache.** -/
theorem Runs.of_no_decision (h : Runs decisions t tr decisions' t')
    (hnone : ∀ ev ∈ tr, ¬ev.1.IsDecision) : decisions' = decisions := by
  induction h with
  | nil => rfl
  | cachedDecision _ _ _ => exact absurd trivial (hnone _ List.mem_cons_self)
  | instantNow _ _ ih => exact ih fun ev hev => hnone ev (List.mem_cons_of_mem _ hev)
  | insertDecision _ _ _ _ _ => exact absurd trivial (hnone _ List.mem_cons_self)
  | other _ _ _ _ ih => exact ih fun ev hev => hnone ev (List.mem_cons_of_mem _ hev)

theorem Runs.lookup {key : String} {cached : Option (Option VerifiedIdentity)}
    (h : Runs decisions t (⟨.cachedDecision key, cached⟩ :: tr) decisions' t') :
    ∃ now, t ≤ now ∧ cached = decisions.cached key now ∧ Runs decisions now tr decisions' t' := by
  cases h with
  | cachedDecision hnow rest => exact ⟨_, hnow, rfl, rest⟩
  | other he _ _ _ => exact absurd trivial he

/-- A decision that is remembered is in the cache afterwards. -/
theorem Runs.remembered {key : String} {identity : Option VerifiedIdentity} {ttl : ℕ}
    {now : Instant}
    (h : Runs decisions t [⟨.instantNow, now⟩, ⟨.insertDecision key identity ttl now, ()⟩]
      decisions' t') :
    t ≤ now ∧ ∃ kept : Decisions,
      decisions' = kept.insert key { expiresAt := now + ttl, identity } := by
  cases h with
  | other _ hclock _ _ => exact absurd rfl hclock
  | instantNow hnow rest =>
    cases rest with
    | other he _ _ _ => exact absurd trivial he
    | insertDecision _ _ _ rest =>
      cases rest
      exact ⟨hnow, _, rfl⟩

/-! ## Looking up later -/

/-- A decision that is cached at a later time was there at an earlier one. -/
theorem Decisions.cached_of_le {key : String} {now later : Instant} (hle : now ≤ later)
    {found : Option VerifiedIdentity} (h : decisions.cached key later = some found) :
    decisions.cached key now = some found := by
  obtain ⟨cached, hentry, hlive⟩ := Option.bind_eq_some_iff.1 h
  split at hlive
  · rename_i hlt
    rw [Decisions.cached, hentry, Option.bind_some, if_pos (lt_of_le_of_lt hle hlt), hlive]
  · exact absurd hlive (by simp)

/-- A decision is found until it expires. -/
theorem Decisions.cached_insert (decisions : Decisions) (key : String) (entry : CachedDecision)
    {now : Instant} (hnow : now < entry.expiresAt) :
    Decisions.cached (decisions.insert key entry) key now = some entry.identity := by
  rw [Decisions.cached, Std.ExtTreeMap.getElem?_insert_self, Option.bind_some, if_pos hnow]

/-! ## Making room -/

theorem Decisions.soonest_eq (decisions : Decisions) :
    decisions.soonest = TreeMap.least CachedDecision.expiresAt decisions := rfl

variable {key victim : String} {entry : CachedDecision} {now : Instant} {capacity : ℕ}

theorem Decisions.live_eq_some : (decisions.live now)[key]? = some entry ↔
    decisions[key]? = some entry ∧ now < entry.expiresAt := by
  rw [Decisions.live, Std.ExtTreeMap.getElem?_filter', Option.filter_eq_some_iff,
    decide_eq_true_iff]

theorem Decisions.size_live_le (decisions : Decisions) (now : Instant) :
    (decisions.live now).size ≤ decisions.size :=
  Std.ExtTreeMap.size_filter_le_size

/-- Pruning changes no decision. -/
theorem getElem?_of_pruneDecisions
    (h : (pruneDecisions decisions now capacity victim)[key]? = some entry) :
    decisions[key]? = some entry := by
  unfold pruneDecisions at h
  split at h
  · exact h
  split at h
  · exact (Decisions.live_eq_some.1 h).1
  · rw [TreeMap.getElem?_erase_eq] at h
    split at h
    · exact absurd h (by simp)
    · exact (Decisions.live_eq_some.1 h).1

/-- **There is room after pruning.** -/
theorem size_pruneDecisions (hpos : 0 < capacity) (hsize : decisions.size ≤ capacity)
    (hvictim : victim ∈ (decisions.live now).soonest ∨ decisions.live now = ∅) :
    (pruneDecisions decisions now capacity victim).size < capacity := by
  unfold pruneDecisions
  split
  · rename_i hroom
    exact hroom
  split
  · rename_i hroom
    exact hroom
  · rename_i hfull
    have hheld : victim ∈ (decisions.live now).soonest := by
      refine hvictim.resolve_right ?_
      intro hempty
      rw [hempty, Std.ExtTreeMap.size_empty] at hfull
      exact hfull hpos
    have hmem := Std.ExtTreeMap.mem_iff_contains.1 (TreeMap.mem_of_mem_least hheld)
    have hle := decisions.size_live_le now
    rw [Std.ExtTreeMap.size_erase, if_pos hmem]
    omega

/-- What it takes for a decision that has not expired at a time to be dropped. -/
structure Evicted (capacity : ℕ) (decisions kept : Decisions) (key : String)
    (entry : CachedDecision) (t : Instant) : Prop where
  /-- There were as many decisions that have not expired as there may be. -/
  full : (decisions.live t).size = capacity
  /-- None of them expires sooner. -/
  soonest : ∀ (other : String) (entry' : CachedDecision), decisions[other]? = some entry' →
    t < entry'.expiresAt → entry.expiresAt ≤ entry'.expiresAt
  /-- The others were all kept. -/
  only : ∀ (other : String) (entry' : CachedDecision), other ≠ key →
    decisions[other]? = some entry' → t < entry'.expiresAt → kept[other]? = some entry'

/-- **What is dropped before it expires** was dropped from a full cache, as the only one and
one of those that expire soonest. -/
theorem evicted_of_pruneDecisions (hsize : decisions.size ≤ capacity)
    (hvictim : victim ∈ (decisions.live now).soonest ∨ decisions.live now = ∅)
    (hentry : decisions[key]? = some entry)
    (hlost : key ∉ pruneDecisions decisions now capacity victim) {t : Instant} (hnow : now ≤ t)
    (ht : t < entry.expiresAt) :
    Evicted capacity decisions (pruneDecisions decisions now capacity victim) key entry t := by
  have hheld : (decisions.live now)[key]? = some entry :=
    Decisions.live_eq_some.2 ⟨hentry, hnow.trans_lt ht⟩
  unfold pruneDecisions at hlost ⊢
  split at hlost
  · exact absurd (TreeMap.mem_iff_exists.2 ⟨entry, hentry⟩) hlost
  rename_i hcrowded
  split at hlost
  · exact absurd (TreeMap.mem_iff_exists.2 ⟨entry, hheld⟩) hlost
  rename_i hfull
  rw [if_neg hcrowded, if_neg hfull]
  -- of the decisions that are left, only the victim is taken out
  obtain rfl : key = victim := by
    by_contra hne
    refine hlost (TreeMap.mem_iff_exists.2 ⟨entry, ?_⟩)
    rw [TreeMap.getElem?_erase_eq, if_neg hne, hheld]
  have hsoonest : key ∈ (decisions.live now).soonest := by
    refine hvictim.resolve_right ?_
    intro hempty
    rw [hempty] at hheld
    exact absurd hheld (by simp)
  obtain ⟨least, hleast, hfirst⟩ := TreeMap.mem_least.1 hsoonest
  obtain rfl : entry = least := Option.some.inj (hheld.symm.trans hleast)
  -- they all outlive the time, as the victim does
  have hsame : decisions.live t = decisions.live now := by
    refine Std.ExtTreeMap.ext_getElem? fun other => Option.ext fun entry' => ?_
    rw [Decisions.live_eq_some, Decisions.live_eq_some]
    constructor
    · rintro ⟨hother, hlive⟩
      exact ⟨hother, hnow.trans_lt hlive⟩
    · rintro ⟨hother, hlive⟩
      exact ⟨hother, ht.trans_le (hfirst other entry' (Decisions.live_eq_some.2 ⟨hother, hlive⟩))⟩
  refine ⟨?_, ?_, ?_⟩
  · have hle := decisions.size_live_le now
    rw [hsame]
    omega
  · intro other entry' hother hlive
    exact hfirst other entry' (Decisions.live_eq_some.2 ⟨hother, hnow.trans_lt hlive⟩)
  · intro other entry' hne hother hlive
    rw [TreeMap.getElem?_erase_eq, if_neg hne]
    exact Decisions.live_eq_some.2 ⟨hother, hnow.trans_lt hlive⟩

end Auth

end LoadBalance
