import FiduciaLoadBalance.Concurrency.Machine
import FiduciaLoadBalance.Revocation.Cache

/-!
# The revocation gate

`authorize` as a process: it looks a token up, and if the cache does not know, takes the
key's lock, looks again, asks the authority and records the answer.  The cache, the locks
and the authority are calls answered from outside; the gate's machine (`gate`) runs any
number of such processes over one cache, with any authority and any clock.

* `gate env steady` — with `steady`, the clock never goes backwards and each call is given
  the second it started in;
* `decided` — the contract of `authorize`: it is allowed by a fresh decision it read or by
  one it recorded, and it records what the authority told it.
-/

namespace LoadBalance

open Conc

namespace Revocation

/-! ## Calls -/

/-- A lock, told from the others that were made. -/
abbrev LockId : Type := ℕ

/-- What comes of asking the authority. -/
inductive Checked : Type
  | answered (revoked : Bool)
  | failed
  | timedOut
deriving DecidableEq

inductive Call : Type
  | lookup (key : String) (now : ℕ)
  | acquireKey (key : String)
  | lock (lock : LockId)
  | recordRefreshStart (now : ℕ)
  | checkRevocation (claims : Claims) (now : ℕ)
  | apply (key : String) (decision : Decision) (now : ℕ)
  | unlock (lock : LockId)
  | releaseKey (key : String) (lock : LockId)
  | dropLock (lock : LockId)
deriving DecidableEq

/-- The type of the answer to a call; where the cache can refuse, an option or a success
flag. -/
@[reducible] def Call.Answer : Call → Type
  | .lookup _ _ => Option Lookup
  | .acquireKey _ => LockId
  | .lock _ => Unit
  | .recordRefreshStart _ => Bool
  | .checkRevocation _ _ => Checked
  | .apply _ _ _ => Bool
  | .unlock _ => Unit
  | .releaseKey _ _ => Unit
  | .dropLock _ => Unit

abbrev Task : Type → Type := Proc Call Call.Answer

abbrev TaskEvent : Type := Event Call Call.Answer

/-! ## The gate -/

def decisionToAuthorization : Decision → Authorization
  | .allow => .allowed
  | .deny => .revoked

def refresh (claims : Claims) (key : String) (now : ℕ) : Task Authorization := do
  if !(← Proc.perform (Call.recordRefreshStart now)) then return .unavailable .clockRegression
  else
    match ← Proc.perform (Call.checkRevocation claims now) with
    | .timedOut => return .unavailable .refreshTimedOut
    | .failed => return .unavailable .refreshFailed
    | .answered revoked =>
      let decision := if revoked then Decision.deny else .allow
      if !(← Proc.perform (Call.apply key decision now)) then
        return .unavailable .clockRegression
      else return decisionToAuthorization decision

/-- The second look, with the key's lock held. -/
def lookupLocked (claims : Claims) (key : String) (now : ℕ) : Task Authorization := do
  match ← Proc.perform (Call.lookup key now) with
  | none => return .unavailable .clockRegression
  | some (.fresh decision) => return decisionToAuthorization decision
  | some _ => refresh claims key now

/-- What is left to do if the first look did not settle it. -/
def withKeyLock (claims : Claims) (key : String) (now : ℕ) : Task Authorization := do
  let lock ← Proc.perform (Call.acquireKey key)
  Proc.perform (Call.lock lock)
  let outcome ← lookupLocked claims key now
  Proc.perform (Call.unlock lock)
  Proc.perform (Call.releaseKey key lock)
  Proc.perform (Call.dropLock lock)
  return outcome

def authorize (env : Env) (claims : Claims) (now : ℕ) : Task Authorization := do
  let key := revocationCacheKey env claims
  match ← Proc.perform (Call.lookup key now) with
  | none => return .unavailable .clockRegression
  | some (.fresh decision) => return decisionToAuthorization decision
  | some _ => withKeyLock claims key now

/-! ## Locks -/

/-- The locks of the keys. -/
structure KeyLocks where
  byKey : Std.ExtTreeMap String LockId
  /-- Who holds a lock. -/
  holder : LockId → Option ℕ
  /-- The references to locks of the tasks that have not released them. -/
  references : List (ℕ × LockId)
  /-- And of those that have, which are dropped after the release. -/
  released : List (ℕ × LockId)
  next : LockId

namespace KeyLocks

def empty : KeyLocks where
  byKey := ∅
  holder _ := none
  references := []
  released := []
  next := 0

/-- The lock of a key for task `i`, made if there is none. -/
def acquire (locks : KeyLocks) (i : ℕ) (key : String) : LockId × KeyLocks :=
  match locks.byKey[key]? with
  | some lock => (lock, { locks with references := (i, lock) :: locks.references })
  | none =>
    (locks.next,
      { locks with
        byKey := locks.byKey.insert key locks.next
        references := (i, locks.next) :: locks.references
        next := locks.next + 1 })

/-- The references to a lock, the map's own included. -/
def strongCount (locks : KeyLocks) (lock : LockId) : ℕ :=
  (locks.references.filter (·.2 = lock)).length + (locks.released.filter (·.2 = lock)).length +
    (locks.byKey.toList.filter (·.2 = lock)).length

/-- Task `i` releases its lock: the key's lock goes if nobody else has a reference. -/
def release (locks : KeyLocks) (i : ℕ) (key : String) (lock : LockId) : KeyLocks :=
  { locks with
    byKey := if locks.strongCount lock ≤ 2 then locks.byKey.erase key else locks.byKey
    references := locks.references.erase (i, lock)
    released := (i, lock) :: locks.released }

/-- Task `i` gives its reference up. -/
def dropReference (locks : KeyLocks) (i : ℕ) (lock : LockId) : KeyLocks :=
  { locks with released := locks.released.erase (i, lock) }

/-- Task `i` is gone, with its guard and its reference. -/
def forget (locks : KeyLocks) (i : ℕ) : KeyLocks :=
  { locks with
    holder lock := if locks.holder lock = some i then none else locks.holder lock
    references := locks.references.filter (·.1 ≠ i)
    released := locks.released.filter (·.1 ≠ i) }

end KeyLocks

/-! ## The machine -/

/-- What the calls of the gate share, and the clock they are made by. -/
structure Gate where
  cache : RevocationCache
  locks : KeyLocks
  clock : ℕ

def Gate.new (freshnessBudgetSecs capacity clock : ℕ) : Gate where
  cache := .new freshnessBudgetSecs capacity
  locks := .empty
  clock := clock

/-- A call of task `i`.  The authority may answer anything. -/
inductive Exec (i : ℕ) : Gate → (e : Call) → e.Answer → Gate → Prop
  | lookup {s : Gate} {key : String} {now : ℕ} {found : Lookup} {cache : RevocationCache} :
      s.cache.lookup key now = some (found, cache) →
      Exec i s (.lookup key now) (some found) { s with cache }
  | lookupRefused {s : Gate} {key : String} {now : ℕ} : s.cache.lookup key now = none →
      Exec i s (.lookup key now) none s
  | acquireKey (s : Gate) (key : String) :
      Exec i s (.acquireKey key) (s.locks.acquire i key).1
        { s with locks := (s.locks.acquire i key).2 }
  | lock {s : Gate} {lock : LockId} : s.locks.holder lock = none →
      Exec i s (.lock lock) ()
        { s with locks := { s.locks with holder := Function.update s.locks.holder lock (some i) } }
  | recordRefreshStart {s : Gate} {now : ℕ} {cache : RevocationCache} :
      s.cache.recordRefreshStart now = some cache →
      Exec i s (.recordRefreshStart now) true { s with cache }
  | refreshRefused {s : Gate} {now : ℕ} : s.cache.recordRefreshStart now = none →
      Exec i s (.recordRefreshStart now) false s
  | checkRevocation (s : Gate) (claims : Claims) (now : ℕ) (checked : Checked) :
      Exec i s (.checkRevocation claims now) checked s
  | apply {s : Gate} {victim key : String} {decision : Decision} {now : ℕ}
      {cache : RevocationCache} : (s.cache.evicts key = true → victim ∈ s.cache.oldest) →
      s.cache.apply victim key decision now = some cache →
      Exec i s (.apply key decision now) true { s with cache }
  | applyRefused {s : Gate} {key : String} {decision : Decision} {now : ℕ} :
      (∀ victim, s.cache.apply victim key decision now = none) →
      Exec i s (.apply key decision now) false s
  | unlock (s : Gate) (lock : LockId) :
      Exec i s (.unlock lock) ()
        { s with locks := { s.locks with holder := Function.update s.locks.holder lock none } }
  | releaseKey (s : Gate) (key : String) (lock : LockId) :
      Exec i s (.releaseKey key lock) () { s with locks := s.locks.release i key lock }
  | dropLock (s : Gate) (lock : LockId) :
      Exec i s (.dropLock lock) () { s with locks := s.locks.dropReference i lock }

/-- The gate at work.  If it is `steady`, the clock never goes backwards, and each call of
`authorize` is given the second it starts in. -/
def gate (env : Env) (steady : Prop) : Machine Call Call.Answer Authorization Gate where
  start s p := ∃ claims now, (steady → now = s.clock) ∧ p = authorize env claims now
  exec := Exec
  env s s' := ∃ clock, (steady → s.clock ≤ clock) ∧ s' = { s with clock }
  drop i _ s s' := s' = { s with locks := s.locks.forget i }

/-- One moment of the gate. -/
abbrev GateMoment : Type := Moment Call Call.Answer Authorization Gate

/-- **A moment is a call of a task**, or leaves the cache alone and, in a steady gate, does
not turn the clock back. -/
theorem allowed_cases {env : Env} {steady : Prop} {m : GateMoment}
    (hm : (gate env steady).Allowed m) :
    ((∀ i ev, m.label ≠ .answer i ev) ∧ m.after.cache = m.before.cache ∧
      (steady → m.before.clock ≤ m.after.clock)) ∨
    ∃ i call answer before after, m = ⟨.answer i ⟨call, answer⟩, before, after⟩ ∧
      Exec i before call answer after := by
  obtain ⟨label, before, after⟩ := m
  cases label with
  | start i p =>
    obtain rfl : after = before := hm.2
    exact Or.inl ⟨by simp, rfl, fun _ => le_rfl⟩
  | env =>
    obtain ⟨clock, hle, hafter⟩ := hm
    rw [show after = { before with clock } from hafter]
    exact Or.inl ⟨by simp, rfl, hle⟩
  | drop i =>
    obtain ⟨p, hafter⟩ := hm
    rw [show after = { before with locks := before.locks.forget i } from hafter]
    exact Or.inl ⟨by simp, rfl, fun _ => le_rfl⟩
  | answer i ev => exact Or.inr ⟨i, ev.1, ev.2, before, after, rfl, hm⟩

/-! ## What `authorize` does -/

/-- The decision an authority's answer comes to. -/
def Checked.decision : Checked → Option Decision
  | .answered revoked => some (if revoked then .deny else .allow)
  | _ => none

/-- The contract of `authorize`: the cache is touched under its key and its second, the
authority is asked about its claims, and what is recorded is what the authority told it. -/
def decided (env : Env) (claims : Claims) (now : ℕ) (rely : (e : Call) → e.Answer → Prop) :
    Contract Call Call.Answer where
  rely _ := rely
  guarantee h
    | .lookup key now' => key = revocationCacheKey env claims ∧ now' = now
    | .recordRefreshStart now' => now' = now
    | .checkRevocation claims' now' => claims' = claims ∧ now' = now
    | .apply key decision now' => key = revocationCacheKey env claims ∧ now' = now ∧
      ∃ checked, ⟨.checkRevocation claims now, checked⟩ ∈ h ∧ checked.decision = some decision
    | _ => True

/-- How a call of `authorize` came to its result. -/
inductive Came (h : List TaskEvent) : Authorization → Prop
  | read {key : String} {now : ℕ} {decision : Decision} :
      ⟨.lookup key now, some (.fresh decision)⟩ ∈ h → Came h (decisionToAuthorization decision)
  | recorded {key : String} {decision : Decision} {now : ℕ} :
      ⟨.apply key decision now, true⟩ ∈ h → Came h (decisionToAuthorization decision)
  | regression {key : String} {now : ℕ} : ⟨.lookup key now, none⟩ ∈ h →
      Came h (.unavailable .clockRegression)
  | startRegression {now : ℕ} : ⟨.recordRefreshStart now, false⟩ ∈ h →
      Came h (.unavailable .clockRegression)
  | applyRegression {key : String} {decision : Decision} {now : ℕ} :
      ⟨.apply key decision now, false⟩ ∈ h → Came h (.unavailable .clockRegression)
  | timedOut {claims : Claims} {now : ℕ} : ⟨.checkRevocation claims now, .timedOut⟩ ∈ h →
      Came h (.unavailable .refreshTimedOut)
  | failed {claims : Claims} {now : ℕ} : ⟨.checkRevocation claims now, .failed⟩ ∈ h →
      Came h (.unavailable .refreshFailed)

section

variable {env : Env} {claims : Claims} {now : ℕ} {rely : (e : Call) → e.Answer → Prop}
  {h : List TaskEvent}

theorem Came.mono {h' : List TaskEvent} {result : Authorization} (hcame : Came h result)
    (hsub : ∀ ev ∈ h, ev ∈ h') : Came h' result := by
  cases hcame with
  | read hev => exact .read (hsub _ hev)
  | recorded hev => exact .recorded (hsub _ hev)
  | regression hev => exact .regression (hsub _ hev)
  | startRegression hev => exact .startRegression (hsub _ hev)
  | applyRegression hev => exact .applyRegression (hsub _ hev)
  | timedOut hev => exact .timedOut (hsub _ hev)
  | failed hev => exact .failed (hsub _ hev)

theorem wp_refresh : (refresh claims (revocationCacheKey env claims) now).wp
    (decided env claims now rely) Came h := by
  refine ⟨rfl, fun started _ => ?_⟩
  cases started with
  | false => exact .startRegression List.mem_concat_self
  | true =>
    refine ⟨⟨rfl, rfl⟩, fun checked _ => ?_⟩
    cases checked with
    | timedOut => exact .timedOut List.mem_concat_self
    | failed => exact .failed List.mem_concat_self
    | answered revoked =>
      refine ⟨⟨rfl, rfl, _, List.mem_concat_self, rfl⟩, fun applied _ => ?_⟩
      cases applied with
      | false => exact .applyRegression List.mem_concat_self
      | true => exact .recorded List.mem_concat_self

theorem wp_lookupLocked : (lookupLocked claims (revocationCacheKey env claims) now).wp
    (decided env claims now rely) Came h := by
  refine ⟨⟨rfl, rfl⟩, fun found _ => ?_⟩
  match found with
  | none => exact .regression List.mem_concat_self
  | some (.fresh decision) => exact .read List.mem_concat_self
  | some .stale => exact wp_refresh
  | some .miss => exact wp_refresh

theorem wp_withKeyLock : (withKeyLock claims (revocationCacheKey env claims) now).wp
    (decided env claims now rely) Came h := by
  refine ⟨trivial, fun lock _ => ⟨trivial, fun _ _ => ?_⟩⟩
  refine (Proc.wp_bind (p := lookupLocked claims _ now)).2
    (Proc.wp_mono wp_lookupLocked fun h' outcome hcame => ?_)
  refine ⟨trivial, fun _ _ => ⟨trivial, fun _ _ => ⟨trivial, fun _ _ =>
    hcame.mono fun ev hev => ?_⟩⟩⟩
  exact List.mem_append_left _ (List.mem_append_left _ (List.mem_append_left _ hev))

/-- **`authorize` keeps its contract.** -/
theorem wp_authorize : (authorize env claims now).wp (decided env claims now rely) Came h := by
  refine ⟨⟨rfl, rfl⟩, fun found _ => ?_⟩
  match found with
  | none => exact .regression List.mem_concat_self
  | some (.fresh decision) => exact .read List.mem_concat_self
  | some .stale => exact wp_withKeyLock
  | some .miss => exact wp_withKeyLock

end

end Revocation

end LoadBalance
