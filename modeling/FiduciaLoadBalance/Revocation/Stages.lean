import FiduciaLoadBalance.Revocation.Gate

/-!
# The stages of a call of the gate

A call that the first look does not settle takes a reference to its key's lock, waits for
the lock, works under it, and then gives up the lock, the key and the reference, in this
order.

* `Stage` — where a call is, read off the calls it has made (`stageOf`);
* `Stage.Permits` — what it may do there;
* `wp_authorize_staged` — `authorize` does nothing else, and asks the authority only right
  after a second look that found no fresh decision;
* `Stage.Permits.lock` and its siblings — so its call says where it is.
-/

namespace LoadBalance

open Conc

namespace Revocation

/-- Where a call of `authorize` is with its key's lock. -/
inductive Stage : Type
  | looking
  /-- It has a reference to the lock. -/
  | waiting (key : String) (lock : LockId)
  /-- It has the lock. -/
  | holding (key : String) (lock : LockId)
  /-- It has given the lock up, and is about to release the key. -/
  | leaving (key : String) (lock : LockId)
  /-- It has released the key, and still has its reference. -/
  | released (lock : LockId)
  | gone
deriving DecidableEq

/-- The key and the lock of a reference that is not released. -/
def Stage.wanted : Stage → Option (String × LockId)
  | .waiting key lock => some (key, lock)
  | .holding key lock => some (key, lock)
  | .leaving key lock => some (key, lock)
  | _ => none

/-- The lock that is held. -/
def Stage.held : Stage → Option LockId
  | .holding _ lock => some lock
  | _ => none

/-- The lock of a reference that is released and not given up. -/
def Stage.dropping : Stage → Option LockId
  | .released lock => some lock
  | _ => none

/-- The stage after a call. -/
def Stage.next : Stage → TaskEvent → Stage
  | .looking, ⟨.acquireKey key, lock⟩ => .waiting key lock
  | .waiting key lock, ⟨.lock _, _⟩ => .holding key lock
  | .holding key lock, ⟨.unlock _, _⟩ => .leaving key lock
  | .leaving _ lock, ⟨.releaseKey _ _, _⟩ => .released lock
  | .released _, ⟨.dropLock _, _⟩ => .gone
  | stage, _ => stage

/-- The stage after these calls. -/
def stageOf (h : List TaskEvent) : Stage := h.foldl Stage.next .looking

@[simp] theorem stageOf_nil : stageOf [] = .looking := rfl

@[simp] theorem stageOf_concat (h : List TaskEvent) (ev : TaskEvent) :
    stageOf (h ++ [ev]) = (stageOf h).next ev := by
  simp [stageOf]

/-- What a call for a token with this key may do next. -/
def Stage.Permits (env : Env) (key : String) : Stage → Call → Prop
  | .looking, e => e = .acquireKey key ∨ ∃ now, e = .lookup key now
  | .waiting key' lock, e => key' = key ∧ e = .lock lock
  | .holding key' lock, e => key' = key ∧ (e = .unlock lock ∨ (∃ now, e = .lookup key now) ∨
    (∃ now, e = .recordRefreshStart now) ∨ (∃ decision now, e = .apply key decision now) ∨
    ∃ claims now, e = .checkRevocation claims now ∧ revocationCacheKey env claims = key)
  | .leaving key' lock, e => key' = key ∧ e = .releaseKey key lock
  | .released lock, e => e = .dropLock lock
  | .gone, _ => False

/-- The calls up to the wait for the lock. -/
def queued (key : String) (now : ℕ) (first : Option Lookup) (lock : LockId) : List TaskEvent :=
  [⟨.lookup key now, first⟩, ⟨.acquireKey key, lock⟩]

/-- The calls up to the second look. -/
def lookedTwice (key : String) (now : ℕ) (first : Option Lookup) (lock : LockId)
    (second : Option Lookup) : List TaskEvent :=
  queued key now first lock ++ [⟨.lock lock, ()⟩, ⟨.lookup key now, second⟩]

/-- What a call has done when it waits for the lock, and when it asks the authority. -/
inductive Prepared (key : String) (now : ℕ) (h : List TaskEvent) : Call → Prop
  | lock {first : Option Lookup} {lock : LockId} : h = queued key now first lock →
      Prepared key now h (.lock lock)
  | checkRevocation {first : Option Lookup} {lock : LockId} {second : Lookup} {claims : Claims}
      {now' : ℕ} : (∀ decision, second ≠ .fresh decision) →
      h = lookedTwice key now first lock (some second) ++ [⟨.recordRefreshStart now, true⟩] →
      Prepared key now h (.checkRevocation claims now')
  | other {e : Call} : (∀ lock, e ≠ .lock lock) →
      (∀ claims now', e ≠ .checkRevocation claims now') → Prepared key now h e

/-- The contract of `authorize` with its key's lock. -/
def staged (env : Env) (claims : Claims) (now : ℕ) : Contract Call Call.Answer where
  rely _ _ _ := True
  guarantee h e := (stageOf h).Permits env (revocationCacheKey env claims) e ∧
    Prepared (revocationCacheKey env claims) now h e

/-- A finished call has no reference left. -/
def Finished (h : List TaskEvent) (_ : Authorization) : Prop :=
  stageOf h = .looking ∨ stageOf h = .gone

section

variable {env : Env} {claims : Claims} {now : ℕ} {h : List TaskEvent} {first : Option Lookup}
  {lock : LockId}

theorem next_of_stage {stage : Stage} (hstage : stageOf h = stage) (ev : TaskEvent) :
    stageOf (h ++ [ev]) = stage.next ev := by
  rw [stageOf_concat, hstage]

theorem staged_of_permits {stage : Stage} {e : Call} (hstage : stageOf h = stage)
    (hpermits : stage.Permits env (revocationCacheKey env claims) e)
    (hprepared : Prepared (revocationCacheKey env claims) now h e) :
    (staged env claims now).guarantee h e := by
  refine ⟨?_, hprepared⟩
  rw [hstage]
  exact hpermits

/-- The work under the lock ends with the lock still held. -/
def Holds (key : String) (lock : LockId) (h : List TaskEvent) (_ : Authorization) : Prop :=
  stageOf h = .holding key lock

theorem wp_refresh_staged {found : Lookup} (hfound : ∀ decision, found ≠ .fresh decision) :
    (refresh claims (revocationCacheKey env claims) now).wp (staged env claims now)
      (Holds (revocationCacheKey env claims) lock)
      (lookedTwice (revocationCacheKey env claims) now first lock (some found)) := by
  have hlooked : stageOf (lookedTwice (revocationCacheKey env claims) now first lock
    (some found)) = .holding (revocationCacheKey env claims) lock := rfl
  refine ⟨staged_of_permits hlooked ⟨rfl, Or.inr (Or.inr (Or.inl ⟨now, rfl⟩))⟩
    (.other (by simp) (by simp)), ?_⟩
  intro started _
  have hstarted := next_of_stage hlooked ⟨.recordRefreshStart now, started⟩
  cases started with
  | false => exact hstarted
  | true =>
    refine ⟨staged_of_permits hstarted
      ⟨rfl, Or.inr (Or.inr (Or.inr (Or.inr ⟨claims, now, rfl, rfl⟩)))⟩
      (.checkRevocation hfound rfl), ?_⟩
    intro checked _
    have hchecked := next_of_stage hstarted ⟨.checkRevocation claims now, checked⟩
    cases checked with
    | timedOut => exact hchecked
    | failed => exact hchecked
    | answered revoked =>
      refine ⟨staged_of_permits hchecked
        ⟨rfl, Or.inr (Or.inr (Or.inr (Or.inl ⟨_, now, rfl⟩)))⟩ (.other (by simp) (by simp)), ?_⟩
      intro applied _
      have happlied := next_of_stage hchecked ⟨.apply (revocationCacheKey env claims)
        (if revoked then Decision.deny else .allow) now, applied⟩
      cases applied with
      | false => exact happlied
      | true => exact happlied

theorem wp_lookupLocked_staged :
    (lookupLocked claims (revocationCacheKey env claims) now).wp (staged env claims now)
      (Holds (revocationCacheKey env claims) lock)
      (queued (revocationCacheKey env claims) now first lock ++ [⟨.lock lock, ()⟩]) := by
  have hlocked : stageOf (queued (revocationCacheKey env claims) now first lock ++
    [⟨.lock lock, ()⟩]) = .holding (revocationCacheKey env claims) lock := rfl
  refine ⟨staged_of_permits hlocked ⟨rfl, Or.inr (Or.inl ⟨now, rfl⟩)⟩
    (.other (by simp) (by simp)), ?_⟩
  intro found _
  have hlooked := next_of_stage hlocked ⟨.lookup (revocationCacheKey env claims) now, found⟩
  match found with
  | none => exact hlooked
  | some (.fresh decision) => exact hlooked
  | some .stale => exact wp_refresh_staged (by simp)
  | some .miss => exact wp_refresh_staged (by simp)

theorem wp_withKeyLock_staged :
    (withKeyLock claims (revocationCacheKey env claims) now).wp (staged env claims now)
      Finished [⟨.lookup (revocationCacheKey env claims) now, first⟩] := by
  have hlooking : stageOf [⟨.lookup (revocationCacheKey env claims) now, first⟩] = .looking := rfl
  refine ⟨staged_of_permits hlooking (Or.inl rfl) (.other (by simp) (by simp)), ?_⟩
  intro lock _
  have hwaiting := next_of_stage hlooking ⟨.acquireKey (revocationCacheKey env claims), lock⟩
  refine ⟨staged_of_permits hwaiting ⟨rfl, rfl⟩ (.lock rfl), ?_⟩
  intro _ _
  refine (Proc.wp_bind (p := lookupLocked claims _ now)).2
    (Proc.wp_mono wp_lookupLocked_staged ?_)
  intro h' outcome hheld
  refine ⟨staged_of_permits hheld ⟨rfl, Or.inl rfl⟩ (.other (by simp) (by simp)), ?_⟩
  intro _ _
  have hleaving := next_of_stage hheld ⟨.unlock lock, ()⟩
  refine ⟨staged_of_permits hleaving ⟨rfl, rfl⟩ (.other (by simp) (by simp)), ?_⟩
  intro _ _
  have hreleased := next_of_stage hleaving
    ⟨.releaseKey (revocationCacheKey env claims) lock, ()⟩
  refine ⟨staged_of_permits hreleased rfl (.other (by simp) (by simp)), ?_⟩
  intro _ _
  exact Or.inr (next_of_stage hreleased ⟨.dropLock lock, ()⟩)

/-- **`authorize` goes through its stages**, does at each what the stage permits, and has no
reference left when it ends. -/
theorem wp_authorize_staged : (authorize env claims now).wp (staged env claims now) Finished [] := by
  refine ⟨staged_of_permits rfl (Or.inr ⟨now, rfl⟩) (.other (by simp) (by simp)), ?_⟩
  intro found _
  match found with
  | none => exact Or.inl rfl
  | some (.fresh decision) => exact Or.inl rfl
  | some .stale => exact wp_withKeyLock_staged
  | some .miss => exact wp_withKeyLock_staged

end

/-! ## What a stage permits -/

variable {env : Env} {key key' : String} {lock' : LockId} {stage : Stage}

/-- A call keeps to its key. -/
theorem Stage.Permits.key_eq {e : Call} (h : stage.Permits env key e)
    (hwanted : stage.wanted = some (key', lock')) : key' = key := by
  cases stage with
  | waiting key₀ lock₀ =>
    obtain ⟨rfl, -⟩ := Prod.mk.inj (Option.some.inj hwanted)
    exact h.1
  | holding key₀ lock₀ =>
    obtain ⟨rfl, -⟩ := Prod.mk.inj (Option.some.inj hwanted)
    exact h.1
  | leaving key₀ lock₀ =>
    obtain ⟨rfl, -⟩ := Prod.mk.inj (Option.some.inj hwanted)
    exact h.1
  | _ => exact absurd hwanted (by simp [Stage.wanted])

theorem Stage.Permits.acquireKey (h : stage.Permits env key (.acquireKey key')) :
    stage = .looking := by
  cases stage with
  | looking => rfl
  | _ => exact absurd h (by simp [Stage.Permits])

theorem Stage.Permits.lock (h : stage.Permits env key (.lock lock')) :
    stage = .waiting key lock' := by
  cases stage with
  | waiting key' lock₀ =>
    obtain ⟨rfl, heq⟩ := h
    rw [Call.lock.inj heq]
  | _ => exact absurd h (by simp [Stage.Permits])

theorem Stage.Permits.checkRevocation {claims : Claims} {now : ℕ}
    (h : stage.Permits env key (.checkRevocation claims now)) :
    ∃ lock', stage = .holding key lock' ∧ revocationCacheKey env claims = key := by
  cases stage with
  | holding key' lock₀ =>
    obtain ⟨rfl, hcall⟩ := h
    have hkey : revocationCacheKey env claims = key' := by simpa using hcall
    exact ⟨lock₀, rfl, hkey⟩
  | _ => exact absurd h (by simp [Stage.Permits])

theorem Stage.Permits.unlock (h : stage.Permits env key (.unlock lock')) :
    stage = .holding key lock' := by
  cases stage with
  | holding key' lock₀ =>
    obtain ⟨rfl, hcall⟩ := h
    have hlock : lock' = lock₀ := by simpa using hcall
    rw [hlock]
  | _ => exact absurd h (by simp [Stage.Permits])

theorem Stage.Permits.releaseKey (h : stage.Permits env key (.releaseKey key' lock')) :
    stage = .leaving key' lock' := by
  cases stage with
  | leaving key'' lock₀ =>
    obtain ⟨rfl, heq⟩ := h
    obtain ⟨rfl, rfl⟩ := Call.releaseKey.inj heq
    rfl
  | _ => exact absurd h (by simp [Stage.Permits])

theorem Stage.Permits.dropLock (h : stage.Permits env key (.dropLock lock')) :
    stage = .released lock' := by
  cases stage with
  | released lock₀ => rw [Call.dropLock.inj h]
  | _ => exact absurd h (by simp [Stage.Permits])

end Revocation

end LoadBalance
