import FiduciaLoadBalance.Concurrency.Schedule
import FiduciaLoadBalance.Reference
import FiduciaLoadBalance.Revocation.Gate

/-!
# A gate to play with

`simulation` drives the gate by computation: the calls it can start, the authority's
answers and the ticks of the clock are chosen by a schedule.  `Sample` holds a token and
the schedules of the examples.
-/

namespace LoadBalance

open Conc Machine Text

namespace Revocation

/-- Answer a call of task `i`; the authority answers `checked`. -/
def execWith (checked : Checked) (i : ℕ) (s : Gate) : (e : Call) → Option (e.Answer × Gate)
  | .lookup key now =>
    match s.cache.lookup key now with
    | some (found, cache) => some (some found, { s with cache })
    | none => some (none, s)
  | .acquireKey key =>
    some ((s.locks.acquire i key).1, { s with locks := (s.locks.acquire i key).2 })
  | .lock lock =>
    if s.locks.holder lock = none then
      some ((),
        { s with locks := { s.locks with holder := Function.update s.locks.holder lock (some i) } })
    else none
  | .recordRefreshStart now =>
    match s.cache.recordRefreshStart now with
    | some cache => some (true, { s with cache })
    | none => some (false, s)
  | .checkRevocation _ _ => some (checked, s)
  | .apply key decision now =>
    let victim := s.cache.oldest.headD ""
    if s.cache.evicts key = true → victim ∈ s.cache.oldest then
      match s.cache.apply victim key decision now with
      | some cache => some (true, { s with cache })
      | none => some (false, s)
    else none
  | .unlock lock =>
    some ((),
      { s with locks := { s.locks with holder := Function.update s.locks.holder lock none } })
  | .releaseKey key lock => some ((), { s with locks := s.locks.release i key lock })
  | .dropLock lock => some ((), { s with locks := s.locks.dropReference i lock })

theorem exec_of_execWith {checked : Checked} {i : ℕ} {s s' : Gate} {e : Call} {r : e.Answer}
    (h : execWith checked i s e = some (r, s')) : Exec i s e r s' := by
  cases e with
  | lookup key now =>
    rw [execWith] at h
    split at h
    · rename_i hlookup
      obtain ⟨rfl, rfl⟩ := Prod.mk.inj (Option.some.inj h)
      exact .lookup hlookup
    · rename_i hlookup
      obtain ⟨rfl, rfl⟩ := Prod.mk.inj (Option.some.inj h)
      exact .lookupRefused hlookup
  | acquireKey key =>
    obtain ⟨rfl, rfl⟩ := Prod.mk.inj (Option.some.inj h)
    exact .acquireKey s key
  | lock lock =>
    rw [execWith] at h
    split at h
    · rename_i hfree
      obtain ⟨rfl, rfl⟩ := Prod.mk.inj (Option.some.inj h)
      exact .lock hfree
    · exact absurd h (by simp)
  | recordRefreshStart now =>
    rw [execWith] at h
    split at h
    · rename_i htouch
      obtain ⟨rfl, rfl⟩ := Prod.mk.inj (Option.some.inj h)
      exact .recordRefreshStart htouch
    · rename_i htouch
      obtain ⟨rfl, rfl⟩ := Prod.mk.inj (Option.some.inj h)
      exact .refreshRefused htouch
  | checkRevocation claims now =>
    obtain ⟨rfl, rfl⟩ := Prod.mk.inj (Option.some.inj h)
    exact .checkRevocation s claims now checked
  | apply key decision now =>
    rw [execWith] at h
    split at h
    · rename_i hvictim
      split at h
      · rename_i happly
        obtain ⟨rfl, rfl⟩ := Prod.mk.inj (Option.some.inj h)
        exact .apply hvictim happly
      · rename_i happly
        obtain ⟨rfl, rfl⟩ := Prod.mk.inj (Option.some.inj h)
        refine .applyRefused fun victim => ?_
        exact RevocationCache.apply_eq_none.2 (RevocationCache.apply_eq_none.1 happly)
    · exact absurd h (by simp)
  | unlock lock =>
    obtain ⟨rfl, rfl⟩ := Prod.mk.inj (Option.some.inj h)
    exact .unlock s lock
  | releaseKey key lock =>
    obtain ⟨rfl, rfl⟩ := Prod.mk.inj (Option.some.inj h)
    exact .releaseKey s key lock
  | dropLock lock =>
    obtain ⟨rfl, rfl⟩ := Prod.mk.inj (Option.some.inj h)
    exact .dropLock s lock

/-- The steady gate, driven: a call is started for claims, and the clock ticks. -/
def simulation (env : Env) : Machine.Driver (gate env True) where
  Job := Claims
  Choice := Checked
  Turn := ℕ
  start claims s := some (authorize env claims s.clock)
  exec := execWith
  env ticks s := some { s with clock := s.clock + ticks }
  start_sound := fun {claims s _} h => ⟨claims, s.clock, fun _ => rfl, (Option.some.inj h).symm⟩
  exec_sound := exec_of_execWith
  env_sound := fun {ticks s _} h =>
    ⟨s.clock + ticks, fun _ => Nat.le_add_right _ _, (Option.some.inj h).symm⟩

/-! ## A token -/

namespace Sample

def claims : Claims where
  sub := "s"
  orgId := "o"
  scopes := []
  iss := "i"
  aud := "a"
  iat := 0
  exp := 100
  jti := "j"
  fits := by decide +kernel

/-- The key of the token. -/
def key : String := revocationCacheKey Reference.env claims

/-- A gate of budget 5 and one entry, in second 10. -/
def start : Gate := .new 5 1 10

def driver : Machine.Driver (gate Reference.env True) := simulation Reference.env

/-- The next call of task `i` is answered; the authority does not know the token revoked. -/
def answer (i : ℕ) : driver.Move := .answer i (.answered false)

/-- The clock ticks. -/
def tick (ticks : ℕ) : driver.Move := .env ticks

/-- The call of a token the cache does not know: two lookups, the key's lock, the refresh
and the release. -/
def refreshed : List driver.Move := .start claims :: List.replicate 10 (answer 0)

end Sample

end Revocation

end LoadBalance
