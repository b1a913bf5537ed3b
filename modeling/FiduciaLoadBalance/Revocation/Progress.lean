import FiduciaLoadBalance.Concurrency.Progress
import FiduciaLoadBalance.Revocation.Authority
import FiduciaLoadBalance.Revocation.Exclusion
import FiduciaLoadBalance.Revocation.Window

/-!
# No call of the gate waits for ever

A call of the gate waits for the lock of its key, and for the authority.  The authority is
given a time to answer in; the lock is another call's.  Whoever holds a lock waits for no
other one, and a call that is dropped leaves its lock behind: so there is always a call that
can go on, and no call makes more than ten steps.

* `exists_exec` — a call can be answered, unless it asks for a lock that is taken;
* `live` — and if it does, the call that holds the lock can;
* `calls_finish` — so the calls finish, in whatever order they are answered.
-/

namespace LoadBalance

open Conc Machine

namespace Revocation

section

variable {env : Env} {authority : HttpRevocationAuthority} {steady : Prop} {s₀ : Gate}
  {h : List GateMoment} {c : Config Call Call.Answer Authorization Gate} {i : ℕ}

/-- The cache always has room for an entry. -/
theorem keeps_capacity : (httpGate env authority steady).Keeps fun s => 1 ≤ s.cache.capacity where
  exec := by
    rintro i s e r s' hcapacity ⟨hexec, -⟩
    cases hexec with
    | lookup hlookup =>
      rw [(RevocationCache.lookup_eq_some hlookup).2]
      exact hcapacity
    | recordRefreshStart hrecord =>
      rw [(RevocationCache.advance_eq_some.1 hrecord).2]
      exact hcapacity
    | apply _ happly =>
      obtain ⟨touched, htouched, rfl⟩ := Option.map_eq_some_iff.1 happly
      rw [(RevocationCache.advance_eq_some.1 htouched).2]
      exact hcapacity
    | _ => exact hcapacity
  env := by
    rintro s s' hcapacity ⟨clock, -, rfl⟩
    exact hcapacity
  drop := by
    rintro i p s s' hcapacity rfl
    exact hcapacity

/-- **A call can be answered**, unless it asks for a lock that is taken. -/
theorem exists_exec (authority : HttpRevocationAuthority) {s : Gate}
    (hcapacity : 1 ≤ s.cache.capacity) (i : ℕ) (e : Call)
    (hfree : ∀ lock, e = .lock lock → s.locks.holder lock = none) :
    ∃ r s', Exec i s e r s' ∧ FromAuthority authority e r := by
  cases e with
  | lookup key now =>
    cases hlookup : s.cache.lookup key now with
    | none => exact ⟨_, _, .lookupRefused hlookup, trivial⟩
    | some found => exact ⟨_, _, .lookup hlookup, trivial⟩
  | acquireKey key => exact ⟨_, _, .acquireKey s key, trivial⟩
  | lock lock => exact ⟨_, _, .lock (hfree lock rfl), trivial⟩
  | recordRefreshStart now =>
    cases hrecord : s.cache.recordRefreshStart now with
    | none => exact ⟨_, _, .refreshRefused hrecord, trivial⟩
    | some cache => exact ⟨_, _, .recordRefreshStart hrecord, trivial⟩
  | checkRevocation claims now =>
    exact ⟨_, _, .checkRevocation s claims now (authority.check none now), none, rfl⟩
  | apply key decision now =>
    obtain ⟨victim, hvictim⟩ : ∃ victim, s.cache.evicts key = true → victim ∈ s.cache.oldest := by
      by_cases hempty : s.cache.entries = ∅
      · refine ⟨"", ?_⟩
        intro hevicts
        -- a cache that evicts is full, and an empty one has room
        have hfull : s.cache.capacity ≤ s.cache.entries.size := by
          simpa using (Bool.and_eq_true_iff.1 hevicts).2
        rw [hempty, Std.ExtTreeMap.size_empty] at hfull
        omega
      · obtain ⟨victim, hvictim⟩ := TreeMap.exists_mem_least Entry.observedAt hempty
        exact ⟨victim, fun _ => hvictim⟩
    cases happly : s.cache.apply victim key decision now with
    | none =>
      refine ⟨_, _, .applyRefused ?_, trivial⟩
      intro other
      exact RevocationCache.apply_eq_none.2 (RevocationCache.apply_eq_none.1 happly)
    | some cache => exact ⟨_, _, .apply hvictim happly, trivial⟩
  | unlock lock => exact ⟨_, _, .unlock s lock, trivial⟩
  | releaseKey key lock => exact ⟨_, _, .releaseKey s key lock, trivial⟩
  | dropLock lock => exact ⟨_, _, .dropLock s lock, trivial⟩

/-- Whoever holds a lock waits, and for no lock. -/
theorem waiting_of_held (hrun : (gate env steady).Run s₀ h c) {lock : LockId}
    (hheld : (place h c i).held = some lock) :
    ∃ e, c.waiting i = some e ∧ ∀ other, e ≠ .lock other := by
  obtain ⟨key, hplace⟩ : ∃ key, place h c i = .holding key lock := by
    cases hstage : place h c i with
    | holding key lock' =>
      rw [hstage] at hheld
      obtain rfl := Option.some.inj hheld
      exact ⟨key, rfl⟩
    | _ =>
      rw [hstage] at hheld
      exact absurd hheld (by simp [Stage.held])
  cases hproc : c.procs i with
  | none =>
    rw [place_of_none hproc] at hplace
    exact absurd hplace (by simp)
  | some p =>
    cases p with
    | done authorization =>
      -- a call that is over has no lock left
      obtain ⟨p, hst⟩ := hrun.tracked.started hproc
      obtain ⟨claims, now, rfl⟩ := eq_authorize_of_started hrun hst
      have hfinished := hrun.own_result (K := staged env claims now) hst wp_authorize_staged
        (fun _ _ _ _ _ _ => trivial) hproc
      rw [place_of_live hproc] at hplace
      rcases hfinished with hlooking | hgone
      · rw [hlooking] at hplace
        exact absurd hplace (by simp)
      · rw [hgone] at hplace
        exact absurd hplace (by simp)
    | call e k =>
      have hwaits := Config.waiting_eq_some.2 ⟨k, hproc⟩
      obtain ⟨claims, now, -, hpermits⟩ := permits_of_waiting hrun hwaits
      refine ⟨e, hwaits, ?_⟩
      rintro other rfl
      rw [hpermits.lock] at hplace
      exact absurd hplace (by simp)

/-- **There is always a call that can go on.** -/
theorem live (hempty : s₀.locks = .empty) (hcapacity : 1 ≤ s₀.cache.capacity) :
    (httpGate env authority steady).Live s₀ := by
  intro h c hrun hwaits
  have hgate := gate_run_of_http hrun
  have hroom := (hrun.invariant keeps_capacity hcapacity).1
  obtain ⟨i, hi⟩ := not_forall.1 hwaits
  obtain ⟨e, hcall⟩ := Option.ne_none_iff_exists'.1 hi
  by_cases hfree : ∀ lock, e = .lock lock → c.shared.locks.holder lock = none
  · obtain ⟨k, hproc⟩ := Config.waiting_eq_some.1 hcall
    obtain ⟨r, s', hexec⟩ := exists_exec authority hroom i e hfree
    exact ⟨i, e, k, r, s', hproc, hexec⟩
  · -- the lock it asks for is held by a call that can go on
    obtain ⟨lock, hlock⟩ := not_forall.1 hfree
    obtain ⟨rfl, htaken⟩ := Classical.not_imp.1 hlock
    obtain ⟨j, hholder⟩ := Option.ne_none_iff_exists'.1 htaken
    have hheld := ((locked_of_run hgate hempty).holder j lock).1 hholder
    obtain ⟨e, hcall, hnot⟩ := waiting_of_held hgate hheld
    obtain ⟨k, hproc⟩ := Config.waiting_eq_some.1 hcall
    obtain ⟨r, s', hexec⟩ := exists_exec authority hroom j e fun other heq => absurd heq (hnot other)
    exact ⟨j, e, k, r, s', hproc, hexec⟩

/-! ## How many steps a call makes -/

theorem within_refresh (claims : Claims) (key : String) (now : ℕ) :
    (refresh claims key now).Within (fun _ => 1) 3 := by
  refine Proc.within_call ?_
  intro started
  cases started with
  | false => trivial
  | true =>
    refine Proc.within_call ?_
    intro checked
    cases checked with
    | timedOut => trivial
    | failed => trivial
    | answered revoked =>
      refine Proc.within_call ?_
      intro applied
      cases applied <;> trivial

theorem within_lookupLocked (claims : Claims) (key : String) (now : ℕ) :
    (lookupLocked claims key now).Within (fun _ => 1) 4 := by
  refine Proc.within_call ?_
  intro found
  match found with
  | none => trivial
  | some (.fresh decision) => trivial
  | some .stale => exact within_refresh claims key now
  | some .miss => exact within_refresh claims key now

theorem within_withKeyLock (claims : Claims) (key : String) (now : ℕ) :
    (withKeyLock claims key now).Within (fun _ => 1) 9 := by
  refine Proc.within_call ?_
  intro lock
  refine Proc.within_call ?_
  intro _
  refine Proc.within_bind (p := lookupLocked claims key now) (a := 4) (b := 3)
    (within_lookupLocked claims key now) ?_
  intro outcome
  exact Proc.within_call fun _ => Proc.within_call fun _ => Proc.within_call fun _ => trivial

/-- **A call makes ten steps at most.** -/
theorem within_authorize (env : Env) (claims : Claims) (now : ℕ) :
    (authorize env claims now).Within (fun _ => 1) 10 := by
  refine Proc.within_call ?_
  intro found
  match found with
  | none => trivial
  | some (.fresh decision) => trivial
  | some .stale => exact within_withKeyLock claims _ now
  | some .miss => exact within_withKeyLock claims _ now

theorem bounded : (httpGate env authority steady).Bounded 10 := by
  rintro s p ⟨claims, now, -, rfl⟩
  exact within_authorize env claims now

end

/-- **The calls of the gate finish.**  From wherever any calls have come, with any of them
dropped anywhere, also under their key's lock: if from then on calls are only answered, then no
more than ten times the number of calls, in whatever order; and when none can be answered any
more, each call that was not dropped has its authorization.  And they can be answered so. -/
theorem calls_finish (env : Env) (authority : HttpRevocationAuthority) {steady : Prop}
    {freshnessBudgetSecs capacity clock : ℕ} {h : List GateMoment}
    {c : Config Call Call.Answer Authorization Gate}
    (hrun : (httpGate env authority steady).Run (.new freshnessBudgetSecs capacity clock) h c) :
    (∀ h' c', (httpGate env authority steady).Path c h' c' → OnlyAnswers h' →
      h'.length ≤ 10 * c.next ∧
      ((∀ m c'', (httpGate env authority steady).Step c' m c'' → m.label.isAnswer = false) →
        ∀ i, c.procs i ≠ none → ∃ authorization, c'.result i = some authorization)) ∧
    ∃ h' c', (httpGate env authority steady).Path c h' c' ∧ OnlyAnswers h' ∧
      ∀ i, c.procs i ≠ none → ∃ authorization, c'.result i = some authorization := by
  have hlive : (httpGate env authority steady).Live (.new freshnessBudgetSecs capacity clock) :=
    live rfl (Nat.le_max_right capacity 1)
  refine ⟨?_, ?_⟩
  · intro h' c' hpath hanswers
    refine ⟨hpath.length_le bounded hrun hanswers, ?_⟩
    intro hstuck i hi
    exact (hlive.settled (hrun.path hpath) hstuck).result (hpath.live hanswers hi)
  · obtain ⟨h', c', hpath, hanswers, hsettled⟩ := hrun.settles bounded hlive
    exact ⟨h', c', hpath, hanswers, fun i hi => hsettled.result (hpath.live hanswers hi)⟩

/-- A call that takes the lock of its key, and one that waits for it. -/
def Sample.contended : List Sample.httpDriver.Move :=
  .start Sample.claims :: List.replicate 4 (.answer 0 none) ++
    .start Sample.claims :: List.replicate 2 (.answer 1 none)

/-- The second of two calls waits for the first one, and has its authorization in the end. -/
theorem calls_finish_contended : ∃ h c,
    (httpGate Reference.env Sample.service True).Run Sample.start h c ∧
      (∃ lock, c.waiting 1 = some (.lock lock) ∧ c.shared.locks.holder lock = some 0) ∧
      ∃ h' c', (httpGate Reference.env Sample.service True).Path c h' c' ∧ OnlyAnswers h' ∧
        ∃ authorization, c'.result 1 = some authorization := by
  have hplays : (Sample.httpDriver.play Sample.contended (.initial Sample.start)).any (fun q =>
      decide (q.2.waiting 1 = some (.lock 0)) &&
        decide (q.2.shared.locks.holder 0 = some 0)) = true := by
    decide +kernel
  obtain ⟨⟨h, c⟩, hplay, hfound⟩ := (Option.any_eq_true _ _).1 hplays
  obtain ⟨hwaits, hholder⟩ := Bool.and_eq_true_iff.1 hfound
  have hwaits := of_decide_eq_true hwaits
  have hrun := Sample.httpDriver.run_of_play .init hplay
  obtain ⟨-, h', c', hpath, hanswers, hfinish⟩ :=
    calls_finish Reference.env Sample.service hrun
  have hlive : c.procs 1 ≠ none := by
    obtain ⟨k, hproc⟩ := Config.waiting_eq_some.1 hwaits
    rw [hproc]
    simp
  exact ⟨_, c, hrun, ⟨0, hwaits, of_decide_eq_true hholder⟩, h', c', hpath, hanswers,
    hfinish 1 hlive⟩

end Revocation

end LoadBalance
