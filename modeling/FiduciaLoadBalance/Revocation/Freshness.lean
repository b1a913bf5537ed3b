import FiduciaLoadBalance.Revocation.Simulation

/-!
# Every decision of the gate has an author

The cache keeps decisions and not who made them.  The history of a run knows: it holds
the moment each decision was recorded (`recorded`), and the last of them for a key
(`lastRecorded`) is what the cache says of it.

* `faithful_of_run` — the cache says no more than the history;
* `author_of_lastRecorded` — what was recorded for a key was said by the authority, in a
  call for the same token and of the same second;
* `authorize_fails_closed` — so a call is allowed only by an answer of the authority that
  is no older than the freshness budget, that of the cache: one second in place of none.
-/

namespace LoadBalance

open Conc Machine Text

namespace Revocation

/-! ## The history of a key -/

/-- The decision recorded for a key at this moment: by which call, what, as of when. -/
def recorded (key : String) (m : GateMoment) : Option (ℕ × Decision × ℕ) :=
  match m.label with
  | .answer j ⟨.apply key' decision now, true⟩ =>
    if key' = key then some (j, decision, now) else none
  | _ => none

/-- The last decision recorded for a key. -/
def lastRecorded (key : String) (h : List GateMoment) : Option (ℕ × Decision × ℕ) :=
  (h.filterMap (recorded key)).getLast?

variable {env : Env} {steady : Prop} {s₀ : Gate} {h : List GateMoment}
  {c : Config Call Call.Answer Authorization Gate} {m : GateMoment} {i j : ℕ}
  {key : String} {decision : Decision} {now : ℕ}

theorem recorded_eq_some : recorded key m = some (j, decision, now) ↔
    m.label = .answer j ⟨.apply key decision now, true⟩ := by
  unfold recorded
  split
  · rename_i j' key' decision' now' hlabel
    rw [hlabel]
    by_cases hkey : key' = key
    · simp [hkey]
    · simp [hkey]
  · rename_i hother
    exact ⟨fun hnone => absurd hnone (by simp), fun happly => absurd happly (hother _ _ _ _)⟩

theorem lastRecorded_concat_none (hm : recorded key m = none) :
    lastRecorded key (h ++ [m]) = lastRecorded key h := by
  simp [lastRecorded, hm]

theorem lastRecorded_concat_some {found : ℕ × Decision × ℕ} (hm : recorded key m = some found) :
    lastRecorded key (h ++ [m]) = some found := by
  simp [lastRecorded, hm]

theorem mem_of_lastRecorded (hlast : lastRecorded key h = some (j, decision, now)) :
    ∃ m ∈ h, m.label = .answer j ⟨.apply key decision now, true⟩ := by
  obtain ⟨m, hm, hrecorded⟩ := List.mem_filterMap.1 (List.mem_of_getLast? hlast)
  exact ⟨m, hm, recorded_eq_some.1 hrecorded⟩

/-! ## What a moment does to the cache -/

/-- **A moment touches the cache or records a decision in it.**  (A moment that does
neither leaves its clock where it is.) -/
theorem cache_cases (hm : (gate env steady).Allowed m) :
    ((∀ key, recorded key m = none) ∧ ∃ second, m.before.cache.highWater ≤ second ∧
      m.after.cache = { m.before.cache with highWater := second }) ∨
    ∃ j victim key decision now, m.label = .answer j ⟨.apply key decision now, true⟩ ∧
      m.before.cache.apply victim key decision now = some m.after.cache := by
  rcases allowed_cases hm with ⟨hother, hcache, -⟩ | ⟨j, call, answer, before, after,
    rfl, hexec⟩
  · refine Or.inl ⟨fun key => Option.eq_none_iff_forall_ne_some.2 fun found hfound => ?_, _,
      le_rfl, hcache⟩
    exact hother _ _ (recorded_eq_some.1 hfound)
  · cases hexec with
    | lookup hlookup =>
      obtain ⟨hle, hcache⟩ := RevocationCache.lookup_eq_some hlookup
      exact Or.inl ⟨fun _ => rfl, _, hle, hcache⟩
    | recordRefreshStart htouch =>
      obtain ⟨hle, hcache⟩ := RevocationCache.advance_eq_some.1 htouch
      exact Or.inl ⟨fun _ => rfl, _, hle, hcache⟩
    | apply _ happly => exact Or.inr ⟨j, _, _, _, _, rfl, happly⟩
    | _ => exact Or.inl ⟨fun _ => rfl, _, le_rfl, rfl⟩

/-! ## The cache and the history -/

/-- **The cache says no more than the history**: what it knows of a key is the last
decision recorded for it, and of no later second than the cache was touched at. -/
def Faithful (h : List GateMoment) (cache : RevocationCache) : Prop :=
  ∀ key entry, cache.entries[key]? = some entry → entry.observedAt ≤ cache.highWater ∧
    ∃ j, lastRecorded key h = some (j, entry.decision, entry.observedAt)

theorem Faithful.step (hfaithful : Faithful h m.before.cache)
    (hm : (gate env steady).Allowed m) : Faithful (h ++ [m]) m.after.cache := by
  intro key entry hentry
  rcases cache_cases hm with ⟨hnone, second, hle, hcache⟩ | ⟨j, victim, key', decision, now,
    hlabel, happly⟩
  · rw [hcache] at hentry ⊢
    obtain ⟨hobserved, hlast⟩ := hfaithful key entry hentry
    rw [lastRecorded_concat_none (hnone key)]
    exact ⟨hobserved.trans hle, hlast⟩
  · obtain ⟨hle, hsecond, -, hself, hother⟩ := RevocationCache.apply_eq_some happly
    by_cases hkey : key = key'
    · rw [hkey] at hentry ⊢
      obtain rfl := Option.some.inj (hself.symm.trans hentry)
      exact ⟨hsecond.ge, j, lastRecorded_concat_some (recorded_eq_some.2 hlabel)⟩
    · obtain ⟨hobserved, hlast⟩ := hfaithful key entry (hother key entry hkey hentry)
      refine ⟨(hobserved.trans hle).trans hsecond.ge, ?_⟩
      rw [lastRecorded_concat_none]
      · exact hlast
      · refine Option.eq_none_iff_forall_ne_some.2 fun found hfound => ?_
        have hlabel' := hlabel.symm.trans (recorded_eq_some.1 hfound)
        obtain ⟨-, hev⟩ := Label.answer.inj hlabel'
        exact hkey (Call.apply.inj (Sigma.mk.inj hev).1).1.symm

theorem faithful_of_run (hrun : (gate env steady).Run s₀ h c) (hempty : s₀.cache.entries = ∅) :
    Faithful h c.shared.cache := by
  induction hrun with
  | init =>
    intro key entry hentry
    rw [hempty] at hentry
    exact absurd hentry (by simp)
  | step _ hstep ih =>
    rw [← hstep.before] at ih
    rw [← hstep.after]
    exact ih.step hstep.allowed

/-- The budget is never touched. -/
theorem budget_of_run (hrun : (gate env steady).Run s₀ h c) :
    c.shared.cache.freshnessBudgetSecs = s₀.cache.freshnessBudgetSecs := by
  induction hrun with
  | init => rfl
  | step _ hstep ih =>
    rw [← hstep.before] at ih
    rw [← hstep.after, ← ih]
    rcases cache_cases hstep.allowed with ⟨-, second, -, hcache⟩ | ⟨_, _, _, _, _, -, happly⟩
    · rw [hcache]
    · exact (RevocationCache.apply_eq_some happly).2.2.1

/-! ## Who recorded a decision -/

/-- Every process of the gate is a call of `authorize`. -/
theorem eq_authorize_of_started (hrun : (gate env steady).Run s₀ h c)
    {p : Task Authorization} (hst : Started h i p) :
    ∃ claims now, p = authorize env claims now := by
  obtain ⟨-, claims, now, -, hp⟩ := hrun.start_of_started hst
  exact ⟨claims, now, hp⟩

/-- A call of `authorize` keeps its contract whatever the others do. -/
theorem decided_of_run (hrun : (gate env steady).Run s₀ h c) {claims : Claims}
    (hst : Started h i (authorize env claims now)) {pre post : List GateMoment}
    {ev : TaskEvent} {b a : Gate} (hsplit : h = pre ++ ⟨.answer i ev, b, a⟩ :: post) :
    (decided env claims now fun _ _ => True).guarantee (own i pre) ev.1 :=
  hrun.own_guarantee (K := decided env claims now fun _ _ => True) hst wp_authorize
    (fun _ _ _ _ _ _ => trivial) hsplit

/-- **What was recorded for a key was said by the authority**, to a call for a token of
that key, and as of the second that call was given. -/
theorem author_of_lastRecorded (hrun : (gate env steady).Run s₀ h c)
    (hlast : lastRecorded key h = some (j, decision, now)) :
    ∃ claims checked, Started h j (authorize env claims now) ∧
      key = revocationCacheKey env claims ∧ ⟨.checkRevocation claims now, checked⟩ ∈ own j h ∧
      checked.decision = some decision := by
  obtain ⟨m, hm, hlabel⟩ := mem_of_lastRecorded hlast
  obtain ⟨p, hst⟩ := hrun.started_of_answer (mem_own hm hlabel)
  obtain ⟨claims, now', rfl⟩ := eq_authorize_of_started hrun hst
  obtain ⟨pre, post, hsplit⟩ := List.append_of_mem hm
  obtain ⟨label, before, after⟩ := m
  obtain rfl : label = _ := hlabel
  obtain ⟨rfl, rfl, checked, hchecked, hdecision⟩ := decided_of_run hrun hst hsplit
  refine ⟨claims, checked, hst, rfl, ?_, hdecision⟩
  rw [hsplit, own_append]
  exact List.mem_append_left _ hchecked

/-! ## The clock -/

/-- A moment of a steady gate leaves the clock where it is or moves it on. -/
theorem clock_le (hsteady : steady) (hm : (gate env steady).Allowed m) :
    m.before.clock ≤ m.after.clock := by
  rcases allowed_cases hm with ⟨-, -, hclock⟩ | ⟨j, call, answer, before, after, rfl, hexec⟩
  · exact hclock hsteady
  · cases hexec <;> exact le_rfl

theorem now_eq_of_authorize_eq {claims claims' : Claims} {now' : ℕ}
    (h : authorize env claims now = authorize env claims' now') : now = now' :=
  (Call.lookup.inj (Proc.call.inj h).1).2

/-- A call of a steady gate is of no later second than it is now. -/
theorem le_clock_of_started (hrun : (gate env steady).Run s₀ h c) (hsteady : steady)
    {claims : Claims} (hst : Started h j (authorize env claims now)) :
    now ≤ c.shared.clock := by
  induction hrun with
  | init => exact absurd hst (by simp [Started])
  | @step h c c' m hrun hstep ih =>
    have hclock := clock_le hsteady hstep.allowed
    rw [← hstep.after]
    rcases started_append.1 hst with hold | hnew
    · exact (ih hold).trans (hstep.before ▸ hclock)
    · have hallowed := hstep.allowed
      rw [Allowed, started_singleton.1 hnew] at hallowed
      obtain ⟨⟨claims', now', hnow, hp⟩, -⟩ := hallowed
      rw [now_eq_of_authorize_eq hp, hnow hsteady]
      exact hclock

/-- The authority was asked in no earlier second than the call was given. -/
theorem le_clock_of_checked (hrun : (gate env steady).Run s₀ h c) (hsteady : steady)
    {claims : Claims} {checked : Checked}
    (hchecked : ⟨.checkRevocation claims now, checked⟩ ∈ own j h) :
    ∃ m ∈ h, m.label = .answer j ⟨.checkRevocation claims now, checked⟩ ∧
      now ≤ m.before.clock := by
  obtain ⟨hpre, before, after, hpost, rfl⟩ := exists_of_mem_own hchecked
  obtain ⟨c₁, c₂, hrun₁, hstep⟩ := hrun.cut
  obtain ⟨p, hst⟩ := hrun.started_before_answer
  obtain ⟨claims', now', rfl⟩ := eq_authorize_of_started hrun₁ hst
  obtain ⟨rfl, rfl⟩ := decided_of_run hrun (started_append.2 (Or.inl hst)) rfl
  refine ⟨_, List.mem_append_right _ List.mem_cons_self, rfl, ?_⟩
  rw [hstep.before]
  exact le_clock_of_started hrun₁ hsteady hst

/-! ## Failing closed -/

/-- Call `i` relies on a decision for its key between `pre` and `post`: it is about to
read it, or has just recorded it. -/
def Relies (i : ℕ) (key : String) (now : ℕ) (decision : Decision)
    (pre post : List GateMoment) : Prop :=
  (∃ m post', post = m :: post' ∧
      m.label = .answer i ⟨.lookup key now, some (.fresh decision)⟩) ∨
    ∃ pre' m, pre = pre' ++ [m] ∧ m.label = .answer i ⟨.apply key decision now, true⟩

theorem eq_allow {decision : Decision} (h : decisionToAuthorization decision = .allowed) :
    decision = .allow := by
  cases decision with
  | allow => rfl
  | deny => exact absurd h (by simp [decisionToAuthorization])

/-- A decision that a call read is one it relied on. -/
theorem relies_of_read (hrun : (gate env steady).Run s₀ h c) {claims : Claims}
    (hst : Started h i (authorize env claims now)) {key' : String} {now' : ℕ}
    (hev : ⟨.lookup key' now', some (.fresh decision)⟩ ∈ own i h) :
    ∃ pre post, h = pre ++ post ∧
      Relies i (revocationCacheKey env claims) now decision pre post := by
  obtain ⟨hpre, before, after, hpost, hsplit⟩ := exists_of_mem_own hev
  obtain ⟨rfl, rfl⟩ := decided_of_run hrun hst hsplit
  exact ⟨hpre, _, hsplit, Or.inl ⟨_, _, rfl, rfl⟩⟩

/-- And so is one that it recorded. -/
theorem relies_of_recorded (hrun : (gate env steady).Run s₀ h c) {claims : Claims}
    (hst : Started h i (authorize env claims now)) {key' : String} {now' : ℕ}
    (hev : ⟨.apply key' decision now', true⟩ ∈ own i h) :
    ∃ pre post, h = pre ++ post ∧
      Relies i (revocationCacheKey env claims) now decision pre post := by
  obtain ⟨hpre, before, after, hpost, hsplit⟩ := exists_of_mem_own hev
  obtain ⟨rfl, rfl, -⟩ := decided_of_run hrun hst hsplit
  exact ⟨_, hpost, hsplit.trans (List.append_cons _ _ _), Or.inr ⟨_, _, rfl, rfl⟩⟩

/-- How a finished call came to its result. -/
theorem came_of_run (hrun : (gate env steady).Run s₀ h c) {claims : Claims}
    (hst : Started h i (authorize env claims now)) {result : Authorization}
    (hresult : c.result i = some result) : Came (own i h) result :=
  hrun.own_result (K := decided env claims now fun _ _ => True) hst wp_authorize
    (fun _ _ _ _ _ _ => trivial) (Config.result_eq_some.1 hresult)

/-- A call is allowed by a decision it relied on. -/
theorem relies_of_allowed (hrun : (gate env steady).Run s₀ h c) {claims : Claims}
    (hst : Started h i (authorize env claims now)) (hallowed : c.result i = some .allowed) :
    ∃ pre post, h = pre ++ post ∧
      Relies i (revocationCacheKey env claims) now .allow pre post := by
  have hcame := came_of_run hrun hst hallowed
  generalize hresult : Authorization.allowed = result at hcame
  cases hcame with
  | read hev =>
    rw [eq_allow hresult.symm] at hev
    exact relies_of_read hrun hst hev
  | recorded hev =>
    rw [eq_allow hresult.symm] at hev
    exact relies_of_recorded hrun hst hev
  | _ => exact absurd hresult (by simp)

/-- What a call relies on is the last decision recorded for its key, and no older than the
budget. -/
theorem lastRecorded_of_relies {pre post : List GateMoment}
    (hrun : (gate env steady).Run s₀ (pre ++ post) c) (hempty : s₀.cache.entries = ∅)
    (hrelies : Relies i key now decision pre post) :
    ∃ j now₀, lastRecorded key pre = some (j, decision, now₀) ∧ now₀ ≤ now ∧
      now ≤ now₀ + s₀.cache.freshnessBudgetSecs := by
  rcases hrelies with ⟨m, post', rfl, hlabel⟩ | ⟨pre', m, rfl, hlabel⟩
  · obtain ⟨c₁, c₂, hrun₁, hstep⟩ := hrun.cut
    obtain ⟨label, before, after⟩ := m
    obtain rfl : label = _ := hlabel
    have hexec : Exec i before _ _ after := hstep.allowed
    obtain rfl : before = c₁.shared := hstep.before
    cases hexec with
    | lookup hlookup =>
      obtain ⟨hle, -⟩ := RevocationCache.lookup_eq_some hlookup
      obtain ⟨entry, hentry, rfl, hfresh⟩ := RevocationCache.lookup_eq_fresh hlookup
      obtain ⟨hobserved, j, hlast⟩ := faithful_of_run hrun₁ hempty key entry hentry
      rw [budget_of_run hrun₁] at hfresh
      exact ⟨j, entry.observedAt, hlast, hobserved.trans hle, by omega⟩
  · exact ⟨i, now, lastRecorded_concat_some (recorded_eq_some.2 hlabel), le_rfl,
      Nat.le_add_right _ _⟩

/-- **The gate fails closed, and its staleness is bounded.**  Whatever calls interleave,
whatever seconds they are given, whatever the authority answers and whichever calls are
given up: a call is allowed only by the last decision recorded for its key when it relied
on it, which the authority made, for the same token, in a call given a second no more
than the budget before.  And if each call is given the second it starts in, and from second
`T` on the authority never answers that the token is not revoked, no call of a second past
`T` and the budget is allowed.  The budget is the cache's own: one second where it was set to
none. -/
theorem authorize_fails_closed (env : Env) (hinj : env.CollisionFree) {steady : Prop}
    {freshnessBudgetSecs capacity clock : ℕ} {h : List GateMoment}
    {c : Config Call Call.Answer Authorization Gate}
    (hrun : (gate env steady).Run (.new freshnessBudgetSecs capacity clock) h c)
    {i : ℕ} {claims : Claims} {now : ℕ} (hst : Started h i (authorize env claims now))
    (hallowed : c.result i = some .allowed) :
    (∃ pre post j claims' now₀, h = pre ++ post ∧
      Relies i (revocationCacheKey env claims) now .allow pre post ∧
      lastRecorded (revocationCacheKey env claims) pre = some (j, .allow, now₀) ∧
      Started pre j (authorize env claims' now₀) ∧ SameToken claims' claims ∧
      ⟨.checkRevocation claims' now₀, .answered false⟩ ∈ own j pre ∧
      now₀ ≤ now ∧
      now ≤ now₀ + (RevocationCache.new freshnessBudgetSecs capacity).freshnessBudgetSecs) ∧
    (steady → ∀ T, (∀ m ∈ h, T ≤ m.before.clock → ∀ j claims' now', SameToken claims' claims →
        m.label ≠ .answer j ⟨.checkRevocation claims' now', .answered false⟩) →
      now ≤ T + (RevocationCache.new freshnessBudgetSecs capacity).freshnessBudgetSecs) := by
  obtain ⟨pre, post, rfl, hrelies⟩ := relies_of_allowed hrun hst hallowed
  obtain ⟨j, now₀, hlast, hle, hbudget⟩ := lastRecorded_of_relies hrun rfl hrelies
  obtain ⟨c', hrun'⟩ := hrun.of_append
  obtain ⟨claims', checked, hstarted, hkey, hchecked, hdecision⟩ :=
    author_of_lastRecorded hrun' hlast
  have htoken := revocationCacheKey_injective hinj hkey.symm
  obtain rfl : checked = .answered false := by
    match checked with
    | .answered false => rfl
    | .answered true | .failed | .timedOut => exact absurd hdecision (by simp [Checked.decision])
  refine ⟨⟨pre, post, j, claims', now₀, rfl, hrelies, hlast, hstarted, htoken, hchecked, hle,
    hbudget⟩, fun hsteady T hrevoked => ?_⟩
  obtain ⟨m, hm, hlabel, hclock⟩ := le_clock_of_checked hrun' hsteady hchecked
  have hlt : m.before.clock < T := by
    by_contra hge
    exact hrevoked m (List.mem_append_left _ hm) (not_lt.1 hge) j claims' now₀ htoken hlabel
  calc now ≤ now₀ + _ := hbudget
    _ ≤ T + _ := Nat.add_le_add_right (hclock.trans hlt.le) _

/-- A call of second 12, played: it is allowed by what the authority said in second 10. -/
theorem authorize_fails_closed_read : ∃ h c,
    (gate Reference.env True).Run Sample.start h c ∧ c.result 1 = some .allowed ∧
      ∃ j claims' now₀, SameToken claims' Sample.claims ∧
        ⟨.checkRevocation claims' now₀, .answered false⟩ ∈ own j h ∧ 12 ≤ now₀ + 5 := by
  obtain ⟨h₁, c₁, h₂, c₂, hplay₁, hplay₂, hfound⟩ := Sample.driver.exists_play
    (.initial Sample.start) (Sample.refreshed ++ [Sample.tick 2])
    [.start Sample.claims, Sample.answer 1] (fun _ c₁ _ c₂ =>
      c₁.next = 1 ∧ c₁.shared.clock = 12 ∧ c₂.result 1 = some .allowed)
    (by decide +kernel)
  obtain ⟨hnext, hclock, hallowed⟩ := of_decide_eq_true hfound
  have hrun := Sample.driver.run_of_play (Sample.driver.run_of_play .init hplay₁) hplay₂
  have hst := Sample.driver.started_of_play hplay₂ rfl
  rw [hnext, hclock] at hst
  obtain ⟨pre, post, j, claims', now₀, hsplit, -, -, -, htoken, hchecked, -, hbudget⟩ :=
    (authorize_fails_closed Reference.env Reference.collisionFree hrun
      (started_append.2 (Or.inr hst)) hallowed).1
  refine ⟨_, c₂, hrun, hallowed, j, claims', now₀, htoken, ?_, hbudget⟩
  rw [show [] ++ h₁ ++ h₂ = pre ++ post from hsplit, own_append]
  exact List.mem_append_left _ hchecked

end Revocation

end LoadBalance
