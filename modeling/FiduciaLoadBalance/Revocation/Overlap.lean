import FiduciaLoadBalance.Revocation.Freshness

/-!
# Calls of the gate that overlap

The cache refuses whoever comes from an earlier second than somebody before him, and
the seconds of the gate's calls are read when the calls start: a call that waits, for
the key's lock or for the authority, while one of a later second looks its own token up
is refused at its next step.

* `highWater_cases` — what a moment does to the clock of the cache;
* `allowed_iff_timely` — if the authority never knows a token revoked, a call is allowed
  exactly when it was overtaken at none of its steps;
* `not_always_allowed` — and one can be overtaken.
-/

namespace LoadBalance

open Conc Machine

namespace Revocation

/-- The second as of which a call touches the cache. -/
def Call.second : Call → Option ℕ
  | .lookup _ now => some now
  | .recordRefreshStart now => some now
  | .apply _ _ now => some now
  | _ => none

/-- And a moment. -/
def second (m : GateMoment) : Option ℕ :=
  match m.label with
  | .answer _ ev => ev.1.second
  | _ => none

/-- The cache refused the call. -/
def Refused : TaskEvent → Prop
  | ⟨.lookup _ _, found⟩ => found = none
  | ⟨.recordRefreshStart _, started⟩ => started = false
  | ⟨.apply _ _ _, applied⟩ => applied = false
  | _ => False

/-- **Call `i` was overtaken nowhere**: at each of its steps at the cache, no call of a
later second had been there. -/
def Timely (i : ℕ) (h : List GateMoment) : Prop :=
  ∀ pre m post, h = pre ++ m :: post → (m.label.own i).isSome → ∀ now ∈ second m,
    ∀ m' ∈ pre, ∀ now' ∈ second m', now' ≤ now

/-- If the authority was asked at this moment, it did not know the token revoked. -/
def vouches (m : GateMoment) : Bool :=
  match m.label with
  | .answer _ ⟨.checkRevocation _ _, checked⟩ => checked = .answered false
  | _ => true

variable {env : Env} {steady : Prop} {s₀ : Gate} {h : List GateMoment}
  {c : Config Call Call.Answer Authorization Gate} {m : GateMoment} {i : ℕ}

/-! ## The clock of the cache -/

/-- **What a moment does to the clock of the cache**: a touch moves it to its second,
or is refused if that is behind. -/
theorem highWater_cases (hm : (gate env steady).Allowed m) :
    (second m = none ∧ m.after.cache.highWater = m.before.cache.highWater) ∨
    ∃ i ev now, m.label = .answer i ev ∧ second m = some now ∧
      m.after.cache.highWater = max m.before.cache.highWater now ∧
      (Refused ev ↔ now < m.before.cache.highWater) := by
  rcases allowed_cases hm with ⟨hother, hcache, -⟩ | ⟨i, call, answer, before, after,
    rfl, hexec⟩
  · refine Or.inl ⟨?_, congrArg RevocationCache.highWater hcache⟩
    unfold second
    split
    · exact absurd ‹_› (hother _ _)
    · rfl
  · cases hexec with
    | lookup hlookup =>
      obtain ⟨hle, rfl⟩ := RevocationCache.lookup_eq_some hlookup
      exact Or.inr ⟨i, _, _, rfl, rfl, (max_eq_right hle).symm, by simp [Refused, hle]⟩
    | recordRefreshStart htouch =>
      obtain ⟨hle, rfl⟩ := RevocationCache.advance_eq_some.1 htouch
      exact Or.inr ⟨i, _, _, rfl, rfl, (max_eq_right hle).symm, by simp [Refused, hle]⟩
    | apply _ happly =>
      obtain ⟨hle, hsecond, -⟩ := RevocationCache.apply_eq_some happly
      exact Or.inr ⟨i, _, _, rfl, rfl, hsecond.trans (max_eq_right hle).symm,
        by simp [Refused, hle]⟩
    | lookupRefused hlookup =>
      have hlt := RevocationCache.lookup_eq_none.1 hlookup
      exact Or.inr ⟨i, _, _, rfl, rfl, (max_eq_left hlt.le).symm, by simp [Refused, hlt]⟩
    | refreshRefused htouch =>
      have hlt := RevocationCache.advance_eq_none.1 htouch
      exact Or.inr ⟨i, _, _, rfl, rfl, (max_eq_left hlt.le).symm, by simp [Refused, hlt]⟩
    | applyRefused happly =>
      have hlt := RevocationCache.apply_eq_none.1 (happly "")
      exact Or.inr ⟨i, _, _, rfl, rfl, (max_eq_left hlt.le).symm, by simp [Refused, hlt]⟩
    | _ => exact Or.inl ⟨rfl, rfl⟩

/-- The clock of the cache is the latest second it was touched at. -/
structure Marked (h : List GateMoment) (s : Gate) : Prop where
  le : ∀ m ∈ h, ∀ now ∈ second m, now ≤ s.cache.highWater
  attained : s.cache.highWater = 0 ∨ ∃ m ∈ h, s.cache.highWater ∈ second m

theorem Marked.step (hmarked : Marked h m.before) (hm : (gate env steady).Allowed m) :
    Marked (h ++ [m]) m.after := by
  rcases highWater_cases hm with ⟨hnone, hsame⟩ | ⟨j, ev, now, -, hsecond, hmax, -⟩
  · refine ⟨fun m' hm' now hnow => ?_, ?_⟩
    · rw [hsame]
      rcases List.mem_append.1 hm' with hold | hnew
      · exact hmarked.le m' hold now hnow
      · rw [List.mem_singleton.1 hnew, hnone] at hnow
        exact absurd hnow (by simp)
    · rw [hsame]
      exact hmarked.attained.imp_right fun ⟨m', hm', hnow⟩ => ⟨m', List.mem_append_left _ hm', hnow⟩
  · refine ⟨fun m' hm' now' hnow => ?_, ?_⟩
    · rw [hmax]
      rcases List.mem_append.1 hm' with hold | hnew
      · exact le_max_of_le_left (hmarked.le m' hold now' hnow)
      · rw [List.mem_singleton.1 hnew, hsecond, Option.mem_some_iff] at hnow
        exact hnow ▸ le_max_right _ _
    · rw [hmax]
      rcases max_choice m.before.cache.highWater now with hleft | hright
      · rw [hleft]
        exact hmarked.attained.imp_right fun ⟨m', hm', hnow⟩ =>
          ⟨m', List.mem_append_left _ hm', hnow⟩
      · rw [hright]
        exact Or.inr ⟨m, List.mem_concat_self, hsecond⟩

theorem marked_of_run (hrun : (gate env steady).Run s₀ h c) (hzero : s₀.cache.highWater = 0) :
    Marked h c.shared := by
  induction hrun with
  | init => exact ⟨by simp, Or.inl hzero⟩
  | step _ hstep ih =>
    rw [← hstep.before] at ih
    rw [← hstep.after]
    exact ih.step hstep.allowed

/-- A call was refused exactly if one of a later second had been there. -/
theorem refused_iff {pre post : List GateMoment} {ev : TaskEvent} {b a : Gate} {now : ℕ}
    (hrun : (gate env steady).Run s₀ (pre ++ ⟨.answer i ev, b, a⟩ :: post) c)
    (hzero : s₀.cache.highWater = 0) (hnow : now ∈ ev.1.second) :
    Refused ev ↔ ∃ m' ∈ pre, ∃ now' ∈ second m', now < now' := by
  obtain ⟨c₁, c₂, hrun₁, hstep⟩ := hrun.cut
  have hmarked := marked_of_run hrun₁ hzero
  rcases highWater_cases hstep.allowed with ⟨hnone, -⟩ | ⟨j, ev', now', hlabel, hsecond, -, hiff⟩
  · exact absurd (hnone.symm.trans hnow) (by simp)
  · obtain ⟨rfl, rfl⟩ := Label.answer.inj hlabel
    obtain rfl : now' = now := Option.some.inj (hsecond.symm.trans hnow)
    rw [hiff, hstep.before]
    constructor
    · intro hlt
      rcases hmarked.attained with hzero' | ⟨m', hm', hmark⟩
      · exact absurd hlt (by simp [hzero'])
      · exact ⟨m', hm', _, hmark, hlt⟩
    · rintro ⟨m', hm', now'', hnow', hlt⟩
      exact lt_of_lt_of_le hlt (hmarked.le m' hm' now'' hnow')

/-! ## A refusal is the end of a call -/

/-- A contract that asks nothing and promises nothing. -/
def free : Contract Call Call.Answer where
  rely _ _ _ := True
  guarantee _ _ := True

/-- A call that was refused comes to nothing else. -/
def Ends (h : List TaskEvent) (result : Authorization) : Prop :=
  (∃ ev ∈ h, Refused ev) → result = .unavailable .clockRegression

section

variable {h : List TaskEvent} {claims : Claims} {key : String} {now : ℕ}

theorem ends_of_clean {result : Authorization} (hclean : ∀ ev ∈ h, ¬Refused ev) :
    Ends h result := fun ⟨ev, hev, hrefused⟩ => absurd hrefused (hclean ev hev)

theorem clean_concat {e : TaskEvent} (hclean : ∀ ev ∈ h, ¬Refused ev) (he : ¬Refused e) :
    ∀ ev' ∈ h ++ [e], ¬Refused ev' := by
  intro ev' hev'
  rcases List.mem_append.1 hev' with hold | hnew
  · exact hclean ev' hold
  · rwa [List.mem_singleton.1 hnew]

theorem Ends.concat {result : Authorization} {ev : TaskEvent} (hends : Ends h result)
    (hev : ¬Refused ev) : Ends (h ++ [ev]) result := by
  rintro ⟨ev', hev', hrefused⟩
  rcases List.mem_append.1 hev' with hold | hnew
  · exact hends ⟨ev', hold, hrefused⟩
  · exact absurd (List.mem_singleton.1 hnew ▸ hrefused) hev

theorem wp_refresh_ends (hclean : ∀ ev ∈ h, ¬Refused ev) :
    (refresh claims key now).wp free Ends h := by
  refine ⟨trivial, fun started _ => ?_⟩
  cases started with
  | false => exact fun _ => rfl
  | true =>
    have hstarted := clean_concat (e := ⟨.recordRefreshStart now, true⟩) hclean (by simp [Refused])
    refine ⟨trivial, fun checked _ => ?_⟩
    have hchecked := clean_concat (e := ⟨.checkRevocation claims now, checked⟩) hstarted id
    cases checked with
    | timedOut => exact ends_of_clean hchecked
    | failed => exact ends_of_clean hchecked
    | answered revoked =>
      refine ⟨trivial, fun applied _ => ?_⟩
      cases applied with
      | false => exact fun _ => rfl
      | true => exact ends_of_clean (clean_concat hchecked (by simp [Refused]))

theorem wp_lookupLocked_ends (hclean : ∀ ev ∈ h, ¬Refused ev) :
    (lookupLocked claims key now).wp free Ends h := by
  refine ⟨trivial, fun found _ => ?_⟩
  match found with
  | none => exact fun _ => rfl
  | some (.fresh decision) => exact ends_of_clean (clean_concat hclean (by simp [Refused]))
  | some .stale => exact wp_refresh_ends (clean_concat hclean (by simp [Refused]))
  | some .miss => exact wp_refresh_ends (clean_concat hclean (by simp [Refused]))

theorem wp_withKeyLock_ends (hclean : ∀ ev ∈ h, ¬Refused ev) :
    (withKeyLock claims key now).wp free Ends h := by
  refine ⟨trivial, fun lock _ => ⟨trivial, fun _ _ => ?_⟩⟩
  have hlocked := clean_concat (e := ⟨.lock lock, ()⟩)
    (clean_concat (e := ⟨.acquireKey key, lock⟩) hclean id) id
  refine (Proc.wp_bind (p := lookupLocked claims _ now)).2
    (Proc.wp_mono (wp_lookupLocked_ends hlocked) fun h' outcome hends => ?_)
  exact ⟨trivial, fun _ _ => ⟨trivial, fun _ _ => ⟨trivial, fun _ _ =>
    ((hends.concat id).concat id).concat id⟩⟩⟩

theorem wp_authorize_ends : (authorize env claims now).wp free Ends [] := by
  have hclean : ∀ found, found ≠ none →
      ∀ ev ∈ [(⟨.lookup (revocationCacheKey env claims) now, found⟩ : TaskEvent)], ¬Refused ev := by
    intro found hfound ev hev
    rw [List.mem_singleton.1 hev]
    exact hfound
  refine ⟨trivial, fun found _ => ?_⟩
  match found with
  | none => exact fun _ => rfl
  | some (.fresh decision) => exact ends_of_clean (hclean _ (by simp))
  | some .stale => exact wp_withKeyLock_ends (hclean _ (by simp))
  | some .miss => exact wp_withKeyLock_ends (hclean _ (by simp))

end

/-! ## Who is allowed -/

/-- What the authority answered, if it knows no token to be revoked. -/
theorem checked_of_vouches (hvouch : ∀ m ∈ h, vouches m = true) {claims : Claims} {now : ℕ}
    {checked : Checked} (hev : ⟨.checkRevocation claims now, checked⟩ ∈ own i h) :
    checked = .answered false := by
  obtain ⟨hpre, b, a, hpost, rfl⟩ := exists_of_mem_own hev
  exact of_decide_eq_true (hvouch _ (List.mem_append_right _ List.mem_cons_self))

/-- Then what a call relies on is an allowance. -/
theorem eq_allow_of_relies {pre post : List GateMoment} {key : String} {now : ℕ}
    {decision : Decision} (hrun : (gate env steady).Run s₀ (pre ++ post) c)
    (hempty : s₀.cache.entries = ∅) (hvouch : ∀ m ∈ pre ++ post, vouches m = true)
    (hrelies : Relies i key now decision pre post) : decision = .allow := by
  obtain ⟨j, now₀, hlast, -⟩ := lastRecorded_of_relies hrun hempty hrelies
  obtain ⟨c', hrun'⟩ := hrun.of_append
  obtain ⟨claims, checked, -, -, hchecked, hdecision⟩ := author_of_lastRecorded hrun' hlast
  rw [checked_of_vouches (fun m hm => hvouch m (List.mem_append_left _ hm)) hchecked] at hdecision
  exact (Option.some.inj hdecision).symm

theorem second_of_refused {ev : TaskEvent} (h : Refused ev) : ∃ now, now ∈ ev.1.second := by
  obtain ⟨call, answer⟩ := ev
  cases call with
  | lookup key now => exact ⟨now, rfl⟩
  | recordRefreshStart now => exact ⟨now, rfl⟩
  | apply key decision now => exact ⟨now, rfl⟩
  | _ => exact h.elim

/-- A call was refused somewhere exactly if it was overtaken somewhere. -/
theorem exists_refused_iff (hrun : (gate env steady).Run s₀ h c)
    (hzero : s₀.cache.highWater = 0) : (∃ ev ∈ own i h, Refused ev) ↔ ¬Timely i h := by
  constructor
  · rintro ⟨ev, hev, hrefused⟩ htimely
    obtain ⟨hpre, b, a, hpost, rfl⟩ := exists_of_mem_own hev
    obtain ⟨now, hnow⟩ := second_of_refused hrefused
    obtain ⟨m', hm', now', hnow', hlt⟩ := (refused_iff hrun hzero hnow).1 hrefused
    have hle := htimely hpre _ hpost rfl (by simp [Label.own]) now hnow m' hm' now' hnow'
    exact absurd hlt (not_lt.2 hle)
  · intro hnot
    by_contra hnone
    refine hnot fun pre m post hsplit hown now hnow m' hm' now' hnow' => ?_
    obtain ⟨ev, hev⟩ := Option.isSome_iff_exists.1 hown
    obtain ⟨label, b, a⟩ := m
    obtain rfl : label = .answer i ev := Label.eq_answer_of_own hev
    subst hsplit
    by_contra hlt
    refine hnone ⟨ev, mem_own (List.mem_append_right _ List.mem_cons_self) rfl, ?_⟩
    exact (refused_iff hrun hzero hnow).2 ⟨m', hm', now', hnow', not_le.1 hlt⟩

/-- **A call is allowed exactly when nobody overtook it**, in every run in which the
authority knows no token revoked and always answers in time. -/
theorem allowed_iff_timely (env : Env) {steady : Prop} {freshnessBudgetSecs capacity clock : ℕ}
    {h : List GateMoment} {c : Config Call Call.Answer Authorization Gate}
    (hrun : (gate env steady).Run (.new freshnessBudgetSecs capacity clock) h c)
    (hvouch : ∀ m ∈ h, vouches m = true) {i : ℕ} {result : Authorization}
    (hresult : c.result i = some result) : result = .allowed ↔ Timely i h := by
  obtain ⟨p, hst⟩ := hrun.tracked.started (Config.result_eq_some.1 hresult)
  obtain ⟨claims, now, rfl⟩ := eq_authorize_of_started hrun hst
  have hends : Ends (own i h) result :=
    hrun.own_result (K := free) hst wp_authorize_ends (fun _ _ _ _ _ _ => trivial)
      (Config.result_eq_some.1 hresult)
  have hrefused : (∃ ev ∈ own i h, Refused ev) ↔ ¬Timely i h := exists_refused_iff hrun rfl
  constructor
  · rintro rfl
    by_contra hnot
    exact absurd (hends (hrefused.2 hnot)) (by simp)
  · intro htimely
    have hclean : ∀ ev ∈ own i h, ¬Refused ev := fun ev hev hr =>
      absurd htimely (hrefused.1 ⟨ev, hev, hr⟩)
    have hcame := came_of_run hrun hst hresult
    cases hcame with
    | read hev =>
      obtain ⟨pre, post, rfl, hrelies⟩ := relies_of_read hrun hst hev
      rw [eq_allow_of_relies hrun rfl hvouch hrelies]
      rfl
    | recorded hev =>
      obtain ⟨pre, post, rfl, hrelies⟩ := relies_of_recorded hrun hst hev
      rw [eq_allow_of_relies hrun rfl hvouch hrelies]
      rfl
    | regression hev => exact absurd rfl (hclean _ hev)
    | startRegression hev => exact absurd rfl (hclean _ hev)
    | applyRegression hev => exact absurd rfl (hclean _ hev)
    | timedOut hev => exact absurd (checked_of_vouches hvouch hev) (by simp)
    | failed hev => exact absurd (checked_of_vouches hvouch hev) (by simp)

/-- A call that reads what another recorded, played: nobody overtook it. -/
theorem allowed_iff_timely_read : ∃ h c,
    (gate Reference.env True).Run Sample.start h c ∧ c.result 1 = some .allowed ∧
      Timely 1 h := by
  obtain ⟨h₁, c₁, h₂, c₂, hplay₁, hplay₂, hfound⟩ := Sample.driver.exists_play
    (.initial Sample.start) (Sample.refreshed ++ [Sample.tick 2])
    [.start Sample.claims, Sample.answer 1] (fun h₁ _ h₂ c₂ =>
      (∀ m ∈ h₁ ++ h₂, vouches m = true) ∧ c₂.result 1 = some .allowed)
    (by decide +kernel)
  obtain ⟨hvouch, hallowed⟩ := of_decide_eq_true hfound
  have hrun := Sample.driver.run_of_play (Sample.driver.run_of_play .init hplay₁) hplay₂
  exact ⟨_, c₂, hrun, hallowed, (allowed_iff_timely Reference.env hrun hvouch hallowed).1 rfl⟩

/-- **A call can be overtaken.**  A call of second 10 has asked the authority when one of
second 11 looks the token up; the authority answers, and the call is refused. -/
theorem not_always_allowed : ∃ h c, (gate Reference.env True).Run Sample.start h c ∧
    (∀ m ∈ h, vouches m = true) ∧ c.result 0 = some (.unavailable .clockRegression) := by
  obtain ⟨h₁, c₁, h₂, c₂, hplay₁, hplay₂, hfound⟩ := Sample.driver.exists_play
    (.initial Sample.start) (.start Sample.claims :: List.replicate 5 (Sample.answer 0))
    (Sample.tick 1 :: .start Sample.claims :: Sample.answer 1 :: List.replicate 5 (Sample.answer 0))
    (fun h₁ _ h₂ c₂ => (∀ m ∈ h₁ ++ h₂, vouches m = true) ∧
      c₂.result 0 = some (.unavailable .clockRegression))
    (by decide +kernel)
  obtain ⟨hvouch, hresult⟩ := of_decide_eq_true hfound
  have hrun := Sample.driver.run_of_play (Sample.driver.run_of_play .init hplay₁) hplay₂
  exact ⟨_, c₂, hrun, hvouch, hresult⟩

end Revocation

end LoadBalance
