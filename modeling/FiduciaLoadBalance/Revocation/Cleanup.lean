import FiduciaLoadBalance.Revocation.Exclusion

/-!
# What is left of a key's lock

A key's lock is to go when the last call that has a reference to it releases the key.  The
release counts references: it keeps the lock if it counts one that is already released and
only not given up yet, and a call that is dropped releases nothing.

* `clean` — the steps at which neither happens to the last call of a key;
* `Tidy.step`, `clean_of_tidy` — such steps, and no others, leave no lock without a call that
  will release it;
* `cleaned_up_of_clean` — so in a run of such steps no lock outlives the calls of its key;
* `not_cleaned_up` — and one call that is dropped leaves its lock behind for ever.
-/

namespace LoadBalance

open Conc Machine

namespace Revocation

/-- Somebody other than call `i` has an unreleased reference to the lock. -/
def KeyLocks.wantedByOther (locks : KeyLocks) (i : ℕ) (lock : LockId) : Bool :=
  locks.references.any fun reference => reference.2 = lock ∧ reference.1 ≠ i

/-- **A step that leaves nothing behind.**  A key is released while somebody else still has
to release it, or after all who did have given up their references; and a call that is
dropped before it released its key is not the last that has to. -/
def clean (m : GateMoment) : Bool :=
  match m.label with
  | .answer i ⟨.releaseKey _ lock, _⟩ =>
    m.before.locks.wantedByOther i lock || m.before.locks.released.all fun reference =>
      reference.2 ≠ lock
  | .drop i => m.before.locks.references.all fun reference =>
    reference.1 ≠ i ∨ m.before.locks.wantedByOther i reference.2
  | _ => true

/-- Each lock in the table has a call that still has to release it. -/
def Tidy (stages : ℕ → Stage) (locks : KeyLocks) : Prop :=
  ∀ (key : String) (lock : LockId), locks.byKey[key]? = some lock →
    ∃ i, (stages i).wanted = some (key, lock)

variable {stages : ℕ → Stage} {locks : KeyLocks} {i : ℕ} {key : String} {lock : LockId}
  {stage : Stage}

/-! ## Counting references -/

theorem length_le_one {α : Type} {l : List α} (hnodup : l.Nodup)
    (hsame : ∀ a ∈ l, ∀ b ∈ l, a = b) : l.length ≤ 1 := by
  match l with
  | [] => exact Nat.zero_le 1
  | [_] => exact le_rfl
  | a :: b :: _ =>
    have heq := hsame a (by simp) b (by simp)
    exact absurd heq (by rintro rfl; simp at hnodup)

theorem nodup_toList (entries : Std.ExtTreeMap String LockId) : entries.toList.Nodup := by
  refine Std.ExtTreeMap.distinct_keys_toList.imp ?_
  rintro a b hne rfl
  exact hne (compare_eq_iff_eq.2 rfl)

/-- The count of a lock that only the table and its last call have a reference to. -/
theorem Locked.strongCount_le (h : Locked stages locks) (hi : stages i = .leaving key lock)
    (hother : locks.wantedByOther i lock = false)
    (hreleased : ∀ reference ∈ locks.released, reference.2 ≠ lock) :
    locks.strongCount lock ≤ 2 := by
  have hmine : (locks.references.filter (·.2 = lock)).length ≤ 1 := by
    refine length_le_one (h.references_nodup.filter _) ?_
    have honly : ∀ reference ∈ locks.references.filter (·.2 = lock), reference = (i, lock) := by
      rintro ⟨j, lock'⟩ hmem
      obtain ⟨hreference, hlock⟩ := List.mem_filter.1 hmem
      obtain rfl : lock' = lock := of_decide_eq_true hlock
      by_contra hne
      have hji : j ≠ i := by
        rintro rfl
        exact hne rfl
      have hwanted : locks.wantedByOther i lock' = true :=
        List.any_eq_true.2 ⟨(j, lock'), hreference, by simp [hji]⟩
      rw [hother] at hwanted
      exact absurd hwanted (by simp)
    intro a ha b hb
    rw [honly a ha, honly b hb]
  have hnone : locks.released.filter (·.2 = lock) = [] := by
    refine List.filter_eq_nil_iff.2 ?_
    intro reference hmem
    simpa using hreleased reference hmem
  have hentry : (locks.byKey.toList.filter (·.2 = lock)).length ≤ 1 := by
    refine length_le_one ((nodup_toList locks.byKey).filter _) ?_
    rintro ⟨key₁, lock₁⟩ h₁ ⟨key₂, lock₂⟩ h₂
    obtain ⟨hmem₁, hlock₁⟩ := List.mem_filter.1 h₁
    obtain ⟨hmem₂, hlock₂⟩ := List.mem_filter.1 h₂
    obtain rfl : lock₁ = lock := of_decide_eq_true hlock₁
    obtain rfl : lock₂ = lock₁ := of_decide_eq_true hlock₂
    rw [h.byKey_injective key₁ key₂ lock₂
      (Std.ExtTreeMap.mem_toList_iff_getElem?_eq_some.1 hmem₁)
      (Std.ExtTreeMap.mem_toList_iff_getElem?_eq_some.1 hmem₂)]
  unfold KeyLocks.strongCount
  rw [hnone, List.length_nil]
  omega

/-- Whoever else wants a lock wants it for its key. -/
theorem Locked.wanted_of_other (h : Locked stages locks)
    (hkey : locks.byKey[key]? = some lock) (hother : locks.wantedByOther i lock = true) :
    ∃ j, j ≠ i ∧ (stages j).wanted = some (key, lock) := by
  obtain ⟨⟨j, lock'⟩, hmem, hprop⟩ := List.any_eq_true.1 hother
  obtain ⟨hlock, hji⟩ := of_decide_eq_true hprop
  obtain rfl : lock' = lock := hlock
  obtain ⟨key', hwanted⟩ := (h.references j lock').1 hmem
  obtain rfl := h.byKey_injective key' key lock' (h.byKey j key' lock' hwanted) hkey
  exact ⟨j, hji, hwanted⟩

/-! ## What a step leaves -/

/-- A call that keeps its reference stays responsible. -/
theorem Tidy.update (h : Tidy stages locks) {locks' : KeyLocks}
    (hbyKey : locks'.byKey = locks.byKey) (hwanted : stage.wanted = (stages i).wanted) :
    Tidy (Function.update stages i stage) locks' := by
  intro key lock hkey
  rw [hbyKey] at hkey
  obtain ⟨j, hj⟩ := h key lock hkey
  exact ⟨j, (update_same Stage.wanted hwanted j).trans hj⟩

/-- Others stay responsible whatever a call does. -/
theorem Tidy.of_others {locks' : KeyLocks} (h : ∀ (key : String) (lock : LockId),
    locks'.byKey[key]? = some lock → ∃ j, j ≠ i ∧ (stages j).wanted = some (key, lock)) :
    Tidy (Function.update stages i stage) locks' := by
  intro key lock hkey
  obtain ⟨j, hji, hj⟩ := h key lock hkey
  exact ⟨j, by rw [Function.update_of_ne hji, hj]⟩

theorem Tidy.acquire (h : Tidy stages locks) (hi : stages i = .looking) (key : String) :
    Tidy (Function.update stages i (.waiting key (locks.acquire i key).1))
      (locks.acquire i key).2 := by
  have hothers : ∀ (key' : String) (lock' : LockId), locks.byKey[key']? = some lock' →
      ∃ j, j ≠ i ∧ (stages j).wanted = some (key', lock') := by
    intro key' lock' hkey'
    obtain ⟨j, hj⟩ := h key' lock' hkey'
    refine ⟨j, ?_, hj⟩
    rintro rfl
    rw [hi] at hj
    exact absurd hj (by simp [Stage.wanted])
  unfold KeyLocks.acquire
  split
  · exact Tidy.of_others hothers
  · intro key' lock' hkey'
    dsimp only at hkey'
    rw [Std.ExtTreeMap.getElem?_insert] at hkey'
    split at hkey'
    · rename_i heq
      obtain rfl := compare_eq_iff_eq.1 heq
      refine ⟨i, ?_⟩
      rw [Function.update_self, ← Option.some.inj hkey']
      rfl
    · exact Tidy.of_others hothers key' lock' hkey'

theorem Tidy.release (h : Tidy stages locks) (hlocked : Locked stages locks)
    (hi : stages i = .leaving key lock)
    (hclean : locks.wantedByOther i lock = true ∨
      ∀ reference ∈ locks.released, reference.2 ≠ lock) :
    Tidy (Function.update stages i (.released lock)) (locks.release i key lock) := by
  refine Tidy.of_others ?_
  intro key' lock' hkey'
  have hkey := getElem?_release hkey'
  obtain ⟨j, hj⟩ := h key' lock' hkey
  by_cases hji : j = i
  · rw [hji, hi] at hj
    obtain ⟨rfl, rfl⟩ := Prod.mk.inj (Option.some.inj hj)
    by_cases hother : locks.wantedByOther i lock = true
    · exact hlocked.wanted_of_other hkey hother
    · -- nobody else counts, so the lock went
      have hcount := hlocked.strongCount_le hi (by simpa using hother)
        (hclean.resolve_left hother)
      unfold KeyLocks.release at hkey'
      dsimp only at hkey'
      rw [if_pos hcount, Std.ExtTreeMap.getElem?_erase_self] at hkey'
      exact absurd hkey' (by simp)
  · exact ⟨j, hji, hj⟩

theorem Tidy.forget (h : Tidy stages locks) (hlocked : Locked stages locks)
    (hclean : ∀ reference ∈ locks.references,
      reference.1 ≠ i ∨ locks.wantedByOther i reference.2 = true) :
    Tidy (Function.update stages i .gone) (locks.forget i) := by
  refine Tidy.of_others ?_
  intro key lock hkey
  have hbefore : locks.byKey[key]? = some lock := hkey
  obtain ⟨j, hj⟩ := h key lock hbefore
  by_cases hji : j = i
  · have hmem := (hlocked.references j lock).2 ⟨key, hj⟩
    have hother := (hclean (j, lock) hmem).resolve_left (by simp [hji])
    exact hlocked.wanted_of_other hbefore hother
  · exact ⟨j, hji, hj⟩

/-! ## What a step that is not clean leaves -/

theorem wantedByOther_of_wanted (h : Locked stages locks) {j : ℕ} (hji : j ≠ i)
    (hj : (stages j).wanted = some (key, lock)) : locks.wantedByOther i lock = true :=
  List.any_eq_true.2 ⟨(j, lock), (h.references j lock).2 ⟨key, hj⟩, by simp [hji]⟩

/-- A reference that is not given up keeps the lock of the last call in the table. -/
theorem Locked.clean_of_release (h : Locked stages locks) (hi : stages i = .leaving key lock)
    (htidy : Tidy (Function.update stages i (.released lock)) (locks.release i key lock)) :
    locks.wantedByOther i lock = true ∨ ∀ reference ∈ locks.released, reference.2 ≠ lock := by
  by_contra hnot
  obtain ⟨hother, hreleased⟩ := not_or.1 hnot
  push Not at hreleased
  obtain ⟨reference, hreference, hlock⟩ := hreleased
  have hwanted : (stages i).wanted = some (key, lock) := by rw [hi, Stage.wanted]
  have hkey := h.byKey i key lock hwanted
  have hmine : 1 ≤ (locks.references.filter (·.2 = lock)).length :=
    List.length_pos_of_mem (List.mem_filter.2 ⟨(h.references i lock).2 ⟨key, hwanted⟩, by simp⟩)
  have hlate : 1 ≤ (locks.released.filter (·.2 = lock)).length :=
    List.length_pos_of_mem (List.mem_filter.2 ⟨hreference, by simp [hlock]⟩)
  have hentry : 1 ≤ (locks.byKey.toList.filter (·.2 = lock)).length :=
    List.length_pos_of_mem (List.mem_filter.2
      ⟨Std.ExtTreeMap.mem_toList_iff_getElem?_eq_some.2 hkey, by simp⟩)
  have hcount : ¬locks.strongCount lock ≤ 2 := by
    unfold KeyLocks.strongCount
    omega
  have hstays : (locks.release i key lock).byKey[key]? = some lock := by
    unfold KeyLocks.release
    dsimp only
    rwa [if_neg hcount]
  obtain ⟨j, hj⟩ := htidy key lock hstays
  rw [Function.update_apply] at hj
  split at hj
  · exact absurd hj (by simp [Stage.wanted])
  · rename_i hji
    exact hother (wantedByOther_of_wanted h hji hj)

/-- And so does a call that is dropped and was the last. -/
theorem Locked.clean_of_forget (h : Locked stages locks)
    (htidy : Tidy (Function.update stages i .gone) (locks.forget i)) :
    ∀ reference ∈ locks.references,
      reference.1 ≠ i ∨ locks.wantedByOther i reference.2 = true := by
  rintro ⟨j, lock⟩ hreference
  by_cases hji : j = i
  · subst hji
    obtain ⟨key, hwanted⟩ := (h.references j lock).1 hreference
    obtain ⟨j', hj'⟩ := htidy key lock (h.byKey j key lock hwanted)
    rw [Function.update_apply] at hj'
    split at hj'
    · exact absurd hj' (by simp [Stage.wanted])
    · rename_i hne
      exact Or.inr (wantedByOther_of_wanted h hne hj')
  · exact Or.inl hji

/-! ## What a run leaves -/

section

variable {env : Env} {steady : Prop} {s₀ : Gate} {h : List GateMoment}
  {c : Config Call Call.Answer Authorization Gate}

theorem Tidy.exec {s s' : Gate} (htidy : Tidy stages s.locks) (hlocked : Locked stages s.locks)
    {e : Call} {r : e.Answer} (hpermits : (stages i).Permits env key e) (hexec : Exec i s e r s')
    (hclean : clean ⟨.answer i ⟨e, r⟩, s, s'⟩ = true) :
    Tidy (Function.update stages i ((stages i).next ⟨e, r⟩)) s'.locks := by
  by_cases he : e.onLocks = false
  · rw [Stage.next_same he, Function.update_eq_self, locks_same hexec he]
    exact htidy
  cases hexec with
  | acquireKey key' =>
    have hplace := hpermits.acquireKey
    rw [hplace]
    exact htidy.acquire hplace key'
  | lock hfree =>
    have hplace := hpermits.lock
    refine htidy.update rfl ?_
    rw [hplace]
    rfl
  | unlock lock =>
    have hplace := hpermits.unlock
    refine htidy.update rfl ?_
    rw [hplace]
    rfl
  | releaseKey key' lock =>
    have hplace := hpermits.releaseKey
    rw [hplace]
    refine htidy.release hlocked hplace ?_
    simpa [clean] using hclean
  | dropLock lock =>
    have hplace := hpermits.dropLock
    refine htidy.update rfl ?_
    rw [hplace]
    rfl
  | _ => exact absurd rfl he

theorem Tidy.step {c' : Config Call Call.Answer Authorization Gate} {m : GateMoment}
    (htidy : Tidy (place h c) c.shared.locks) (hlocked : Locked (place h c) c.shared.locks)
    (hrun : (gate env steady).Run s₀ h c) (hstep : (gate env steady).Step c m c')
    (hclean : clean m = true) : Tidy (place (h ++ [m]) c') c'.shared.locks := by
  cases hstep with
  | start hst =>
    rw [place_start hrun]
    refine htidy.update rfl ?_
    rw [place_of_none (hrun.tracked.fresh le_rfl).1]
    rfl
  | answer hlive hexec =>
    obtain ⟨claims, now, -, hpermits⟩ :=
      permits_of_waiting hrun (Config.waiting_eq_some.2 ⟨_, hlive⟩)
    rw [place_answer hlive]
    exact htidy.exec hlocked hpermits hexec hclean
  | env hen =>
    obtain ⟨clock, -, rfl⟩ := hen
    rw [place_env]
    exact htidy
  | @drop i p s' hlive hdrop =>
    obtain rfl : s' = { c.shared with locks := c.shared.locks.forget i } := hdrop
    rw [place_drop]
    refine htidy.forget hlocked ?_
    simpa [clean] using hclean

/-- **Only clean steps keep the table tidy**: any other leaves a lock that no call will
release. -/
theorem clean_of_tidy {c' : Config Call Call.Answer Authorization Gate} {m : GateMoment}
    (hlocked : Locked (place h c) c.shared.locks)
    (hrun : (gate env steady).Run s₀ h c) (hstep : (gate env steady).Step c m c')
    (htidy : Tidy (place (h ++ [m]) c') c'.shared.locks) : clean m = true := by
  cases hstep with
  | start _ => rfl
  | @answer i e k r s' hlive hexec =>
    obtain ⟨claims, now, -, hpermits⟩ :=
      permits_of_waiting hrun (Config.waiting_eq_some.2 ⟨k, hlive⟩)
    rw [place_answer hlive] at htidy
    cases hexec with
    | releaseKey key' lock =>
      have hplace := hpermits.releaseKey
      rw [hplace] at htidy
      simpa [clean] using hlocked.clean_of_release hplace htidy
    | _ => rfl
  | env _ => rfl
  | @drop i p s' hlive hdrop =>
    obtain rfl : s' = { c.shared with locks := c.shared.locks.forget i } := hdrop
    rw [place_drop] at htidy
    simpa [clean] using hlocked.clean_of_forget htidy

theorem tidy_of_run (hrun : (gate env steady).Run s₀ h c) (hempty : s₀.locks = .empty)
    (hclean : ∀ m ∈ h, clean m = true) : Tidy (place h c) c.shared.locks := by
  induction hrun with
  | init =>
    intro key lock hkey
    rw [show (⟨s₀, fun _ => none, 0⟩ : Config Call Call.Answer Authorization Gate).shared.locks =
      .empty from hempty] at hkey
    exact absurd hkey (by simp [KeyLocks.empty])
  | step hrun hstep ih =>
    refine Tidy.step (ih ?_) (locked_of_run hrun hempty) hrun hstep (hclean _ (by simp))
    intro m hm
    exact hclean m (List.mem_append_left _ hm)

/-- Call `i` is in progress, for a token of this key. -/
def Active (env : Env) (h : List GateMoment) (c : Config Call Call.Answer Authorization Gate)
    (key : String) (i : ℕ) : Prop :=
  (c.waiting i).isSome ∧
    ∃ claims now, Started h i (authorize env claims now) ∧ revocationCacheKey env claims = key

/-- The calls in progress. -/
def inProgress (c : Config Call Call.Answer Authorization Gate) : Finset ℕ :=
  (Finset.range c.next).filter fun i => (c.waiting i).isSome

theorem mem_inProgress (hrun : (gate env steady).Run s₀ h c) :
    i ∈ inProgress c ↔ (c.waiting i).isSome := by
  rw [inProgress, Finset.mem_filter, and_iff_right_iff_imp, Finset.mem_range]
  intro hwaits
  obtain ⟨e, he⟩ := Option.isSome_iff_exists.1 hwaits
  obtain ⟨k, hlive⟩ := Config.waiting_eq_some.1 he
  exact hrun.lt_next hlive

/-- Who has an unreleased reference is a call in progress, for the key it has it for. -/
theorem active_of_wanted (hrun : (gate env steady).Run s₀ h c)
    (hwanted : (place h c i).wanted = some (key, lock)) : Active env h c key i := by
  cases hlive : c.procs i with
  | none =>
    rw [place_of_none hlive] at hwanted
    exact absurd hwanted (by simp [Stage.wanted])
  | some p =>
    cases p with
    | done result =>
      obtain ⟨p, hst⟩ := hrun.tracked.started hlive
      obtain ⟨claims, now, rfl⟩ := eq_authorize_of_started hrun hst
      have hfinished : Finished (own i h) result :=
        hrun.own_result (K := staged env claims now) hst wp_authorize_staged
          (fun _ _ _ _ _ _ => trivial) hlive
      rw [place_of_live hlive] at hwanted
      rcases hfinished with hstage | hstage
      · rw [hstage] at hwanted
        exact absurd hwanted (by simp [Stage.wanted])
      · rw [hstage] at hwanted
        exact absurd hwanted (by simp [Stage.wanted])
    | call e k =>
      have hwaits : c.waiting i = some e := Config.waiting_eq_some.2 ⟨k, hlive⟩
      obtain ⟨claims, now, hst, hpermits⟩ := permits_of_waiting hrun hwaits
      refine ⟨?_, claims, now, hst, (hpermits.key_eq hwanted).symm⟩
      rw [hwaits]
      rfl

theorem size_le_card (hrun : (gate env steady).Run s₀ h c)
    (htidy : Tidy (place h c) c.shared.locks) :
    c.shared.locks.byKey.size ≤ (inProgress c).card := by
  have hsubset : c.shared.locks.byKey.keys.toFinset ⊆
      (inProgress c).image fun i => ((place h c i).wanted.map Prod.fst).getD "" := by
    intro key hkey
    have hmem := Std.ExtTreeMap.mem_keys.1 (List.mem_toFinset.1 hkey)
    obtain ⟨lock, hlock⟩ :=
      Option.isSome_iff_exists.1 (Std.ExtTreeMap.mem_iff_isSome_getElem?.1 hmem)
    obtain ⟨i, hwanted⟩ := htidy key lock hlock
    refine Finset.mem_image.2 ⟨i, (mem_inProgress hrun).2 (active_of_wanted hrun hwanted).1, ?_⟩
    rw [hwanted]
    rfl
  calc c.shared.locks.byKey.size
      = c.shared.locks.byKey.keys.toFinset.card := by
        rw [List.toFinset_card_of_nodup Std.ExtTreeMap.nodup_keys, Std.ExtTreeMap.length_keys]
    _ ≤ _ := Finset.card_le_card hsubset
    _ ≤ _ := Finset.card_image_le

end

/-- **The locks are cleaned up** at every moment of a run whose steps are all clean: a key
that no call in progress is for has no lock, and there are no more locks than calls in
progress. -/
theorem cleaned_up_of_clean (env : Env) {steady : Prop}
    {freshnessBudgetSecs capacity clock : ℕ} {h : List GateMoment}
    {c : Config Call Call.Answer Authorization Gate}
    (hrun : (gate env steady).Run (.new freshnessBudgetSecs capacity clock) h c)
    (hclean : ∀ m ∈ h, clean m = true) :
    (∀ key, (∀ i, ¬Active env h c key i) → c.shared.locks.byKey[key]? = none) ∧
      c.shared.locks.byKey.size ≤ (inProgress c).card := by
  have htidy := tidy_of_run hrun rfl hclean
  refine ⟨?_, size_le_card hrun htidy⟩
  intro key hidle
  refine Option.eq_none_iff_forall_ne_some.2 ?_
  intro lock hlock
  obtain ⟨i, hwanted⟩ := htidy key lock hlock
  exact hidle i (active_of_wanted hrun hwanted)

/-- Two calls for one token, played, that share its lock: nothing is left of it. -/
theorem cleaned_up_of_clean_two : ∃ h c, (gate Reference.env True).Run Sample.start h c ∧
    c.next = 2 ∧ c.shared.locks.byKey.size ≤ (inProgress c).card ∧ inProgress c = ∅ := by
  obtain ⟨h₁, c₁, h₂, c₂, hplay₁, hplay₂, hfound⟩ := Sample.driver.exists_play
    (.initial Sample.start) (.start Sample.claims :: List.replicate 6 (Sample.answer 0))
    (.start Sample.claims :: List.replicate 2 (Sample.answer 1) ++ Sample.rest)
    (fun h₁ _ h₂ c₂ => (∀ m ∈ h₁ ++ h₂, clean m = true) ∧ c₂.next = 2 ∧ inProgress c₂ = ∅)
    (by decide +kernel)
  obtain ⟨hclean, hnext, hidle⟩ := of_decide_eq_true hfound
  have hrun := Sample.driver.run_of_play (Sample.driver.run_of_play .init hplay₁) hplay₂
  exact ⟨_, c₂, hrun, hnext, (cleaned_up_of_clean Reference.env hrun hclean).2, hidle⟩

/-- **A call that is dropped leaves its lock behind**: it asks the authority when it is given
up, and nobody is left to release the key. -/
theorem not_cleaned_up : ¬∀ (env : Env) (steady : Prop) (freshnessBudgetSecs capacity clock : ℕ)
    (h : List GateMoment) (c : Config Call Call.Answer Authorization Gate),
    (gate env steady).Run (.new freshnessBudgetSecs capacity clock) h c →
      (∀ key, (∀ i, ¬Active env h c key i) → c.shared.locks.byKey[key]? = none) ∧
        c.shared.locks.byKey.size ≤ (inProgress c).card := by
  intro hall
  obtain ⟨h, c, _, _, hplay, -, hfound⟩ := Sample.driver.exists_play (.initial Sample.start)
    (.start Sample.claims :: List.replicate 5 (Sample.answer 0)) [] (fun _ c _ _ =>
      c.waiting 0 = some (.checkRevocation Sample.claims 10) ∧ c.next = 1 ∧
        c.shared.locks.byKey.size = 1)
    (by decide +kernel)
  obtain ⟨hwaits, hnext, hsize⟩ := of_decide_eq_true hfound
  obtain ⟨k, hlive⟩ := Config.waiting_eq_some.1 hwaits
  have hrun := (Sample.driver.run_of_play .init hplay).step (.drop hlive rfl)
  obtain ⟨-, hbound⟩ := hall Reference.env True 5 1 10 _ _ hrun
  -- nobody is there any more, and the entry is
  have hnobody : inProgress ⟨{ c.shared with locks := c.shared.locks.forget 0 },
      Function.update c.procs 0 none, c.next⟩ = (∅ : Finset ℕ) := by
    refine Finset.eq_empty_of_forall_notMem ?_
    intro i hi
    obtain ⟨e, he⟩ := Option.isSome_iff_exists.1 ((mem_inProgress hrun).1 hi)
    obtain ⟨k', hlive'⟩ := Config.waiting_eq_some.1 he
    have hlt : i < c.next := hrun.lt_next hlive'
    obtain rfl : i = 0 := by omega
    have hdropped : (none : Option (Task Authorization)) = some (.call e k') := hlive'
    exact absurd hdropped (by simp)
  rw [hnobody, Finset.card_empty] at hbound
  have hleft : c.shared.locks.byKey.size ≤ 0 := hbound
  omega

end Revocation

end LoadBalance
