import FiduciaLoadBalance.Concurrency.Cost
import FiduciaLoadBalance.Concurrency.Schedule

/-!
# Finishing what was started

Processes that wait for each other may wait for ever.  They do not if two things hold: no
process makes more than some number of calls, and wherever some process waits there is one
whose call can be answered.  Then answering calls, in whatever order, comes to an end, and
where it ends every process is over.

* `Config.Settled` — no process waits;
* `Machine.Live` — where one waits, some call can be answered;
* `Run.length_own_sum` — every answer of a run is one to a process that was started;
* `Path.length_le` — so there are no more than the processes may make calls;
* `Run.settles` — and a live machine can be brought to where nothing waits, by answers alone.
-/

namespace Conc

variable {E : Type} {R : E → Type} {α σ : Type}

/-- No process waits for an answer. -/
def Config.Settled (c : Config E R α σ) : Prop := ∀ i, c.waiting i = none

/-- Where no process waits, each that is still there is over. -/
theorem Config.Settled.result {c : Config E R α σ} (hsettled : c.Settled) {i : ℕ}
    (hlive : c.procs i ≠ none) : ∃ a, c.result i = some a := by
  obtain ⟨p, hp⟩ := Option.ne_none_iff_exists'.1 hlive
  cases p with
  | done a => exact ⟨a, Config.result_eq_some.2 hp⟩
  | call e k =>
    have hwaits := Config.waiting_eq_some.2 ⟨k, hp⟩
    rw [hsettled i] at hwaits
    exact absurd hwaits (by simp)

/-- Is this an answer to a call? -/
def Label.isAnswer : Label E R α → Bool
  | .answer _ _ => true
  | _ => false

theorem cost_one (tr : List (Event E R)) : cost (fun _ => 1) tr = tr.length := by
  induction tr with
  | nil => rfl
  | cons ev tr ih => rw [cost_cons, ih, List.length_cons, Nat.add_comm]

/-- A call more. -/
theorem Proc.within_call {e : E} {k : R e → Proc E R α} {b : ℕ}
    (hk : ∀ r, (k r).Within (fun _ => 1) b) : (Proc.call e k).Within (fun _ => 1) (b + 1) :=
  ⟨b, (Nat.add_comm 1 b).le, hk⟩

namespace Machine

/-- A step leaves alone the processes that it is not about. -/
theorem Step.procs_eq {M : Machine E R α σ} {c c' : Config E R α σ} {m : Moment E R α σ} {i : ℕ}
    (h : M.Step c m c') (hold : i < c.next) (hown : m.label.own i = none)
    (hdrop : m.label ≠ .drop i) : c'.procs i = c.procs i := by
  cases h with
  | start _ => exact Function.update_of_ne hold.ne _ _
  | @answer j e k r s' _ _ =>
    have hne : i ≠ j := by
      rintro rfl
      exact absurd hown (by simp [Label.own])
    exact Function.update_of_ne hne _ _
  | env _ => rfl
  | @drop j p s' _ _ =>
    have hne : i ≠ j := by
      rintro rfl
      exact hdrop rfl
    exact Function.update_of_ne hne _ _

theorem Step.next_le {M : Machine E R α σ} {c c' : Config E R α σ} {m : Moment E R α σ}
    (h : M.Step c m c') : c.next ≤ c'.next := by
  cases h with
  | start _ => exact Nat.le_succ _
  | _ => exact le_rfl

/-- Only answers are given. -/
def OnlyAnswers (h : List (Moment E R α σ)) : Prop := ∀ m ∈ h, m.label.isAnswer = true

/-- In whatever configuration the machine comes to, if a process waits then some call can be
answered. -/
def Live (M : Machine E R α σ) (s₀ : σ) : Prop :=
  ∀ h c, M.Run s₀ h c → ¬c.Settled →
    ∃ i e k r s', c.procs i = some (.call e k) ∧ M.exec i c.shared e r s'

/-- No process makes more than `b` calls. -/
def Bounded (M : Machine E R α σ) (b : ℕ) : Prop :=
  ∀ s p, M.start s p → p.Within (fun _ => 1) b

variable {M : Machine E R α σ} {s₀ : σ} {h h' : List (Moment E R α σ)} {c c' : Config E R α σ}
  {m : Moment E R α σ} {b : ℕ}

/-- **Every answer is one to a process that was started.** -/
theorem Run.length_own_sum (hrun : M.Run s₀ h c) :
    (h.filter (·.label.isAnswer)).length = ∑ i ∈ Finset.range c.next, (own i h).length := by
  induction hrun with
  | init => simp
  | @step h c c' m hrun hstep ih =>
    rw [List.filter_append, List.length_append, ih]
    cases hstep with
    | start hst =>
      rw [Finset.sum_range_succ, own_concat_of_none rfl, (hrun.tracked.fresh le_rfl).2]
      simp [own, Label.own, Label.isAnswer]
    | @answer i e k r s' hlive hexec =>
      have hlt : i ∈ Finset.range c.next := Finset.mem_range.2 (hrun.lt_next hlive)
      rw [← Finset.add_sum_erase _ _ hlt, ← Finset.add_sum_erase _ _ hlt, own_append,
        own_answer_self, own_nil, List.length_append, List.length_singleton]
      have hothers : ∑ j ∈ (Finset.range c.next).erase i,
          (own j (h ++ [⟨.answer i ⟨e, r⟩, c.shared, s'⟩])).length =
          ∑ j ∈ (Finset.range c.next).erase i, (own j h).length := by
        refine Finset.sum_congr rfl ?_
        intro j hj
        rw [own_concat_of_none (by simp [Label.own, (Finset.ne_of_mem_erase hj).symm])]
      rw [hothers]
      simp only [Label.isAnswer, List.filter_cons_of_pos, List.filter_nil, List.length_singleton]
      omega
    | env henv => simp [own, Label.own, Label.isAnswer]
    | drop hlive hdrop => simp [own, Label.own, Label.isAnswer]

/-- **No more calls are answered than may be made.** -/
theorem Run.answers_le (hbounded : M.Bounded b) (hrun : M.Run s₀ h c) :
    (h.filter (·.label.isAnswer)).length ≤ b * c.next := by
  rw [hrun.length_own_sum, Nat.mul_comm]
  refine (Finset.sum_le_card_nsmul _ _ b ?_).trans ?_
  · intro i _
    by_cases hev : own i h = []
    · rw [hev]
      exact Nat.zero_le b
    · obtain ⟨ev, hev⟩ := List.exists_mem_of_ne_nil _ hev
      obtain ⟨p, hst⟩ := hrun.started_of_answer hev
      obtain ⟨s, hstart⟩ := hrun.start_of_started hst
      obtain ⟨q, hsteps, -⟩ := hrun.own_steps hst
      have hcost := Proc.cost_le_of_steps (hbounded s p hstart) hsteps
      rwa [cost_one] at hcost
  · rw [Finset.card_range, smul_eq_mul]

/-! ## Going on from where a run is -/

/-- What can happen from here on. -/
inductive Path (M : Machine E R α σ) (c : Config E R α σ) :
    List (Moment E R α σ) → Config E R α σ → Prop
  | nil : Path M c [] c
  | step {h : List (Moment E R α σ)} {c' c'' : Config E R α σ} {m : Moment E R α σ} :
      Path M c h c' → M.Step c' m c'' → Path M c (h ++ [m]) c''

theorem Run.path (hrun : M.Run s₀ h c) (hpath : M.Path c h' c') : M.Run s₀ (h ++ h') c' := by
  induction hpath with
  | nil => rwa [List.append_nil]
  | step _ hstep ih =>
    rw [← List.append_assoc]
    exact ih.step hstep

/-- Answers start no process. -/
theorem Path.next_eq (hpath : M.Path c h' c') (hanswers : OnlyAnswers h') : c'.next = c.next := by
  induction hpath with
  | nil => rfl
  | @step h c₁ c₂ m _ hstep ih =>
    have hanswer := hanswers m (by simp)
    have hnext := ih fun m' hm' => hanswers m' (List.mem_append_left _ hm')
    cases hstep with
    | answer _ _ => exact hnext
    | _ => exact absurd hanswer (by simp [Label.isAnswer])

/-- Nor do they throw one away. -/
theorem Path.live (hpath : M.Path c h' c') (hanswers : OnlyAnswers h') {i : ℕ}
    (hlive : c.procs i ≠ none) : c'.procs i ≠ none := by
  induction hpath with
  | nil => exact hlive
  | @step h c₁ c₂ m _ hstep ih =>
    have hanswer := hanswers m (by simp)
    have hbefore := ih fun m' hm' => hanswers m' (List.mem_append_left _ hm')
    cases hstep with
    | @answer j e k r s' hproc hexec =>
      show Function.update c₁.procs j (some (k r)) i ≠ none
      by_cases hij : i = j
      · rw [hij, Function.update_self]
        simp
      · rwa [Function.update_of_ne hij]
    | _ => exact absurd hanswer (by simp [Label.isAnswer])

/-- **Answering comes to an end**, in whatever order it is done. -/
theorem Path.length_le (hbounded : M.Bounded b) (hrun : M.Run s₀ h c) (hpath : M.Path c h' c')
    (hanswers : OnlyAnswers h') : h'.length ≤ b * c.next := by
  have hle := (hrun.path hpath).answers_le hbounded
  rw [hpath.next_eq hanswers, List.filter_append, List.length_append,
    List.filter_eq_self.2 hanswers] at hle
  omega

/-- Where no call can be answered any more, nothing waits. -/
theorem Live.settled (hlive : M.Live s₀) (hrun : M.Run s₀ h c)
    (hstuck : ∀ m c', M.Step c m c' → m.label.isAnswer = false) : c.Settled := by
  by_contra hwaits
  obtain ⟨i, e, k, r, s', hproc, hexec⟩ := hlive h c hrun hwaits
  exact absurd (hstuck _ _ (.answer hproc hexec)) (by simp [Label.isAnswer])

/-- **A live machine can be brought to where nothing waits**, by answers alone. -/
theorem Run.settles (hbounded : M.Bounded b) (hlive : M.Live s₀) (hrun : M.Run s₀ h c) :
    ∃ h' c', M.Path c h' c' ∧ OnlyAnswers h' ∧ c'.Settled := by
  -- as long as something waits there is a longer continuation, and none is too long
  by_contra hnever
  have hlonger : ∀ n, ∃ h' c', M.Path c h' c' ∧ OnlyAnswers h' ∧ h'.length = n := by
    intro n
    induction n with
    | zero => exact ⟨[], c, .nil, by simp [OnlyAnswers], rfl⟩
    | succ n ih =>
      obtain ⟨h', c', hpath, hanswers, hlength⟩ := ih
      have hwaits : ¬c'.Settled := fun hsettled => hnever ⟨h', c', hpath, hanswers, hsettled⟩
      obtain ⟨i, e, k, r, s', hproc, hexec⟩ := hlive _ _ (hrun.path hpath) hwaits
      refine ⟨_, _, hpath.step (.answer hproc hexec), ?_, by simp [hlength]⟩
      intro m hm
      rcases List.mem_append.1 hm with hm | hm
      · exact hanswers m hm
      · rw [List.mem_singleton.1 hm]
        rfl
  obtain ⟨h', c', hpath, hanswers, hlength⟩ := hlonger (b * c.next + 1)
  have hle := hpath.length_le hbounded hrun hanswers
  omega

end Machine

end Conc
