import FiduciaLoadBalance.Concurrency.Proc

/-!
# Many processes over one shared state

A `Machine` says how processes share a state: which processes may start
(`start`), how one call is executed (`exec`, atomically), what else may happen
to the state (`env`), and what happens when a process is thrown away half way
(`drop`).  `Machine.Run` is every interleaving of these, in any number of
processes, together with the history of what happened.

* `Run.invariant` — a property of the shared state that every kind of step
  keeps holds at every moment of every run.
* `Run.allowed` — what the machine says about each moment of a history.
* `Run.own_steps` — **projection**: whatever the others do, the calls and
  answers of one process, picked out of the history, are a run of that process.
* `Run.own_guarantee`, `Run.own_result` — so a `Contract` proved of a process on
  its own holds of it inside every interleaving.
-/

namespace Conc

variable {E : Type} {R : E → Type} {α σ : Type}

/-- How processes share a state of type `σ`. -/
structure Machine (E : Type) (R : E → Type) (α σ : Type) where
  /-- The processes that may be started in a state. -/
  start : σ → Proc E R α → Prop
  /-- `exec i s e r s'`: in state `s`, process `i`'s call `e` may be executed with
  answer `r`, leaving the state `s'`. -/
  exec : ℕ → σ → (e : E) → R e → σ → Prop
  /-- Everything that happens to the state other than by a process's call. -/
  env : σ → σ → Prop
  /-- `drop i p s s'`: in state `s`, process `i` may be thrown away where it stands, at
  `p`, leaving the state `s'`. -/
  drop : ℕ → Proc E R α → σ → σ → Prop

/-- What happened at one moment of a run. -/
inductive Label (E : Type) (R : E → Type) (α : Type) : Type
  | start (i : ℕ) (p : Proc E R α)
  | answer (i : ℕ) (ev : Event E R)
  | env
  | drop (i : ℕ)

/-- The event of a label, if it is an answer to process `i`. -/
def Label.own (i : ℕ) : Label E R α → Option (Event E R)
  | .answer j ev => if j = i then some ev else none
  | _ => none

theorem Label.eq_answer_of_own {i : ℕ} {label : Label E R α} {ev : Event E R}
    (h : label.own i = some ev) : label = .answer i ev := by
  cases label with
  | answer j ev' =>
    rw [Label.own] at h
    split at h
    · rename_i hji
      rw [hji, Option.some.inj h]
    · exact absurd h (by simp)
  | _ => exact absurd h (by simp [Label.own])

/-- One moment of a run: what happened, and the shared state before and after. -/
structure Moment (E : Type) (R : E → Type) (α σ : Type) where
  label : Label E R α
  before : σ
  after : σ

/-- A configuration: the shared state, the processes by identifier (`none` before
the start and after a drop), and the next unused identifier. -/
structure Config (E : Type) (R : E → Type) (α σ : Type) where
  shared : σ
  procs : ℕ → Option (Proc E R α)
  next : ℕ

namespace Machine

variable {M : Machine E R α σ} {s₀ : σ}

/-- One step of the machine: a process starts, a call is answered, the environment
moves, or a process is dropped. -/
inductive Step (M : Machine E R α σ) :
    Config E R α σ → Moment E R α σ → Config E R α σ → Prop
  | start {c : Config E R α σ} {p : Proc E R α} : M.start c.shared p →
      Step M c ⟨.start c.next p, c.shared, c.shared⟩
        ⟨c.shared, Function.update c.procs c.next (some p), c.next + 1⟩
  | answer {c : Config E R α σ} {i : ℕ} {e : E} {k : R e → Proc E R α} {r : R e} {s' : σ} :
      c.procs i = some (.call e k) → M.exec i c.shared e r s' →
      Step M c ⟨.answer i ⟨e, r⟩, c.shared, s'⟩
        ⟨s', Function.update c.procs i (some (k r)), c.next⟩
  | env {c : Config E R α σ} {s' : σ} : M.env c.shared s' →
      Step M c ⟨.env, c.shared, s'⟩ ⟨s', c.procs, c.next⟩
  | drop {c : Config E R α σ} {i : ℕ} {p : Proc E R α} {s' : σ} :
      c.procs i = some p → M.drop i p c.shared s' →
      Step M c ⟨.drop i, c.shared, s'⟩ ⟨s', Function.update c.procs i none, c.next⟩

/-- Every finite run of the machine from the shared state `s₀`, with its history. -/
inductive Run (M : Machine E R α σ) (s₀ : σ) :
    List (Moment E R α σ) → Config E R α σ → Prop
  | init : Run M s₀ [] ⟨s₀, fun _ => none, 0⟩
  | step {h : List (Moment E R α σ)} {c c' : Config E R α σ} {m : Moment E R α σ} :
      Run M s₀ h c → M.Step c m c' → Run M s₀ (h ++ [m]) c'

/-- A run can be cut at any moment: the history before it is that of a run. -/
theorem Run.of_append {h h' : List (Moment E R α σ)} {c : Config E R α σ}
    (hrun : M.Run s₀ (h ++ h') c) : ∃ c', M.Run s₀ h c' := by
  generalize hl : h ++ h' = l at hrun
  induction hrun generalizing h' with
  | init =>
    obtain ⟨rfl, -⟩ := List.append_eq_nil_iff.1 hl
    exact ⟨_, .init⟩
  | step hrun hstep ih =>
    rcases List.eq_nil_or_concat h' with rfl | ⟨h'', m, rfl⟩
    · rw [List.append_nil] at hl
      rw [hl]
      exact ⟨_, Run.step hrun hstep⟩
    · rw [List.concat_eq_append, ← List.append_assoc] at hl
      exact ih (List.append_inj_left' hl rfl)

/-- The last moment of a run is a step. -/
theorem Run.of_concat {h : List (Moment E R α σ)} {m : Moment E R α σ} {c : Config E R α σ}
    (hrun : M.Run s₀ (h ++ [m]) c) : ∃ c', M.Run s₀ h c' ∧ M.Step c' m c := by
  generalize hl : h ++ [m] = l at hrun
  cases hrun with
  | init => exact absurd hl (by simp)
  | step hrun hstep =>
    obtain ⟨rfl, hm⟩ := List.append_inj' hl rfl
    obtain rfl := List.singleton_inj.1 hm
    exact ⟨_, hrun, hstep⟩

/-- Each moment of a run is a step from where the run before it leads. -/
theorem Run.cut {h h' : List (Moment E R α σ)} {m : Moment E R α σ} {c : Config E R α σ}
    (hrun : M.Run s₀ (h ++ m :: h') c) : ∃ c₁ c₂, M.Run s₀ h c₁ ∧ M.Step c₁ m c₂ := by
  rw [← List.singleton_append, ← List.append_assoc] at hrun
  obtain ⟨c₂, hrun₂⟩ := hrun.of_append
  obtain ⟨c₁, hrun₁, hstep⟩ := hrun₂.of_concat
  exact ⟨c₁, c₂, hrun₁, hstep⟩

theorem Step.before {c c' : Config E R α σ} {m : Moment E R α σ} (h : M.Step c m c') :
    m.before = c.shared := by
  cases h <;> rfl

theorem Step.after {c c' : Config E R α σ} {m : Moment E R α σ} (h : M.Step c m c') :
    m.after = c'.shared := by
  cases h <;> rfl

/-- Process `i` was dropped. -/
def Gone (c : Config E R α σ) (i : ℕ) : Prop := c.procs i = none ∧ i < c.next

/-- And stays so. -/
theorem Step.gone {c c' : Config E R α σ} {m : Moment E R α σ} (h : M.Step c m c') {i : ℕ}
    (hi : Gone c i) : Gone c' i := by
  obtain ⟨hnone, hlt⟩ := hi
  cases h with
  | start _ => exact ⟨(Function.update_of_ne hlt.ne _ _).trans hnone, Nat.lt_succ_of_lt hlt⟩
  | @answer j e k r s' hlive _ =>
    have hne : i ≠ j := by
      rintro rfl
      rw [hnone] at hlive
      exact absurd hlive (by simp)
    exact ⟨(Function.update_of_ne hne _ _).trans hnone, hlt⟩
  | env _ => exact ⟨hnone, hlt⟩
  | @drop j p s' _ _ =>
    refine ⟨?_, hlt⟩
    show Function.update c.procs j none i = none
    by_cases hne : i = j
    · rw [hne, Function.update_self]
    · rw [Function.update_of_ne hne, hnone]

/-- The shared state after a history is the state its last moment left. -/
theorem Run.shared_eq {h : List (Moment E R α σ)} {c : Config E R α σ} (hrun : M.Run s₀ h c) :
    c.shared = (h.getLast?.map Moment.after).getD s₀ := by
  cases hrun with
  | init => rfl
  | step _ hstep => simp [hstep.after]

/-- What the machine says of one moment: a start was allowed, an answer was an
execution of the call, and so on. -/
def Allowed (M : Machine E R α σ) (m : Moment E R α σ) : Prop :=
  match m.label with
  | .start _ p => M.start m.before p ∧ m.after = m.before
  | .answer i ev => M.exec i m.before ev.1 ev.2 m.after
  | .env => M.env m.before m.after
  | .drop i => ∃ p, M.drop i p m.before m.after

theorem Step.allowed {c c' : Config E R α σ} {m : Moment E R α σ} (h : M.Step c m c') :
    M.Allowed m := by
  cases h with
  | start hst => exact ⟨hst, rfl⟩
  | answer _ hex => exact hex
  | env hen => exact hen
  | drop _ hdr => exact ⟨_, hdr⟩

/-- Every moment of a history is allowed by the machine. -/
theorem Run.allowed {h : List (Moment E R α σ)} {c : Config E R α σ} (hrun : M.Run s₀ h c) :
    ∀ m ∈ h, M.Allowed m := by
  induction hrun with
  | init => simp
  | step _ hstep ih =>
    intro m hm
    rcases List.mem_append.1 hm with hm | hm
    · exact ih m hm
    · rw [List.mem_singleton.1 hm]
      exact hstep.allowed

/-! ## Invariants of the shared state -/

/-- `I` is kept by every way the shared state can change. -/
structure Keeps (M : Machine E R α σ) (I : σ → Prop) : Prop where
  exec : ∀ {i s e r s'}, I s → M.exec i s e r s' → I s'
  env : ∀ {s s'}, I s → M.env s s' → I s'
  drop : ∀ {i p s s'}, I s → M.drop i p s s' → I s'

theorem Step.keeps {I : σ → Prop} (hM : M.Keeps I) {c c' : Config E R α σ}
    {m : Moment E R α σ} (h : M.Step c m c') (hI : I c.shared) : I c'.shared := by
  cases h with
  | start _ => exact hI
  | answer _ hex => exact hM.exec hI hex
  | env hen => exact hM.env hI hen
  | drop _ hdr => exact hM.drop hI hdr

/-- **The invariant rule.**  What holds initially and is kept by every step holds
at the end of every run and before and after each of its moments. -/
theorem Run.invariant {I : σ → Prop} (hM : M.Keeps I) (h₀ : I s₀)
    {h : List (Moment E R α σ)} {c : Config E R α σ} (hrun : M.Run s₀ h c) :
    I c.shared ∧ ∀ m ∈ h, I m.before ∧ I m.after := by
  induction hrun with
  | init => exact ⟨h₀, by simp⟩
  | step _ hstep ih =>
    have hI' := hstep.keeps hM ih.1
    refine ⟨hI', fun m hm => ?_⟩
    rcases List.mem_append.1 hm with hm | hm
    · exact ih.2 m hm
    · rw [List.mem_singleton.1 hm, hstep.before, hstep.after]
      exact ⟨ih.1, hI'⟩

/-- **From a moment on.**  What holds after the history `h` and is kept by each moment
of `h'` holds before each of them, and at the end. -/
theorem Run.since {P : σ → Prop} {h h' : List (Moment E R α σ)} {c : Config E R α σ}
    (hrun : M.Run s₀ (h ++ h') c) (h₀ : ∀ c', M.Run s₀ h c' → P c'.shared)
    (hkeep : ∀ m ∈ h', M.Allowed m → P m.before → P m.after) :
    (∀ m ∈ h', P m.before) ∧ P c.shared := by
  induction h' using List.reverseRecOn generalizing c with
  | nil => exact ⟨by simp, h₀ c (by simpa using hrun)⟩
  | append_singleton h' m ih =>
    rw [← List.append_assoc] at hrun
    obtain ⟨c', hrun', hstep⟩ := hrun.of_concat
    obtain ⟨hall, hP⟩ := ih hrun' fun m' hm' => hkeep m' (by simp [hm'])
    rw [← hstep.before] at hP
    refine ⟨fun m' hm' => ?_, ?_⟩
    · rcases List.mem_append.1 hm' with hm' | hm'
      · exact hall m' hm'
      · rw [List.mem_singleton.1 hm']
        exact hP
    · rw [← hstep.after]
      exact hkeep m (by simp) hstep.allowed hP

/-! ## Projection to one process -/

/-- Process `i` was started as `p` in the history `h`. -/
def Started (h : List (Moment E R α σ)) (i : ℕ) (p : Proc E R α) : Prop :=
  ∃ m ∈ h, m.label = .start i p

/-- The calls and answers of process `i` in the history `h`. -/
def own (i : ℕ) (h : List (Moment E R α σ)) : List (Event E R) :=
  h.filterMap fun m => m.label.own i

@[simp] theorem own_nil (i : ℕ) : own i ([] : List (Moment E R α σ)) = [] := rfl

@[simp] theorem own_append (i : ℕ) (h h' : List (Moment E R α σ)) :
    own i (h ++ h') = own i h ++ own i h' := by
  simp [own]

@[simp] theorem own_answer_self (i : ℕ) (ev : Event E R) (b a : σ)
    (h : List (Moment E R α σ)) : own i (⟨.answer i ev, b, a⟩ :: h) = ev :: own i h := by
  simp [own, Label.own]

theorem mem_own {h : List (Moment E R α σ)} {m : Moment E R α σ} {i : ℕ} {ev : Event E R}
    (hm : m ∈ h) (hlabel : m.label = .answer i ev) : ev ∈ own i h :=
  List.mem_filterMap.2 ⟨m, hm, by simp [hlabel, Label.own]⟩

theorem own_concat_of_none {i : ℕ} {h : List (Moment E R α σ)} {m : Moment E R α σ}
    (hm : m.label.own i = none) : own i (h ++ [m]) = own i h := by
  simp [own, hm]

theorem started_append {h h' : List (Moment E R α σ)} {i : ℕ} {p : Proc E R α} :
    Started (h ++ h') i p ↔ Started h i p ∨ Started h' i p := by
  simp only [Started, List.mem_append, or_and_right, exists_or]

theorem started_singleton {m : Moment E R α σ} {i : ℕ} {p : Proc E R α} :
    Started [m] i p ↔ m.label = .start i p := by
  simp [Started]

/-- A place in a process's own trace is a place in the history. -/
theorem own_split {i : ℕ} {h : List (Moment E R α σ)} {pre post : List (Event E R)}
    {ev : Event E R} (hown : own i h = pre ++ ev :: post) :
    ∃ hpre b a hpost, h = hpre ++ ⟨.answer i ev, b, a⟩ :: hpost ∧ own i hpre = pre := by
  obtain ⟨h₁, h₂, rfl, hpre, h₂eq⟩ := List.filterMap_eq_append_iff.1 hown
  obtain ⟨h₃, m, h₄, rfl, hnone, hm, -⟩ := List.filterMap_eq_cons_iff.1 h₂eq
  obtain ⟨label, b, a⟩ := m
  have hlabel : label = .answer i ev := Label.eq_answer_of_own hm
  refine ⟨h₁ ++ h₃, b, a, h₄, by rw [hlabel, List.append_assoc], ?_⟩
  rw [own_append, show own i h₃ = [] from List.filterMap_eq_nil_iff.2 hnone, List.append_nil]
  exact hpre

/-- A call that a process made is a moment of the history. -/
theorem exists_of_mem_own {i : ℕ} {h : List (Moment E R α σ)} {ev : Event E R}
    (hev : ev ∈ own i h) : ∃ pre b a post, h = pre ++ ⟨.answer i ev, b, a⟩ :: post := by
  obtain ⟨before, after, hown⟩ := List.append_of_mem hev
  obtain ⟨pre, b, a, post, hsplit, -⟩ := own_split hown
  exact ⟨pre, b, a, post, hsplit⟩

/-- What a run knows of its processes: identifiers are used once, and each process
has made exactly its own part of the history. -/
structure Tracked (h : List (Moment E R α σ)) (c : Config E R α σ) : Prop where
  lt_next : ∀ {i p}, Started h i p → i < c.next
  fresh : ∀ {i}, c.next ≤ i → c.procs i = none ∧ own i h = []
  steps : ∀ {i p}, Started h i p →
    ∃ q, Proc.Steps p (own i h) q ∧ ∀ q', c.procs i = some q' → q' = q
  started : ∀ {i q}, c.procs i = some q → ∃ p, Started h i p

/-- A step that leaves process `i` alone leaves its part of the history alone. -/
theorem Tracked.steps_of_same {h : List (Moment E R α σ)} {c c' : Config E R α σ}
    {m : Moment E R α σ} (ht : Tracked h c) {i : ℕ} {p : Proc E R α}
    (hm : m.label.own i = none) (hc : ∀ q, c'.procs i = some q → c.procs i = some q)
    (hst : Started h i p) :
    ∃ q, Proc.Steps p (own i (h ++ [m])) q ∧ ∀ q', c'.procs i = some q' → q' = q := by
  obtain ⟨q, hq, hlive⟩ := ht.steps hst
  refine ⟨q, ?_, fun q' hq' => hlive q' (hc q' hq')⟩
  rwa [own_concat_of_none hm]

theorem Tracked.step {h : List (Moment E R α σ)} {c c' : Config E R α σ}
    {m : Moment E R α σ} (ht : Tracked h c) (hstep : M.Step c m c') :
    Tracked (h ++ [m]) c' := by
  cases hstep with
  | @start p hst =>
    refine ⟨?_, ?_, ?_, ?_⟩
    · intro i p' hi
      rw [started_append, started_singleton] at hi
      rcases hi with hi | hi
      · exact Nat.lt_succ_of_lt (ht.lt_next hi)
      · cases hi
        exact Nat.lt_succ_self _
    · intro i hi
      have hle : c.next ≤ i := Nat.le_of_succ_le hi
      have hne : i ≠ c.next := (Nat.lt_of_succ_le hi).ne'
      exact ⟨(Function.update_of_ne hne _ _).trans (ht.fresh hle).1,
        (own_concat_of_none rfl).trans (ht.fresh hle).2⟩
    · intro i p' hi
      rw [started_append, started_singleton] at hi
      rcases hi with hi | hi
      · refine ht.steps_of_same rfl (fun q hq => ?_) hi
        exact (Function.update_of_ne (ht.lt_next hi).ne _ _).symm.trans hq
      · cases hi
        refine ⟨p, ?_, fun q' hq' => by simpa using hq'.symm⟩
        rw [own_concat_of_none rfl, (ht.fresh le_rfl).2]
        exact .refl p
    · intro i q hq
      by_cases hi : i = c.next
      · exact ⟨p, started_append.2 (Or.inr (started_singleton.2 (by rw [hi])))⟩
      · obtain ⟨p', hp'⟩ := ht.started ((Function.update_of_ne hi _ _).symm.trans hq)
        exact ⟨p', started_append.2 (Or.inl hp')⟩
  | @answer i e k r s' hp hex =>
    have hstarted {j : ℕ} {p : Proc E R α}
        (hj : Started (h ++ [⟨.answer i ⟨e, r⟩, c.shared, s'⟩]) j p) : Started h j p := by
      rw [started_append, started_singleton] at hj
      exact hj.resolve_right (by simp)
    have hlive : i < c.next := by
      obtain ⟨p, hp'⟩ := ht.started hp
      exact ht.lt_next hp'
    refine ⟨fun hj => ht.lt_next (hstarted hj), ?_, ?_, ?_⟩
    · intro j hj
      have hji : j ≠ i := by rintro rfl; exact absurd hlive (not_lt.2 hj)
      exact ⟨(Function.update_of_ne hji _ _).trans (ht.fresh hj).1,
        (own_concat_of_none (by simp [Label.own, hji.symm])).trans (ht.fresh hj).2⟩
    · intro j p hj
      by_cases hji : j = i
      · subst hji
        obtain ⟨q, hq, hlast⟩ := ht.steps (hstarted hj)
        rw [← hlast _ hp] at hq
        refine ⟨k r, ?_, fun q' hq' => by simpa using hq'.symm⟩
        rw [own_append, own_answer_self]
        exact hq.append (.call (.refl _))
      · refine ht.steps_of_same (by simp [Label.own, Ne.symm hji]) (fun q hq => ?_) (hstarted hj)
        exact (Function.update_of_ne hji _ _).symm.trans hq
    · intro j q hq
      have hsome : ∃ q', c.procs j = some q' := by
        by_cases hji : j = i
        · exact ⟨_, hji ▸ hp⟩
        · exact ⟨q, (Function.update_of_ne hji _ _).symm.trans hq⟩
      obtain ⟨q', hq'⟩ := hsome
      obtain ⟨p, hp'⟩ := ht.started hq'
      exact ⟨p, started_append.2 (Or.inl hp')⟩
  | @env s' hen =>
    have hstarted {j : ℕ} {p : Proc E R α}
        (hj : Started (h ++ [⟨.env, c.shared, s'⟩]) j p) : Started h j p := by
      rw [started_append, started_singleton] at hj
      exact hj.resolve_right (by simp)
    refine ⟨fun hj => ht.lt_next (hstarted hj),
      fun hj => ⟨(ht.fresh hj).1, (own_concat_of_none rfl).trans (ht.fresh hj).2⟩,
      fun hj => ht.steps_of_same rfl (fun q hq => hq) (hstarted hj), fun hq => ?_⟩
    · obtain ⟨p, hp⟩ := ht.started hq
      exact ⟨p, started_append.2 (Or.inl hp)⟩
  | @drop i p s' hp hdr =>
    have hstarted {j : ℕ} {p' : Proc E R α}
        (hj : Started (h ++ [⟨.drop i, c.shared, s'⟩]) j p') : Started h j p' := by
      rw [started_append, started_singleton] at hj
      exact hj.resolve_right (by simp)
    have hsame {j : ℕ} {q : Proc E R α}
        (hq : Function.update c.procs i none j = some q) : c.procs j = some q := by
      by_cases hji : j = i
      · simp [hji] at hq
      · rwa [Function.update_of_ne hji] at hq
    refine ⟨fun hj => ht.lt_next (hstarted hj), fun {j} hj => ?_,
      fun hj => ht.steps_of_same rfl (fun q hq => hsame hq) (hstarted hj), fun hq => ?_⟩
    · refine ⟨Option.eq_none_iff_forall_ne_some.2 fun q hq => ?_,
        (own_concat_of_none rfl).trans (ht.fresh hj).2⟩
      exact absurd ((ht.fresh hj).1.symm.trans (hsame hq)) (by simp)
    · obtain ⟨p', hp'⟩ := ht.started (hsame hq)
      exact ⟨p', started_append.2 (Or.inl hp')⟩

theorem Run.tracked {h : List (Moment E R α σ)} {c : Config E R α σ} (hrun : M.Run s₀ h c) :
    Tracked h c := by
  induction hrun with
  | init => exact ⟨by simp [Started], by simp, by simp [Started], by simp⟩
  | step _ hstep ih => exact ih.step hstep

/-- A process was started as the machine allows it. -/
theorem Run.start_of_started {h : List (Moment E R α σ)} {c : Config E R α σ}
    (hrun : M.Run s₀ h c) {i : ℕ} {p : Proc E R α} (hst : Started h i p) : ∃ s, M.start s p := by
  obtain ⟨m, hm, hlabel⟩ := hst
  have hallowed := hrun.allowed m hm
  rw [Allowed, hlabel] at hallowed
  exact ⟨m.before, hallowed.1⟩

theorem Run.lt_next {h : List (Moment E R α σ)} {c : Config E R α σ} (hrun : M.Run s₀ h c)
    {i : ℕ} {q : Proc E R α} (hlive : c.procs i = some q) : i < c.next := by
  obtain ⟨p, hst⟩ := hrun.tracked.started hlive
  exact hrun.tracked.lt_next hst

/-- **Projection.**  The calls and answers of a process, picked out of the history
of any run, are a run of that process from its start to where it is now. -/
theorem Run.own_steps {h : List (Moment E R α σ)} {c : Config E R α σ}
    (hrun : M.Run s₀ h c) {i : ℕ} {p : Proc E R α} (hst : Started h i p) :
    ∃ q, Proc.Steps p (own i h) q ∧ ∀ q', c.procs i = some q' → q' = q :=
  hrun.tracked.steps hst

/-- Only a started process makes calls. -/
theorem Run.started_of_answer {h : List (Moment E R α σ)} {c : Config E R α σ}
    (hrun : M.Run s₀ h c) {i : ℕ} {ev : Event E R} (hev : ev ∈ own i h) :
    ∃ p, Started h i p := by
  induction hrun with
  | init => simp at hev
  | @step h c c' m hrun hstep ih =>
    have hold : ∃ p, Started h i p := by
      cases hown : m.label.own i with
      | none => exact ih (by rwa [own_concat_of_none hown] at hev)
      | some ev' =>
        cases hstep with
        | @answer j e k r s' hp hex =>
          obtain rfl : j = i := by
            by_contra hji
            simp [Label.own, hji] at hown
          exact hrun.tracked.started hp
        | _ => exact absurd hown (by simp [Label.own])
    obtain ⟨p, hp⟩ := hold
    exact ⟨p, started_append.2 (Or.inl hp)⟩

/-- A process was started before each of its calls was answered. -/
theorem Run.started_before_answer {h h' : List (Moment E R α σ)} {c : Config E R α σ} {i : ℕ}
    {ev : Event E R} {b a : σ} (hrun : M.Run s₀ (h ++ ⟨.answer i ev, b, a⟩ :: h') c) :
    ∃ p, Started h i p := by
  obtain ⟨c₁, c₂, hrun₁, hstep⟩ := hrun.cut
  cases hstep with
  | answer hlive _ => exact hrun₁.tracked.started hlive

/-- A process has no history before its start. -/
theorem Run.own_before_start {h h' : List (Moment E R α σ)} {c : Config E R α σ}
    {i : ℕ} {p : Proc E R α} (hrun : M.Run s₀ (h ++ h') c) (hst : Started h' i p) :
    own i h = [] := by
  obtain ⟨m, hm, hlabel⟩ := hst
  obtain ⟨pre, post, rfl⟩ := List.append_of_mem hm
  rw [← List.append_assoc] at hrun
  obtain ⟨c₁, c₂, hrun₁, hstep⟩ := hrun.cut
  cases hstep with
  | start _ =>
    obtain ⟨rfl, -⟩ := Label.start.inj hlabel
    have hnone := (hrun₁.tracked.fresh le_rfl).2
    rw [own_append, List.append_eq_nil_iff] at hnone
    exact hnone.1
  | _ => exact absurd hlabel (by simp)

section Contracts

variable {h : List (Moment E R α σ)} {c : Config E R α σ} {i : ℕ} {p : Proc E R α}
  {K : Contract E R} {Q : List (Event E R) → α → Prop}

/-- The answers process `i` got in the history satisfy the contract's `rely`. -/
def OwnRelied (K : Contract E R) (i : ℕ) (h : List (Moment E R α σ)) : Prop :=
  ∀ pre ev b a post, h = pre ++ ⟨.answer i ev, b, a⟩ :: post →
    K.rely (own i pre) ev.1 ev.2

theorem OwnRelied.relied (hr : OwnRelied K i h) : K.Relied [] (own i h) := by
  refine Contract.along_iff.2 fun pre ev post hown => ?_
  obtain ⟨hpre, b, a, hpost, hsplit, hown'⟩ := own_split hown
  have := hr hpre ev b a hpost hsplit
  rwa [hown'] at this

/-- **Contracts hold inside every interleaving**: if process `i` satisfies its
contract on its own and the machine's answers satisfy `rely`, then each of its
calls in the history satisfied `guarantee`. -/
theorem Run.own_guarantee (hrun : M.Run s₀ h c) (hst : Started h i p) (hp : p.wp K Q [])
    (hr : OwnRelied K i h) {pre post : List (Moment E R α σ)} {ev : Event E R} {b a : σ}
    (hsplit : h = pre ++ ⟨.answer i ev, b, a⟩ :: post) : K.guarantee (own i pre) ev.1 := by
  obtain ⟨q, hq, -⟩ := hrun.own_steps hst
  have hown : own i h = own i pre ++ ev :: own i post := by
    rw [hsplit, own_append, own_answer_self]
  exact Proc.wp_guarantee hp hq hr.relied hown

/-- And so does the call it is waiting for. -/
theorem Run.own_next (hrun : M.Run s₀ h c) (hst : Started h i p) (hp : p.wp K Q [])
    (hr : OwnRelied K i h) {e : E} {k : R e → Proc E R α} (hlive : c.procs i = some (.call e k)) :
    K.guarantee (own i h) e := by
  obtain ⟨q, hq, hlast⟩ := hrun.own_steps hst
  rw [← hlast _ hlive] at hq
  exact (Proc.wp_sound hp hq hr.relied).2.1

/-- And its result, once it has one, satisfies the postcondition. -/
theorem Run.own_result (hrun : M.Run s₀ h c) (hst : Started h i p) (hp : p.wp K Q [])
    (hr : OwnRelied K i h) {r : α} (hdone : c.procs i = some (.done r)) : Q (own i h) r := by
  obtain ⟨q, hq, hlive⟩ := hrun.own_steps hst
  rw [← hlive _ hdone] at hq
  exact Proc.wp_result hp hq hr.relied

end Contracts

end Machine

end Conc
