import FiduciaLoadBalance.Concurrency.Schedule

/-!
# A machine at work

A `Pool` is a machine with everything it did so far: a run of it, as a value.  A system in
which several machines work side by side has one pool for each, and a step of the system
extends one pool or several.

* `Pool.extend` — one step more;
* `Pool.started_extend`, `Pool.mem_own_extend` — what that adds to the history;
* `Pool.result_extend` — what is over stays over, as long as it is not thrown away;
* `Pool.Later` — the same machine at a later time.
-/

namespace Conc

variable {E : Type} {R : E → Type} {α σ : Type}

/-- What is over is not thrown away: of a finished process there is nothing left to drop. -/
def Config.Spares (c : Config E R α σ) : Label E R α → Prop
  | .drop i => c.result i = none
  | _ => True

namespace Machine

/-- A machine, and what it did so far. -/
structure Pool (M : Machine E R α σ) (s₀ : σ) where
  history : List (Moment E R α σ)
  config : Config E R α σ
  run : M.Run s₀ history config

namespace Pool

variable {M : Machine E R α σ} {s₀ : σ} {pool : M.Pool s₀} {m : Moment E R α σ}
  {c : Config E R α σ} {i : ℕ} {p : Proc E R α} {a : α}

/-- The machine before its first step. -/
def new (M : Machine E R α σ) (s₀ : σ) : M.Pool s₀ := ⟨[], _, .init⟩

/-- One step more. -/
def extend (pool : M.Pool s₀) (hstep : M.Step pool.config m c) : M.Pool s₀ :=
  ⟨pool.history ++ [m], c, pool.run.step hstep⟩

/-- A process more. -/
def start (pool : M.Pool s₀) (hstart : M.start pool.config.shared p) : M.Pool s₀ :=
  pool.extend (.start hstart)

theorem started_extend (hstep : M.Step pool.config m c) :
    Started (pool.extend hstep).history i p ↔
      Started pool.history i p ∨ m.label = .start i p := by
  rw [← started_singleton]
  exact started_append

theorem started_start (hstart : M.start pool.config.shared p) :
    Started (pool.start hstart).history pool.config.next p :=
  (started_extend _).2 (Or.inr rfl)

/-- The next identifier is not in use. -/
theorem not_started_next (pool : M.Pool s₀) : ¬Started pool.history pool.config.next p :=
  fun h => absurd (pool.run.tracked.lt_next h) (lt_irrefl _)

/-- **What is over stays over**, with its result. -/
theorem result_extend (hstep : M.Step pool.config m c) (hspares : pool.config.Spares m.label)
    (hresult : pool.config.result i = some a) : (pool.extend hstep).config.result i = some a := by
  show c.result i = some a
  have hdone := Config.result_eq_some.1 hresult
  rw [Config.result_eq_some]
  cases hstep with
  | start _ => exact (Function.update_of_ne (pool.run.lt_next hdone).ne _ _).trans hdone
  | @answer j e k r s' hlive _ =>
    have hne : i ≠ j := by
      rintro rfl
      rw [hlive] at hdone
      exact absurd hdone (by simp)
    exact (Function.update_of_ne hne _ _).trans hdone
  | env _ => exact hdone
  | @drop j p s' _ _ =>
    have hne : i ≠ j := by
      rintro rfl
      rw [show pool.config.result i = none from hspares] at hresult
      exact absurd hresult (by simp)
    exact (Function.update_of_ne hne _ _).trans hdone

theorem mem_own_extend (hstep : M.Step pool.config m c) {ev : Event E R}
    (hev : ev ∈ own i (pool.extend hstep).history) :
    ev ∈ own i pool.history ∨ m.label = .answer i ev := by
  rw [show (pool.extend hstep).history = pool.history ++ [m] from rfl, own_append] at hev
  refine (List.mem_append.1 hev).imp_right ?_
  intro hlast
  obtain ⟨m', hm', hlabel⟩ := List.mem_filterMap.1 hlast
  obtain rfl := List.mem_singleton.1 hm'
  exact Label.eq_answer_of_own hlabel

theorem own_start (hstart : M.start pool.config.shared p) :
    own i (pool.start hstart).history = own i pool.history :=
  own_concat_of_none rfl

/-- What was started is the new process or an older one. -/
theorem started_start_cases {q : Proc E R α} (hstart : M.start pool.config.shared p)
    (h : Started (pool.start hstart).history i q) : Started pool.history i q ∨
      i = pool.config.next := by
  refine ((started_extend _).1 h).imp_right ?_
  intro hlabel
  exact (Label.start.inj hlabel).1.symm

/-- The same machine later on: its history goes on, and what was over is over. -/
structure Later (pool pool' : M.Pool s₀) : Prop where
  history : pool.history <+: pool'.history
  result : ∀ {i a}, pool.config.result i = some a → pool'.config.result i = some a

theorem Later.refl (pool : M.Pool s₀) : pool.Later pool := ⟨List.prefix_refl _, id⟩

theorem later_extend (hstep : M.Step pool.config m c) (hspares : pool.config.Spares m.label) :
    pool.Later (pool.extend hstep) :=
  ⟨List.prefix_append _ _, result_extend hstep hspares⟩

theorem later_start (hstart : M.start pool.config.shared p) : pool.Later (pool.start hstart) :=
  later_extend _ trivial

theorem Later.started {pool' : M.Pool s₀} (hlater : pool.Later pool')
    (hst : Started pool.history i p) : Started pool'.history i p := by
  obtain ⟨rest, hrest⟩ := hlater.history
  rw [← hrest]
  exact started_append.2 (Or.inl hst)

end Pool

end Machine

end Conc
