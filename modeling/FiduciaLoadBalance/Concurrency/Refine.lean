import FiduciaLoadBalance.Concurrency.Schedule

/-!
# One machine seen through another

`Machine.Refines M N f` says that whatever machine `M` does, machine `N` may do, where `f`
forgets what `N` does not know of the state.  Then every run of `M` is one of `N`
(`Run.map`), with the same labels and the same processes, and whatever is known of the runs
of `N` is known of those of `M`.
-/

namespace Conc

variable {E : Type} {R : E → Type} {α σ τ : Type}

/-- A moment, seen through `f`. -/
def Moment.map (f : σ → τ) (m : Moment E R α σ) : Moment E R α τ :=
  ⟨m.label, f m.before, f m.after⟩

/-- A configuration, seen through `f`. -/
def Config.map (f : σ → τ) (c : Config E R α σ) : Config E R α τ :=
  ⟨f c.shared, c.procs, c.next⟩

namespace Machine

/-- Seen through `f`, machine `M` does only what machine `N` may do. -/
structure Refines (M : Machine E R α σ) (N : Machine E R α τ) (f : σ → τ) : Prop where
  start : ∀ {s p}, M.start s p → N.start (f s) p
  exec : ∀ {i s e r s'}, M.exec i s e r s' → N.exec i (f s) e r (f s')
  env : ∀ {s s'}, M.env s s' → N.env (f s) (f s')
  drop : ∀ {i p s s'}, M.drop i p s s' → N.drop i p (f s) (f s')

variable {M : Machine E R α σ} {N : Machine E R α τ} {f : σ → τ} {s₀ : σ}
  {h : List (Moment E R α σ)} {c c' : Config E R α σ} {m : Moment E R α σ}

theorem Step.map (hM : M.Refines N f) (hstep : M.Step c m c') :
    N.Step (c.map f) (m.map f) (c'.map f) := by
  cases hstep with
  | start hst => exact .start (hM.start hst)
  | answer hlive hexec => exact .answer hlive (hM.exec hexec)
  | env henv => exact .env (hM.env henv)
  | drop hlive hdrop => exact .drop hlive (hM.drop hdrop)

/-- **A run of the one is a run of the other.** -/
theorem Run.map (hM : M.Refines N f) (hrun : M.Run s₀ h c) :
    N.Run (f s₀) (h.map (.map f)) (c.map f) := by
  induction hrun with
  | init => exact .init
  | step _ hstep ih =>
    rw [List.map_append]
    exact ih.step (hstep.map hM)

@[simp] theorem own_map (f : σ → τ) (i : ℕ) (h : List (Moment E R α σ)) :
    own i (h.map (.map f)) = own i h := by
  simp only [own, List.filterMap_map]
  rfl

@[simp] theorem started_map (f : σ → τ) {i : ℕ} {p : Proc E R α} :
    Started (h.map (.map f)) i p ↔ Started h i p := by
  simp [Started, Moment.map]

@[simp] theorem result_map (f : σ → τ) (c : Config E R α σ) (i : ℕ) :
    (c.map f).result i = c.result i := rfl

end Machine

end Conc
