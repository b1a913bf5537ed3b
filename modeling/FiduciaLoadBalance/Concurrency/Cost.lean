import FiduciaLoadBalance.Concurrency.Proc

/-!
# What a process costs

A process is bounded if every path through it is: each call has a weight, and whatever is
answered, the weights of the calls made add up to no more than a budget.  The weight of a call
can be one, for the number of calls, or how long it may take at most.

* `Proc.Within f b p` — the weights of `f` along any run of `p` add up to `b` at most, with a
  rule for each way a process is put together;
* `cost_le_of_steps` — and so they do along every run;
* `Timed` — a run in time, where a call takes no longer than it weighs, and `Timed.le`: the
  whole takes no longer than the budget.
-/

namespace Conc

variable {E : Type} {R : E → Type} {α β : Type}

/-- What the calls of a trace weigh together. -/
def cost (f : E → ℕ) (tr : List (Event E R)) : ℕ := (tr.map fun ev => f ev.1).sum

@[simp] theorem cost_nil (f : E → ℕ) : cost f ([] : List (Event E R)) = 0 := rfl

@[simp] theorem cost_cons (f : E → ℕ) (ev : Event E R) (tr : List (Event E R)) :
    cost f (ev :: tr) = f ev.1 + cost f tr := by
  simp [cost]

@[simp] theorem cost_append (f : E → ℕ) (tr tr' : List (Event E R)) :
    cost f (tr ++ tr') = cost f tr + cost f tr' := by
  simp [cost]

namespace Proc

/-- Whatever is answered, the calls weigh no more than `b` together. -/
def Within (f : E → ℕ) (b : ℕ) : Proc E R α → Prop
  | .done _ => True
  | .call e k => ∃ rest, f e + rest ≤ b ∧ ∀ r, Within f rest (k r)

variable {f : E → ℕ} {a b : ℕ} {p q : Proc E R α} {tr : List (Event E R)}

theorem Within.mono (hp : p.Within f a) (hle : a ≤ b) : p.Within f b := by
  cases p with
  | done x => trivial
  | call e k =>
    obtain ⟨rest, hrest, hk⟩ := hp
    exact ⟨rest, hrest.trans hle, hk⟩

theorem within_perform {e : E} (he : f e ≤ b) : (perform e : Proc E R (R e)).Within f b :=
  ⟨0, he, fun _ => trivial⟩

/-- One part after the other. -/
theorem within_bind {g : α → Proc E R β} (hp : p.Within f a) (hg : ∀ x, (g x).Within f b) :
    (p >>= g).Within f (a + b) := by
  induction p generalizing a with
  | done x => exact (hg x).mono (Nat.le_add_left b a)
  | call e k ih =>
    obtain ⟨rest, hrest, hk⟩ := hp
    refine ⟨rest + b, by omega, ?_⟩
    intro r
    exact ih r (hk r)

/-- **No run costs more than the budget.** -/
theorem cost_le_of_steps (hp : p.Within f b) (hs : Steps p tr q) : cost f tr ≤ b := by
  induction hs generalizing b with
  | refl p => exact Nat.zero_le b
  | call _ ih =>
    obtain ⟨rest, hrest, hk⟩ := hp
    rw [cost_cons]
    exact (Nat.add_le_add_left (ih (hk _)) _).trans hrest

end Proc

/-! ## Runs in time -/

/-- A trace in time: it starts at the first time and ends at the second, and each call takes
no longer than it weighs. -/
inductive Timed (f : E → ℕ) : ℕ → List (Event E R) → ℕ → Prop
  | nil (t : ℕ) : Timed f t [] t
  | call {t t₁ t' : ℕ} {ev : Event E R} {tr : List (Event E R)} :
      t ≤ t₁ → t₁ ≤ t + f ev.1 → Timed f t₁ tr t' → Timed f t (ev :: tr) t'

variable {f : E → ℕ} {t t' : ℕ} {tr : List (Event E R)}

/-- A trace in time takes no longer than its calls weigh together. -/
theorem Timed.le (h : Timed f t tr t') : t ≤ t' ∧ t' ≤ t + cost f tr := by
  induction h with
  | nil t => exact ⟨le_rfl, le_rfl⟩
  | call hstart hend _ ih =>
    rw [cost_cons]
    omega

end Conc
