import Mathlib.Data.Nat.Periodic

/-!
# Taking turns

A counter that goes up by one, taken modulo `n`, comes by the numbers below `n` in turn.

* `visits n j a b` — how often it comes by `j` while it goes from `a` to `b`;
* `visits_add` — stretches add up;
* `visits_le_one` — a stretch of `n` comes by each number once;
* `visits_balanced` — and no number is ever more than one visit ahead of another.
-/

namespace Rotation

/-- How often a counter comes by `j` modulo `n`, from `a` on, before `b`. -/
def visits (n j a b : ℕ) : ℕ := ((Finset.Ico a b).filter (· % n = j)).card

variable {n i j a b c : ℕ}

@[simp] theorem visits_self (n j a : ℕ) : visits n j a a = 0 := by
  simp [visits]

/-- Two stretches, one after the other. -/
theorem visits_add (hab : a ≤ b) (hbc : b ≤ c) :
    visits n j a b + visits n j b c = visits n j a c := by
  rw [visits, visits, visits, ← Finset.Ico_union_Ico_eq_Ico hab hbc, Finset.filter_union,
    Finset.card_union_of_disjoint]
  exact Finset.disjoint_filter_filter (Finset.Ico_disjoint_Ico_consecutive a b c)

/-- A whole turn comes by each number once. -/
theorem visits_turn (hj : j < n) (a : ℕ) : visits n j a (a + n) = 1 := by
  have hperiodic : Function.Periodic (· % n = j) n := fun k => by
    simp
  rw [visits, Nat.filter_Ico_card_eq_of_periodic a n _ hperiodic, Nat.count_eq_card_filter_range]
  refine Finset.card_eq_one.2 ⟨j, ?_⟩
  ext k
  rw [Finset.mem_filter, Finset.mem_range, Finset.mem_singleton]
  constructor
  · rintro ⟨hk, hmod⟩
    rwa [Nat.mod_eq_of_lt hk] at hmod
  · rintro rfl
    exact ⟨hj, Nat.mod_eq_of_lt hj⟩

/-- Less than a turn comes by none twice. -/
theorem visits_le_one (hj : j < n) (hab : a ≤ b) (hb : b ≤ a + n) : visits n j a b ≤ 1 := by
  have hsplit := visits_add (n := n) (j := j) hab hb
  rw [visits_turn hj] at hsplit
  omega

theorem visits_pos (hab : a ≤ c) (hcb : c < b) (hc : c % n = j) : 0 < visits n j a b :=
  Finset.card_pos.2 ⟨c, Finset.mem_filter.2 ⟨Finset.mem_Ico.2 ⟨hab, hcb⟩, hc⟩⟩

theorem visits_eq_zero (hnone : ∀ c, a ≤ c → c < b → c % n ≠ j) : visits n j a b = 0 := by
  refine Finset.card_eq_zero.2 (Finset.filter_eq_empty_iff.2 fun c hc => ?_)
  obtain ⟨hle, hlt⟩ := Finset.mem_Ico.1 hc
  exact hnone c hle hlt

/-- **Turns are fair**: no number is more than one visit ahead of another. -/
theorem visits_balanced (hi : i < n) (hj : j < n) (hab : a ≤ b) :
    visits n i a b ≤ visits n j a b + 1 := by
  obtain ⟨m, rfl⟩ := Nat.exists_eq_add_of_le hab
  induction m using Nat.strong_induction_on generalizing a with
  | _ m ih =>
    by_cases hm : m ≤ n
    · have hone := visits_le_one hi hab (Nat.add_le_add_left hm a)
      omega
    · -- a whole turn comes first, and the rest is shorter
      have hrest := ih (m - n) (by omega) (a := a + n) (Nat.le_add_right _ _)
      have hend : a + n + (m - n) = a + m := by omega
      rw [hend] at hrest
      have hwhole : a + n ≤ a + m := by omega
      rw [← visits_add (n := n) (j := i) (Nat.le_add_right a n) hwhole, visits_turn hi,
        ← visits_add (n := n) (j := j) (Nat.le_add_right a n) hwhole, visits_turn hj]
      omega

end Rotation
