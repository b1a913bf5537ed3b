import FiduciaLoadBalance.Revocation.Stages

/-!
# The table of the keys' locks

The table does not know why a reference exists.  `Locked` says that it agrees with where
the calls are: who is at which stage accounts for every reference and for every holder, and
whoever has an unreleased reference for a key has it to the lock the table has for the key.

* `Locked.acquire`, `.lockTaken`, `.lockGiven`, `.release`, `.dropReference`, `.forget` — each
  operation keeps the agreement, for a call that goes on to its next stage;
* `Locked.exclusive` — and then two calls do not hold the lock of one key.
-/

namespace LoadBalance

namespace Revocation

/-- The table agrees with where the calls are. -/
structure Locked (stages : ℕ → Stage) (locks : KeyLocks) : Prop where
  references : ∀ i lock, (i, lock) ∈ locks.references ↔ ∃ key, (stages i).wanted = some (key, lock)
  released : ∀ i lock, (i, lock) ∈ locks.released ↔ (stages i).dropping = some lock
  holder : ∀ i lock, locks.holder lock = some i ↔ (stages i).held = some lock
  byKey : ∀ i (key : String) (lock : LockId), (stages i).wanted = some (key, lock) →
    locks.byKey[key]? = some lock
  references_nodup : locks.references.Nodup
  released_nodup : locks.released.Nodup
  byKey_injective : ∀ (key key' : String) (lock : LockId), locks.byKey[key]? = some lock →
    locks.byKey[key']? = some lock → key = key'
  lt_next : ∀ (key : String) (lock : LockId), locks.byKey[key]? = some lock → lock < locks.next

variable {stages : ℕ → Stage} {locks : KeyLocks} {i j : ℕ} {key : String} {lock : LockId}
  {stage : Stage}

/-- **Two calls do not hold the lock of one key.** -/
theorem Locked.exclusive (h : Locked stages locks) {lock' : LockId}
    (hi : stages i = .holding key lock) (hj : stages j = .holding key lock') : i = j := by
  have hlock := h.byKey i key lock (by rw [hi, Stage.wanted])
  have hlock' := h.byKey j key lock' (by rw [hj, Stage.wanted])
  obtain rfl := Option.some.inj (hlock.symm.trans hlock')
  have hheld := (h.holder i lock).2 (by rw [hi, Stage.held])
  have hheld' := (h.holder j lock).2 (by rw [hj, Stage.held])
  exact Option.some.inj (hheld.symm.trans hheld')

theorem locked_empty : Locked (fun _ => .gone) .empty where
  references := by simp [KeyLocks.empty, Stage.wanted]
  released := by simp [KeyLocks.empty, Stage.dropping]
  holder := by simp [KeyLocks.empty, Stage.held]
  byKey := by simp [Stage.wanted]
  references_nodup := List.nodup_nil
  released_nodup := List.nodup_nil
  byKey_injective := by simp [KeyLocks.empty]
  lt_next := by simp [KeyLocks.empty]

/-- Only the references and the locks that stages have count. -/
theorem Locked.congr (h : Locked stages locks) {stages' : ℕ → Stage}
    (hwanted : ∀ i, (stages' i).wanted = (stages i).wanted)
    (hheld : ∀ i, (stages' i).held = (stages i).held)
    (hdropping : ∀ i, (stages' i).dropping = (stages i).dropping) : Locked stages' locks where
  references := by simpa only [hwanted] using h.references
  released := by simpa only [hdropping] using h.released
  holder := by simpa only [hheld] using h.holder
  byKey := by simpa only [hwanted] using h.byKey
  references_nodup := h.references_nodup
  released_nodup := h.released_nodup
  byKey_injective := h.byKey_injective
  lt_next := h.lt_next

/-- What the new stage of a call has in common with the old one. -/
theorem update_same {β : Type} (f : Stage → β) (hsame : f stage = f (stages i)) (j : ℕ) :
    f (Function.update stages i stage j) = f (stages j) := by
  rw [Function.update_apply]
  split
  · rename_i hji
    rw [hji, hsame]
  · rfl

/-! ## Taking a reference -/

/-- A new lock for a key that has none. -/
theorem Locked.insert (h : Locked stages locks) (hnone : locks.byKey[key]? = none) :
    Locked stages { locks with
      byKey := locks.byKey.insert key locks.next
      next := locks.next + 1 } where
  references := h.references
  released := h.released
  holder := h.holder
  byKey := by
    intro i key' lock hwanted
    have hkey' := h.byKey i key' lock hwanted
    have hne : key ≠ key' := by
      rintro rfl
      rw [hnone] at hkey'
      exact absurd hkey' (by simp)
    rwa [Std.ExtTreeMap.getElem?_insert, if_neg (by simpa using hne)]
  references_nodup := h.references_nodup
  released_nodup := h.released_nodup
  byKey_injective := by
    intro key₁ key₂ lock h₁ h₂
    have hold : ∀ key', (locks.byKey.insert key locks.next)[key']? = some lock →
        key' = key ∧ lock = locks.next ∨ locks.byKey[key']? = some lock ∧ lock < locks.next := by
      intro key' hkey'
      rw [Std.ExtTreeMap.getElem?_insert] at hkey'
      split at hkey'
      · rename_i heq
        exact Or.inl ⟨(compare_eq_iff_eq.1 heq).symm, (Option.some.inj hkey').symm⟩
      · exact Or.inr ⟨hkey', h.lt_next key' lock hkey'⟩
    rcases hold key₁ h₁ with ⟨rfl, rfl⟩ | ⟨hkey₁, hlt₁⟩
    · rcases hold key₂ h₂ with ⟨rfl, -⟩ | ⟨-, hlt₂⟩
      · rfl
      · exact absurd hlt₂ (lt_irrefl _)
    · rcases hold key₂ h₂ with ⟨-, rfl⟩ | ⟨hkey₂, -⟩
      · exact absurd hlt₁ (lt_irrefl _)
      · exact h.byKey_injective key₁ key₂ lock hkey₁ hkey₂
  lt_next := by
    intro key' lock hkey'
    rw [Std.ExtTreeMap.getElem?_insert] at hkey'
    split at hkey'
    · rw [← Option.some.inj hkey']
      exact Nat.lt_succ_self _
    · exact Nat.lt_succ_of_lt (h.lt_next key' lock hkey')

/-- A reference to the lock of a key. -/
theorem Locked.refer (h : Locked stages locks) (hi : stages i = .looking)
    (hkey : locks.byKey[key]? = some lock) :
    Locked (Function.update stages i (.waiting key lock))
      { locks with references := (i, lock) :: locks.references } where
  references := by
    intro j lock'
    rw [List.mem_cons, h.references j lock', Function.update_apply]
    split
    · rename_i hji
      rw [hji, hi]
      simp [Stage.wanted, eq_comm]
    · rename_i hji
      simp [hji]
  released := by
    intro j lock'
    rw [h.released j lock', update_same Stage.dropping (by rw [hi]; rfl)]
  holder := by
    intro j lock'
    rw [h.holder j lock', update_same Stage.held (by rw [hi]; rfl)]
  byKey := by
    intro j key' lock' hwanted
    rw [Function.update_apply] at hwanted
    split at hwanted
    · obtain ⟨rfl, rfl⟩ := Prod.mk.inj (Option.some.inj hwanted)
      exact hkey
    · exact h.byKey j key' lock' hwanted
  references_nodup := by
    refine List.nodup_cons.2 ⟨?_, h.references_nodup⟩
    intro hmem
    obtain ⟨key', hwanted⟩ := (h.references i lock).1 hmem
    rw [hi] at hwanted
    exact absurd hwanted (by simp [Stage.wanted])
  released_nodup := h.released_nodup
  byKey_injective := h.byKey_injective
  lt_next := h.lt_next

theorem Locked.acquire (h : Locked stages locks) (hi : stages i = .looking) (key : String) :
    Locked (Function.update stages i (.waiting key (locks.acquire i key).1))
      (locks.acquire i key).2 := by
  unfold KeyLocks.acquire
  split
  · rename_i lock hkey
    exact h.refer hi hkey
  · rename_i hnone
    have hinserted : (locks.byKey.insert key locks.next)[key]? = some locks.next :=
      Std.ExtTreeMap.getElem?_insert_self
    exact (h.insert hnone).refer hi hinserted

/-! ## Taking the lock and giving it up -/

theorem Locked.lockTaken (h : Locked stages locks) (hi : stages i = .waiting key lock)
    (hfree : locks.holder lock = none) :
    Locked (Function.update stages i (.holding key lock))
      { locks with holder := Function.update locks.holder lock (some i) } where
  references := by
    intro j lock'
    rw [h.references j lock', update_same Stage.wanted (by rw [hi]; rfl)]
  released := by
    intro j lock'
    rw [h.released j lock', update_same Stage.dropping (by rw [hi]; rfl)]
  holder := by
    intro j lock'
    show Function.update locks.holder lock (some i) lock' = some j ↔ _
    rw [Function.update_apply, Function.update_apply]
    by_cases hlock : lock' = lock
    · rw [hlock, if_pos rfl]
      split
      · rename_i hji
        simp [hji, Stage.held]
      · rename_i hji
        rw [← h.holder j lock, hfree]
        simp [Ne.symm hji]
    · rw [if_neg hlock, h.holder j lock']
      split
      · rename_i hji
        rw [hji, hi]
        simp [Stage.held, Ne.symm hlock]
      · rfl
  byKey := by
    intro j key' lock' hwanted
    rw [update_same Stage.wanted (by rw [hi]; rfl)] at hwanted
    exact h.byKey j key' lock' hwanted
  references_nodup := h.references_nodup
  released_nodup := h.released_nodup
  byKey_injective := h.byKey_injective
  lt_next := h.lt_next

theorem Locked.lockGiven (h : Locked stages locks) (hi : stages i = .holding key lock) :
    Locked (Function.update stages i (.leaving key lock))
      { locks with holder := Function.update locks.holder lock none } where
  references := by
    intro j lock'
    rw [h.references j lock', update_same Stage.wanted (by rw [hi]; rfl)]
  released := by
    intro j lock'
    rw [h.released j lock', update_same Stage.dropping (by rw [hi]; rfl)]
  holder := by
    intro j lock'
    have hheld := (h.holder i lock).2 (by rw [hi]; rfl)
    show Function.update locks.holder lock none lock' = some j ↔ _
    rw [Function.update_apply, Function.update_apply]
    by_cases hlock : lock' = lock
    · rw [hlock, if_pos rfl]
      split
      · simp [Stage.held]
      · rename_i hji
        rw [← h.holder j lock, hheld]
        simp [Ne.symm hji]
    · rw [if_neg hlock, h.holder j lock']
      split
      · rename_i hji
        rw [hji, hi]
        simp [Stage.held, Ne.symm hlock]
      · rfl
  byKey := by
    intro j key' lock' hwanted
    rw [update_same Stage.wanted (by rw [hi]; rfl)] at hwanted
    exact h.byKey j key' lock' hwanted
  references_nodup := h.references_nodup
  released_nodup := h.released_nodup
  byKey_injective := h.byKey_injective
  lt_next := h.lt_next

/-! ## Releasing the key -/

theorem two_le_length {α : Type} {l : List α} {a b : α} (ha : a ∈ l) (hb : b ∈ l)
    (hne : a ≠ b) : 2 ≤ l.length := by
  match l with
  | [] => exact absurd ha (by simp)
  | [x] => exact absurd ((List.mem_singleton.1 ha).trans (List.mem_singleton.1 hb).symm) hne
  | _ :: _ :: _ => exact Nat.le_add_left 2 _

/-- The count sees every other reference: whoever finds at most its own and the table's is
the last. -/
theorem Locked.last_of_strongCount (h : Locked stages locks) (hi : stages i = .leaving key lock)
    (hcount : locks.strongCount lock ≤ 2) {key' : String}
    (hj : (stages j).wanted = some (key', lock)) : j = i := by
  by_contra hji
  have hmine : (i, lock) ∈ locks.references.filter (·.2 = lock) :=
    List.mem_filter.2 ⟨(h.references i lock).2 ⟨key, by rw [hi]; rfl⟩, by simp⟩
  have hother : (j, lock) ∈ locks.references.filter (·.2 = lock) :=
    List.mem_filter.2 ⟨(h.references j lock).2 ⟨key', hj⟩, by simp⟩
  have htwo : 2 ≤ (locks.references.filter (·.2 = lock)).length :=
    two_le_length hother hmine (by simp [hji])
  have hentry : (key', lock) ∈ locks.byKey.toList.filter (·.2 = lock) :=
    List.mem_filter.2
      ⟨Std.ExtTreeMap.mem_toList_iff_getElem?_eq_some.2 (h.byKey j key' lock hj), by simp⟩
  have hone : 1 ≤ (locks.byKey.toList.filter (·.2 = lock)).length :=
    List.length_pos_of_mem hentry
  unfold KeyLocks.strongCount at hcount
  omega

theorem getElem?_release {key' : String} {lock' : LockId}
    (hkey : (locks.release i key lock).byKey[key']? = some lock') :
    locks.byKey[key']? = some lock' := by
  unfold KeyLocks.release at hkey
  dsimp only at hkey
  split at hkey
  · rw [Std.ExtTreeMap.getElem?_erase] at hkey
    split at hkey
    · exact absurd hkey (by simp)
    · exact hkey
  · exact hkey

theorem Locked.release (h : Locked stages locks) (hi : stages i = .leaving key lock) :
    Locked (Function.update stages i (.released lock)) (locks.release i key lock) where
  references := by
    intro j lock'
    rw [KeyLocks.release, h.references_nodup.mem_erase_iff, h.references j lock',
      Function.update_apply]
    split
    · rename_i hji
      rw [hji, hi]
      simp [Stage.wanted, eq_comm]
    · rename_i hji
      simp [hji]
  released := by
    intro j lock'
    rw [KeyLocks.release, List.mem_cons, h.released j lock', Function.update_apply]
    split
    · rename_i hji
      rw [hji, hi]
      simp [Stage.dropping, eq_comm]
    · rename_i hji
      simp [hji]
  holder := by
    intro j lock'
    rw [KeyLocks.release, h.holder j lock', update_same Stage.held (by rw [hi]; rfl)]
  byKey := by
    intro j key' lock' hwanted
    rw [Function.update_apply] at hwanted
    split at hwanted
    · exact absurd hwanted (by simp [Stage.wanted])
    · rename_i hji
      have hkey' := h.byKey j key' lock' hwanted
      unfold KeyLocks.release
      dsimp only
      split
      · rename_i hcount
        rw [Std.ExtTreeMap.getElem?_erase]
        split
        · -- the lock that goes would be the one wanted, by somebody else
          rename_i heq
          obtain rfl := compare_eq_iff_eq.1 heq
          have hkey := h.byKey i key lock (by rw [hi]; rfl)
          obtain rfl := Option.some.inj (hkey'.symm.trans hkey)
          exact absurd (h.last_of_strongCount hi hcount hwanted) hji
        · exact hkey'
      · exact hkey'
  references_nodup := h.references_nodup.erase _
  released_nodup := by
    refine List.nodup_cons.2 ⟨?_, h.released_nodup⟩
    intro hmem
    have hdropping := (h.released i lock).1 hmem
    rw [hi] at hdropping
    exact absurd hdropping (by simp [Stage.dropping])
  byKey_injective := by
    intro key₁ key₂ lock' h₁ h₂
    exact h.byKey_injective key₁ key₂ lock' (getElem?_release h₁) (getElem?_release h₂)
  lt_next := by
    intro key' lock' hkey'
    exact h.lt_next key' lock' (getElem?_release hkey')

/-! ## Giving the reference up -/

theorem Locked.dropReference (h : Locked stages locks) (hi : stages i = .released lock) :
    Locked (Function.update stages i .gone) (locks.dropReference i lock) where
  references := by
    intro j lock'
    rw [KeyLocks.dropReference, h.references j lock', update_same Stage.wanted (by rw [hi]; rfl)]
  released := by
    intro j lock'
    rw [KeyLocks.dropReference, h.released_nodup.mem_erase_iff, h.released j lock',
      Function.update_apply]
    split
    · rename_i hji
      rw [hji, hi]
      simp [Stage.dropping, eq_comm]
    · rename_i hji
      simp [hji]
  holder := by
    intro j lock'
    rw [KeyLocks.dropReference, h.holder j lock', update_same Stage.held (by rw [hi]; rfl)]
  byKey := by
    intro j key' lock' hwanted
    rw [update_same Stage.wanted (by rw [hi]; rfl)] at hwanted
    exact h.byKey j key' lock' hwanted
  references_nodup := h.references_nodup
  released_nodup := h.released_nodup.erase _
  byKey_injective := h.byKey_injective
  lt_next := h.lt_next

/-- A call can be dropped at any stage. -/
theorem Locked.forget (h : Locked stages locks) (i : ℕ) :
    Locked (Function.update stages i .gone) (locks.forget i) where
  references := by
    intro j lock'
    rw [KeyLocks.forget, List.mem_filter, h.references j lock', Function.update_apply]
    split
    · rename_i hji
      simp [hji, Stage.wanted]
    · rename_i hji
      simp [hji]
  released := by
    intro j lock'
    rw [KeyLocks.forget, List.mem_filter, h.released j lock', Function.update_apply]
    split
    · rename_i hji
      simp [hji, Stage.dropping]
    · rename_i hji
      simp [hji]
  holder := by
    intro j lock'
    unfold KeyLocks.forget
    dsimp only
    rw [Function.update_apply]
    split
    · rename_i hheld
      split
      · simp [Stage.held]
      · rename_i hji
        rw [← h.holder j lock', hheld]
        simp [Ne.symm hji]
    · rename_i hheld
      split
      · rename_i hji
        simp [hji, hheld, Stage.held]
      · exact h.holder j lock'
  byKey := by
    intro j key' lock' hwanted
    rw [Function.update_apply] at hwanted
    split at hwanted
    · exact absurd hwanted (by simp [Stage.wanted])
    · exact h.byKey j key' lock' hwanted
  references_nodup := h.references_nodup.filter _
  released_nodup := h.released_nodup.filter _
  byKey_injective := h.byKey_injective
  lt_next := h.lt_next

end Revocation

end LoadBalance
