import Mathlib

/-!
# Maps built from lists

Facts about extensional tree maps: what is under a key after an insertion, and after the
insertion of a whole list.  If the keys of the list are distinct, the map holds exactly
its pairs, so the order of the list does not matter.  In between, the keys of least value.
-/

namespace TreeMap

variable {α β : Type} [Ord α] [Std.TransOrd α]

theorem mem_iff_exists {m : Std.ExtTreeMap α β} {k : α} : k ∈ m ↔ ∃ v, m[k]? = some v := by
  rw [Std.ExtTreeMap.mem_iff_isSome_getElem?, Option.isSome_iff_exists]

/-- Insert the pairs of a list, from the first to the last. -/
def insertAll (m : Std.ExtTreeMap α β) (pairs : List (α × β)) : Std.ExtTreeMap α β :=
  pairs.foldl (fun m pair => m.insert pair.1 pair.2) m

@[simp] theorem insertAll_nil (m : Std.ExtTreeMap α β) : insertAll m [] = m := rfl

@[simp] theorem insertAll_cons (m : Std.ExtTreeMap α β) (pair : α × β) (pairs : List (α × β)) :
    insertAll m (pair :: pairs) = insertAll (m.insert pair.1 pair.2) pairs := rfl

variable [Std.LawfulEqOrd α]

theorem mem_insert_iff (m : Std.ExtTreeMap α β) (k k' : α) (v : β) :
    k' ∈ m.insert k v ↔ k' = k ∨ k' ∈ m := by
  rw [Std.ExtTreeMap.mem_insert, Std.LawfulEqCmp.compare_eq_iff_eq, eq_comm]

/-- There is a key in the map for each pair of a list with distinct new keys. -/
theorem size_insertAll {m : Std.ExtTreeMap α β} {pairs : List (α × β)}
    (hnodup : (pairs.map Prod.fst).Nodup) (hnew : ∀ k ∈ pairs.map Prod.fst, k ∉ m) :
    (insertAll m pairs).size = m.size + pairs.length := by
  induction pairs generalizing m with
  | nil => simp
  | cons pair pairs ih =>
    rw [List.map_cons, List.nodup_cons] at hnodup
    have hfresh : ¬m.contains pair.1 = true := fun hc =>
      hnew pair.1 (by simp) (Std.ExtTreeMap.mem_iff_contains.2 hc)
    rw [insertAll_cons, ih hnodup.2 fun k hk => ?_, Std.ExtTreeMap.size_insert,
      if_neg hfresh, List.length_cons]
    · omega
    · rw [mem_insert_iff, not_or]
      exact ⟨fun heq => hnodup.1 (heq ▸ hk), hnew k (by simp [hk])⟩

/-! ## Keys of least value -/

section Least

variable {γ : Type} [LinearOrder γ]

/-- The keys under which the least value is, measured by `f`. -/
def least (f : β → γ) (m : Std.ExtTreeMap α β) : List α :=
  (m.toList.filter fun pair => m.toList.all fun other => f pair.2 ≤ f other.2).map Prod.fst

variable {f : β → γ} {m : Std.ExtTreeMap α β} {k : α}

theorem mem_least : k ∈ least f m ↔
    ∃ v, m[k]? = some v ∧ ∀ (k' : α) (v' : β), m[k']? = some v' → f v ≤ f v' := by
  unfold least
  constructor
  · intro hk
    obtain ⟨⟨key, v⟩, hpair, rfl⟩ := List.mem_map.1 hk
    obtain ⟨hmem, hall⟩ := List.mem_filter.1 hpair
    refine ⟨v, Std.ExtTreeMap.mem_toList_iff_getElem?_eq_some.1 hmem, ?_⟩
    intro k' v' hv'
    have hmem' := Std.ExtTreeMap.mem_toList_iff_getElem?_eq_some.2 hv'
    exact of_decide_eq_true (List.all_eq_true.1 hall (k', v') hmem')
  · rintro ⟨v, hv, hle⟩
    refine List.mem_map.2 ⟨(k, v), List.mem_filter.2
      ⟨Std.ExtTreeMap.mem_toList_iff_getElem?_eq_some.2 hv, List.all_eq_true.2 ?_⟩, rfl⟩
    intro other hother
    have hvalue := Std.ExtTreeMap.mem_toList_iff_getElem?_eq_some.1 hother
    exact decide_eq_true (hle other.1 other.2 hvalue)

/-- Some value of a map that is not empty is the least one. -/
theorem exists_mem_least (f : β → γ) (hm : m ≠ ∅) : ∃ k, k ∈ least f m := by
  have hlist : m.toList ≠ [] := by
    intro hnil
    exact hm (Std.ExtTreeMap.toList_eq_nil_iff.1 hnil)
  obtain ⟨pair, hpair⟩ := Option.ne_none_iff_exists'.1
    (mt (List.argmin_eq_none (f := fun pair : α × β => f pair.2)).1 hlist)
  refine ⟨pair.1, mem_least.2 ⟨pair.2,
    Std.ExtTreeMap.mem_toList_iff_getElem?_eq_some.1 (List.argmin_mem hpair), ?_⟩⟩
  intro k' v' hv'
  have hmem := Std.ExtTreeMap.mem_toList_iff_getElem?_eq_some.2 hv'
  exact List.le_of_mem_argmin (f := fun pair : α × β => f pair.2) hmem hpair

/-- A key of least value is in the map. -/
theorem mem_of_mem_least (hk : k ∈ least f m) : k ∈ m := by
  obtain ⟨v, hv, -⟩ := mem_least.1 hk
  exact mem_iff_exists.2 ⟨v, hv⟩

end Least

/-! ## What is under a key -/

variable [DecidableEq α]

theorem getElem?_insert_eq (m : Std.ExtTreeMap α β) (k k' : α) (v : β) :
    (m.insert k v)[k']? = if k' = k then some v else m[k']? := by
  rw [Std.ExtTreeMap.getElem?_insert]
  by_cases h : k' = k
  · subst h
    simp
  · rw [if_neg h, if_neg fun hc => h (Std.LawfulEqCmp.eq_of_compare hc).symm]

theorem getElem?_erase_eq (m : Std.ExtTreeMap α β) (k k' : α) :
    (m.erase k)[k']? = if k' = k then none else m[k']? := by
  rw [Std.ExtTreeMap.getElem?_erase]
  by_cases h : k' = k
  · subst h
    simp
  · rw [if_neg h, if_neg fun hc => h (Std.LawfulEqCmp.eq_of_compare hc).symm]

/-- A key that is not inserted keeps what it had. -/
theorem getElem?_insertAll_of_notMem {m : Std.ExtTreeMap α β} {pairs : List (α × β)} {k : α}
    (h : k ∉ pairs.map Prod.fst) : (insertAll m pairs)[k]? = m[k]? := by
  induction pairs generalizing m with
  | nil => rfl
  | cons pair pairs ih =>
    rw [List.map_cons, List.mem_cons, not_or] at h
    rw [insertAll_cons, ih h.2, getElem?_insert_eq, if_neg h.1]

/-- What is under a key after the pairs of a list with distinct keys were inserted. -/
theorem getElem?_insertAll {m : Std.ExtTreeMap α β} {pairs : List (α × β)}
    (hnodup : (pairs.map Prod.fst).Nodup) {k : α} {v : β} :
    (insertAll m pairs)[k]? = some v ↔
      (k, v) ∈ pairs ∨ (k ∉ pairs.map Prod.fst ∧ m[k]? = some v) := by
  induction pairs generalizing m with
  | nil => simp
  | cons pair pairs ih =>
    obtain ⟨key, value⟩ := pair
    rw [List.map_cons, List.nodup_cons] at hnodup
    rw [insertAll_cons]
    by_cases hk : k = key
    · subst hk
      have hnot : (k, v) ∉ pairs := fun h => hnodup.1 (List.mem_map.2 ⟨_, h, rfl⟩)
      rw [getElem?_insertAll_of_notMem hnodup.1, getElem?_insert_eq, if_pos rfl]
      simp [hnot, eq_comm]
    · rw [ih hnodup.2, getElem?_insert_eq, if_neg hk]
      simp [hk]

/-- The map of a list of pairs with distinct keys holds exactly these pairs. -/
theorem getElem?_insertAll_empty {pairs : List (α × β)} (hnodup : (pairs.map Prod.fst).Nodup)
    {k : α} {v : β} : (insertAll ∅ pairs)[k]? = some v ↔ (k, v) ∈ pairs := by
  rw [getElem?_insertAll hnodup]
  simp

/-- **The order of the list does not matter.** -/
theorem insertAll_perm {pairs pairs' : List (α × β)} (hnodup : (pairs.map Prod.fst).Nodup)
    (hperm : pairs.Perm pairs') : insertAll ∅ pairs = insertAll ∅ pairs' := by
  have hnodup' : (pairs'.map Prod.fst).Nodup := (hperm.map Prod.fst).nodup_iff.1 hnodup
  refine Std.ExtTreeMap.ext_getElem? fun k => Option.ext fun v => ?_
  rw [getElem?_insertAll_empty hnodup, getElem?_insertAll_empty hnodup', hperm.mem_iff]

end TreeMap
