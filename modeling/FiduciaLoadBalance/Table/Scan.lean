import FiduciaLoadBalance.Table.Invariant

/-!
# The slots a round-robin scan visits

One call of `any_node_excluding` makes as many turns as there are nodes, and takes
the slot of each turn from a wrapping 64-bit counter modulo the number of nodes.

* `anyNodeExcluding_eq_none_iff` — a call gives up exactly when every slot it
  visits holds an excluded node.
* `visited_iff` — while the counter stays below its maximum the slots visited are
  all the slots; a call during which it wraps starts again at slot 0, and the
  slots that come up neither before nor after are `Skipped`.
* `scan_misses_none_iff` — so a call misses a member exactly when every member
  that is not excluded sits at a skipped slot; `missesNone_of_le_or_dvd` says when
  no slot is skipped.
-/

namespace LoadBalance

namespace RouteTable

/-! ## Turn by turn -/

/-- The slot of one turn of a call that finds the counter at `cursor`. -/
def slot (n cursor turn : ℕ) : ℕ := (cursor + turn) % 2 ^ 64 % n

theorem slot_succ (n cursor turn : ℕ) :
    slot n ((cursor + 1) % 2 ^ 64) turn = slot n cursor (turn + 1) := by
  unfold slot
  rw [Nat.mod_add_mod, Nat.add_right_comm, Nat.add_assoc]

/-- The slot of a turn before the counter wraps, -/
theorem slot_of_lt {n cursor turn : ℕ} (h : cursor + turn < 2 ^ 64) :
    slot n cursor turn = (cursor + turn) % n := by
  rw [slot, Nat.mod_eq_of_lt h]

/-- and of one after it: the slots come up from 0 on. -/
theorem slot_of_wrapped {n cursor turn j : ℕ} (h : cursor + turn = 2 ^ 64 + j) (hj : j < n)
    (hn : n < 2 ^ 64) : slot n cursor turn = j := by
  have hvalue : (2 ^ 64 + j) % 2 ^ 64 = j := by omega
  rw [slot, h, hvalue, Nat.mod_eq_of_lt hj]

theorem slot_lt {n : ℕ} (hn : 0 < n) (cursor turn : ℕ) : slot n cursor turn < n :=
  Nat.mod_lt _ hn

/-- The cursor after a scan that found nothing. -/
theorem scan_none_cursor {nodes excluded : List String} {turns cursor c : ℕ}
    (h : scan nodes excluded (turns + 1) cursor = (none, c)) :
    c = (cursor + (turns + 1)) % 2 ^ 64 := by
  induction turns generalizing cursor with
  | zero =>
    rw [scan] at h
    split at h
    · rw [scan] at h
      exact (congrArg Prod.snd h).symm
    · exact absurd (congrArg Prod.fst h) (by simp)
  | succ turns ih =>
    rw [scan] at h
    split at h
    · rw [ih h]
      omega
    · exact absurd (congrArg Prod.fst h) (by simp)

theorem scan_eq_none_iff {nodes excluded : List String} (turns : ℕ) {cursor : ℕ}
    (hcursor : cursor < 2 ^ 64) :
    (scan nodes excluded turns cursor).1 = none ↔
      ∀ i < turns, nodes.getD (slot nodes.length cursor i) "" ∈ excluded := by
  induction turns generalizing cursor with
  | zero => simp [scan]
  | succ turns ih =>
    have hfirst : slot nodes.length cursor 0 = cursor % nodes.length := slot_of_lt hcursor
    have hnext : (cursor + 1) % 2 ^ 64 < 2 ^ 64 := Nat.mod_lt _ (by omega)
    rw [scan]
    split
    · rename_i hex
      rw [ih hnext]
      constructor
      · intro h i hi
        cases i with
        | zero => rwa [hfirst]
        | succ i =>
          rw [← slot_succ]
          exact h i (by omega)
      · intro h i hi
        rw [slot_succ]
        exact h (i + 1) (by omega)
    · rename_i hex
      constructor
      · intro h
        exact absurd h (by simp)
      · intro h
        have := h 0 (by omega)
        rw [hfirst] at this
        exact absurd this hex

/-- **When a call gives up**: every slot it visits holds an excluded node. -/
theorem anyNodeExcluding_eq_none_iff {t : RouteTable} {excluded : List String}
    (hcursor : t.cursor < 2 ^ 64) :
    (t.anyNodeExcluding excluded).1 = none ↔
      ∀ i < t.nodes.length,
        t.nodes.getD (slot t.nodes.length t.cursor i) "" ∈ excluded := by
  rw [anyNodeExcluding]
  split
  · rename_i hnil
    simp [hnil]
  · exact scan_eq_none_iff t.nodes.length hcursor

/-! ## Skipped slots -/

/-- Counting on from any number hits every remainder. -/
theorem exists_add_mod_eq {n j : ℕ} (hj : j < n) (cursor : ℕ) : ∃ i < n, (cursor + i) % n = j := by
  have hr : cursor % n < n := Nat.mod_lt _ (by omega)
  by_cases h : cursor % n ≤ j
  · refine ⟨j - cursor % n, by omega, ?_⟩
    rw [← Nat.mod_add_mod, Nat.add_sub_cancel' h, Nat.mod_eq_of_lt hj]
  · refine ⟨n + j - cursor % n, by omega, ?_⟩
    rw [← Nat.mod_add_mod, Nat.add_sub_cancel' (by omega), Nat.add_mod_left, Nat.mod_eq_of_lt hj]

/-- The slots that come up in no turn: the counter wraps, slot `j` is not among those
from 0 on that the turns after it reach, nor does a value before it lead there. -/
def Skipped (n cursor j : ℕ) : Prop :=
  cursor + n ≤ 2 ^ 64 + j ∧ 2 ^ 64 < cursor + n ∧ ∀ c, cursor ≤ c → c < 2 ^ 64 → c % n ≠ j

/-- **The slots visited** are those that are not skipped. -/
theorem visited_iff {n cursor j : ℕ} (hj : j < n) (hn : n < 2 ^ 64) (hcursor : cursor < 2 ^ 64) :
    (∃ i < n, slot n cursor i = j) ↔ ¬Skipped n cursor j := by
  constructor
  · rintro ⟨i, hi, hslot⟩ ⟨hafter, hwraps, hbefore⟩
    by_cases hwrap : cursor + i < 2 ^ 64
    · rw [slot_of_lt hwrap] at hslot
      exact hbefore (cursor + i) (by omega) hwrap hslot
    · have hvalue : cursor + i = 2 ^ 64 + (cursor + i - 2 ^ 64) := by omega
      rw [slot_of_wrapped hvalue (by omega) hn] at hslot
      omega
  · intro hskip
    by_cases hwraps : 2 ^ 64 < cursor + n
    · by_cases hafter : cursor + n ≤ 2 ^ 64 + j
      · -- the turns after the wrap do not reach `j`, so one before it does
        obtain ⟨c, hle, hlt, hc⟩ : ∃ c, cursor ≤ c ∧ c < 2 ^ 64 ∧ c % n = j := by
          by_contra hnone
          push Not at hnone
          exact hskip ⟨hafter, hwraps, hnone⟩
        have hturn : cursor + (c - cursor) = c := Nat.add_sub_cancel' hle
        refine ⟨c - cursor, by omega, ?_⟩
        rw [slot_of_lt (by omega), hturn, hc]
      · exact ⟨2 ^ 64 - cursor + j, by omega, slot_of_wrapped (by omega) hj hn⟩
    · obtain ⟨i, hi, hij⟩ := exists_add_mod_eq hj cursor
      refine ⟨i, hi, ?_⟩
      rw [slot_of_lt (by omega), hij]

/-- Nothing is skipped while the counter stays below its maximum. -/
theorem not_skipped_of_le {n cursor : ℕ} (h : cursor + n ≤ 2 ^ 64) (j : ℕ) :
    ¬Skipped n cursor j := fun hskip => absurd hskip.2.1 (by omega)

/-- Nothing is skipped where the number of nodes divides the number of counter values:
the counter wraps from the last slot to the first. -/
theorem not_skipped_of_dvd {n cursor j : ℕ} (hdvd : n ∣ 2 ^ 64) (hj : j < n) :
    ¬Skipped n cursor j := by
  rintro ⟨hafter, hwraps, hbefore⟩
  obtain ⟨k, hk⟩ := hdvd
  have hk : 2 ^ 64 = n * k := hk
  have hpos : 0 < k := Nat.pos_of_ne_zero fun h => by simp [h] at hk
  obtain ⟨k, rfl⟩ := Nat.exists_eq_succ_of_ne_zero hpos.ne'
  rw [Nat.mul_succ] at hk
  refine hbefore (n * k + j) (by omega) (by omega) ?_
  rw [Nat.mul_add_mod, Nat.mod_eq_of_lt hj]

/-! ## Members -/

/-- The scan misses no member: it answers a member outside the excluded set if there is
one, and gives up only when every member is excluded. -/
def MissesNone (t : RouteTable) (excluded : List String) : Prop :=
  ((∃ node ∈ t.nodes, node ∉ excluded) →
    ∃ node ∈ t.nodes, node ∉ excluded ∧ (t.anyNodeExcluding excluded).1 = some node) ∧
  ((t.anyNodeExcluding excluded).1 = none → ∀ node ∈ t.nodes, node ∈ excluded)

/-- A call answers where some slot that is not skipped holds a node that is not
excluded. -/
theorem anyNodeExcluding_isSome_iff {t : RouteTable} {excluded : List String}
    (hlen : t.nodes.length < 2 ^ 64) (hcursor : t.cursor < 2 ^ 64) :
    (t.anyNodeExcluding excluded).1.isSome ↔
      ∃ j node, t.nodes[j]? = some node ∧ node ∉ excluded ∧
        ¬Skipped t.nodes.length t.cursor j := by
  rw [← not_iff_not, Option.not_isSome_iff_eq_none, anyNodeExcluding_eq_none_iff hcursor]
  constructor
  · rintro h ⟨j, node, hnode, hex, hskip⟩
    obtain ⟨hj, rfl⟩ := List.getElem?_eq_some_iff.1 hnode
    obtain ⟨i, hi, rfl⟩ := (visited_iff hj hlen hcursor).2 hskip
    have := h i hi
    rw [List.getD_eq_getElem _ _ hj] at this
    exact hex this
  · intro h i hi
    have hj : slot t.nodes.length t.cursor i < t.nodes.length :=
      slot_lt (by omega) t.cursor i
    by_contra hex
    rw [List.getD_eq_getElem _ _ hj] at hex
    exact h ⟨_, _, List.getElem?_eq_getElem hj, hex, (visited_iff hj hlen hcursor).1 ⟨i, hi, rfl⟩⟩

theorem missesNone_iff {t : RouteTable} {excluded : List String} :
    t.MissesNone excluded ↔
      ((∃ node ∈ t.nodes, node ∉ excluded) → (t.anyNodeExcluding excluded).1.isSome) := by
  obtain ⟨-, -, hanswer⟩ := anyNodeExcluding_cases t excluded
  constructor
  · intro h hleft
    obtain ⟨node, -, -, hsome⟩ := h.1 hleft
    rw [hsome, Option.isSome_some]
  · intro h
    refine ⟨fun hleft => ?_, fun hnone node hnode => ?_⟩
    · obtain ⟨node, hsome⟩ := Option.isSome_iff_exists.1 (h hleft)
      obtain ⟨hmem, hex⟩ := hanswer node hsome
      exact ⟨node, hmem, hex, hsome⟩
    · by_contra hex
      have hsome := h ⟨node, hnode, hex⟩
      rw [hnone] at hsome
      exact absurd hsome (by simp)

/-- A scan that skips no slot misses no member: so it is while the counter stays below
its maximum, and for a number of nodes that divides `2 ^ 64`. -/
theorem missesNone_of_le_or_dvd {t : RouteTable} (excluded : List String)
    (hlen : t.nodes.length < 2 ^ 64) (hcursor : t.cursor < 2 ^ 64)
    (h : t.cursor + t.nodes.length ≤ 2 ^ 64 ∨ t.nodes.length ∣ 2 ^ 64) :
    t.MissesNone excluded := by
  rw [missesNone_iff, anyNodeExcluding_isSome_iff hlen hcursor]
  rintro ⟨node, hnode, hex⟩
  obtain ⟨j, hj, rfl⟩ := List.getElem_of_mem hnode
  refine ⟨j, _, List.getElem?_eq_getElem hj, hex, ?_⟩
  rcases h with hle | hdvd
  · exact not_skipped_of_le hle j
  · exact not_skipped_of_dvd hdvd hj

/-- **A scan gives up only when every node is excluded**, as long as the cursor does not
pass its maximum. -/
theorem anyNodeExcluding_none {t : RouteTable} {excluded : List String}
    (hlen : t.nodes.length < 2 ^ 64) (hcursor : t.cursor ≤ (t.anyNodeExcluding excluded).2.cursor)
    (h : (t.anyNodeExcluding excluded).1 = none) : t.nodes ⊆ excluded := by
  by_cases hne : t.nodes = []
  · rw [hne]
    exact List.nil_subset _
  · obtain ⟨turns, hturns⟩ := Nat.exists_eq_succ_of_ne_zero (mt List.length_eq_zero_iff.1 hne)
    have hafter : (t.anyNodeExcluding excluded).2.cursor =
        (t.cursor + t.nodes.length) % 2 ^ 64 := by
      rw [anyNodeExcluding, if_neg hne] at h ⊢
      rw [hturns] at h ⊢
      exact scan_none_cursor (Prod.ext h rfl)
    rw [hafter] at hcursor
    have hmisses := missesNone_of_le_or_dvd excluded hlen (by omega) (Or.inl (by omega))
    exact hmisses.2 h

/-- **The scan misses no member exactly when the wrapping counter skips not every
member that is left.**  For a list whose length does not divide `2 ^ 64`, a call
during which the counter wraps visits some slots twice and others never. -/
theorem scan_misses_none_iff (t : RouteTable) (excluded : List String)
    (hlen : t.nodes.length < 2 ^ 64) (hcursor : t.cursor < 2 ^ 64) :
    t.MissesNone excluded ↔
      ((∃ node ∈ t.nodes, node ∉ excluded) →
        ∃ j node, t.nodes[j]? = some node ∧ node ∉ excluded ∧
          ¬Skipped t.nodes.length t.cursor j) := by
  rw [missesNone_iff, anyNodeExcluding_isSome_iff hlen hcursor]

/-- Three nodes and a counter at its maximum. -/
def lastTurn : RouteTable where
  shardCount := 1
  nodes := ["http://a:1", "http://b:1", "http://c:1"]
  nodeMetadata := ∅
  leaders := ∅
  leaderHints := ∅
  regionRequests := ∅
  cursor := 2 ^ 64 - 1

/-- Only the last slot is skipped, so a member is found as long as one of the others is left. -/
theorem scan_misses_none_lastTurn : lastTurn.MissesNone ["http://a:1"] :=
  (scan_misses_none_iff lastTurn ["http://a:1"] (by decide) (by decide)).2 fun _ =>
    ⟨1, "http://b:1", rfl, by decide, fun hskip => absurd hskip.1 (by decide)⟩

/-- The third node was never tried, and is never found: the turns are at slots 0, 0
and 1. -/
theorem not_scan_misses_none :
    ¬∀ (t : RouteTable) (excluded : List String), t.nodes ≠ [] → t.nodes.Nodup →
      t.nodes.length < 2 ^ 64 → t.cursor < 2 ^ 64 → t.MissesNone excluded := by
  intro h
  have hall := (h lastTurn ["http://a:1", "http://b:1"] (by decide) (by decide) (by decide)
    (by decide)).2 (by decide)
  exact absurd (hall "http://c:1" (by decide)) (by decide)

end RouteTable

end LoadBalance
