import FiduciaLoadBalance.Revocation.Cache
import FiduciaLoadBalance.Data.TreeMap

/-!
# A bounded cache is a window on an unbounded one

The cache of decisions holds at most so many entries.  What it does hold is what a cache
without a bound would hold, and what it forgets is what was observed first.

* `Section` — the critical sections as the cache's methods write them, with what they leave
  behind when they give up; `on_lookup` and its like say that they are those of the cache.
* `Performs`, `Runs` — one operation, and any sequence of them from a new cache.
* `unbounded` — what a cache without a bound would hold.
* `Window`, `WindowStep` — what is so after any sequence, and of the operation that follows it:
  `bounded_window`.
-/

namespace LoadBalance

namespace Revocation

/-! ## The methods -/

/-- A critical section on the cache: it returns, or it gives up, and in both cases there is
a cache that it leaves behind. -/
abbrev Section (α : Type) : Type := ExceptT Unit (StateM RevocationCache) α

namespace Section

/-- What a section returns from this cache, and the cache that it leaves behind. -/
def on {α : Type} (body : Section α) (cache : RevocationCache) :
    Except Unit α × RevocationCache :=
  body.run.run cache

def advance (now : ℕ) : Section Unit := do
  let cache ← get
  if now < cache.highWater then
    throw ()
  set { cache with highWater := now }

def lookup (key : String) (now : ℕ) : Section Lookup := do
  advance now
  let cache ← get
  match cache.entries[key]? with
  | some entry =>
    if now - entry.observedAt ≤ cache.freshnessBudgetSecs then
      return .fresh entry.decision
    else
      return .stale
  | none => return .miss

def recordRefreshStart (now : ℕ) : Section Unit := advance now

/-- Record a decision; `victim` is the entry evicted if the cache is full. -/
def apply (victim key : String) (decision : Decision) (now : ℕ) : Section Unit := do
  advance now
  let cache ← get
  if !cache.entries.contains key && cache.capacity ≤ cache.entries.size then
    set { cache with entries := cache.entries.erase victim }
  modify fun cache =>
    { cache with entries := cache.entries.insert key { decision, observedAt := now } }

end Section

/-- The outcome of a section that keeps the cache it was given where there is nothing else. -/
def outcome {α : Type} (cache : RevocationCache) :
    Option (α × RevocationCache) → Except Unit α × RevocationCache
  | none => (.error (), cache)
  | some (value, cache') => (.ok value, cache')

section

variable {cache cache' : RevocationCache} {key victim : String} {decision : Decision} {now : ℕ}

theorem on_get (cache : RevocationCache) :
    (get : Section RevocationCache).on cache = (.ok cache, cache) := rfl

theorem on_set (cache cache' : RevocationCache) :
    (set cache' : Section Unit).on cache = (.ok (), cache') := rfl

theorem on_bind_ok {α β : Type} {body : Section α} {a : α} (h : body.on cache = (.ok a, cache'))
    (f : α → Section β) : (body >>= f).on cache = (f a).on cache' := by
  show (ExceptT.bindCont f (body.on cache).1) (body.on cache).2 = _
  rw [h]
  rfl

theorem on_bind_error {α β : Type} {body : Section α} (h : body.on cache = (.error (), cache'))
    (f : α → Section β) : (body >>= f).on cache = (.error (), cache') := by
  show (ExceptT.bindCont f (body.on cache).1) (body.on cache).2 = _
  rw [h]
  rfl

theorem on_advance_lt (hlt : now < cache.highWater) :
    (Section.advance now).on cache = (.error (), cache) := by
  unfold Section.advance
  rw [on_bind_ok (on_get cache), if_pos hlt]
  rfl

theorem on_advance_le (hle : cache.highWater ≤ now) :
    (Section.advance now).on cache = (.ok (), { cache with highWater := now }) := by
  unfold Section.advance
  rw [on_bind_ok (on_get cache), if_neg (not_lt.2 hle)]
  rfl

/-- The methods are the critical sections of the cache, and giving up changes nothing. -/
theorem on_lookup : (Section.lookup key now).on cache = outcome cache (cache.lookup key now) := by
  unfold Section.lookup RevocationCache.lookup
  rcases lt_or_ge now cache.highWater with hlt | hle
  · rw [on_bind_error (on_advance_lt hlt), RevocationCache.advance_eq_none.2 hlt]
    rfl
  · rw [on_bind_ok (on_advance_le hle), RevocationCache.advance_eq_some.2 ⟨hle, rfl⟩,
      on_bind_ok (on_get _)]
    show (Section.on _ _) = (.ok _, _)
    dsimp only
    rcases cache.entries[key]? with _ | entry
    · rfl
    · dsimp only
      split <;> rfl

theorem on_recordRefreshStart : (Section.recordRefreshStart now).on cache =
    outcome cache ((cache.recordRefreshStart now).map fun cache' => ((), cache')) := by
  unfold Section.recordRefreshStart RevocationCache.recordRefreshStart
  rcases lt_or_ge now cache.highWater with hlt | hle
  · rw [on_advance_lt hlt, RevocationCache.advance_eq_none.2 hlt]
    rfl
  · rw [on_advance_le hle, RevocationCache.advance_eq_some.2 ⟨hle, rfl⟩]
    rfl

theorem on_apply : (Section.apply victim key decision now).on cache =
    outcome cache ((cache.apply victim key decision now).map fun cache' => ((), cache')) := by
  unfold Section.apply RevocationCache.apply
  rcases lt_or_ge now cache.highWater with hlt | hle
  · rw [on_bind_error (on_advance_lt hlt), RevocationCache.advance_eq_none.2 hlt]
    rfl
  · rw [on_bind_ok (on_advance_le hle), RevocationCache.advance_eq_some.2 ⟨hle, rfl⟩,
      on_bind_ok (on_get _)]
    unfold RevocationCache.evicts
    dsimp only [Option.map_some]
    split
    · rw [on_bind_ok (on_set _ _)]
      rfl
    · rfl

end

/-! ## Sequences of operations -/

/-- An operation on the cache, and the second it is at. -/
inductive Operation : Type
  | lookup (key : String) (now : ℕ)
  | recordRefreshStart (now : ℕ)
  | apply (key : String) (decision : Decision) (now : ℕ)
deriving DecidableEq

/-- What an operation returns if it does not give up. -/
inductive Returned : Type
  | found (lookup : Lookup)
  | done
deriving DecidableEq

namespace Operation

def now : Operation → ℕ
  | lookup _ now => now
  | recordRefreshStart now => now
  | apply _ _ now => now

/-- The method of an operation. -/
def body (victim : String) : Operation → Section Returned
  | lookup key now => Returned.found <$> Section.lookup key now
  | recordRefreshStart now => (fun _ => Returned.done) <$> Section.recordRefreshStart now
  | apply key decision now => (fun _ => Returned.done) <$> Section.apply victim key decision now

end Operation

/-- The operation is performed: any of the entries observed first may be the one evicted. -/
def Performs (cache : RevocationCache) (op : Operation) (result : Except Unit Returned)
    (cache' : RevocationCache) : Prop :=
  ∃ victim, (victim ∈ cache.oldest ∨ cache.entries = ∅) ∧
    (op.body victim).on cache = (result, cache')

/-- What was done to a cache, and what came back. -/
abbrev Past : Type := List (Operation × Except Unit Returned)

/-- A sequence of operations on a new cache. -/
inductive Runs (freshnessBudgetSecs capacity : ℕ) : Past → RevocationCache → Prop
  | new : Runs freshnessBudgetSecs capacity []
      (RevocationCache.new freshnessBudgetSecs capacity)
  | perform {past : Past} {cache cache' : RevocationCache} {op : Operation}
      {result : Except Unit Returned} (hrun : Runs freshnessBudgetSecs capacity past cache)
      (hop : Performs cache op result cache') :
      Runs freshnessBudgetSecs capacity (past ++ [(op, result)]) cache'

/-- What is known of the keys after one more operation if nothing is ever evicted. -/
def learn (known : String → Option Entry) :
    Operation × Except Unit Returned → String → Option Entry
  | (.apply key decision now, .ok _) =>
    Function.update known key (some { decision, observedAt := now })
  | _ => known

/-- **The unbounded cache**: of each key the decision of the latest apply that did not give
up, and its second. -/
def unbounded (past : Past) : String → Option Entry := past.foldl learn fun _ => none

theorem unbounded_concat (past : Past) (op : Operation) (result : Except Unit Returned) :
    unbounded (past ++ [(op, result)]) = learn (unbounded past) (op, result) := by
  rw [unbounded, List.foldl_append]
  rfl

/-! ## What one operation does -/

theorem on_map {α β : Type} (f : α → β) (body : Section α) (cache : RevocationCache) :
    (f <$> body).on cache = ((body.on cache).1.map f, (body.on cache).2) := by
  rcases h : body.on cache with ⟨result, cache'⟩
  cases result with
  | error e => exact on_bind_error h _
  | ok value => exact on_bind_ok h _

variable {cache cache' : RevocationCache} {op : Operation} {result : Except Unit Returned}
  {budget capacity : ℕ} {past : Past}

/-- **What an operation does**: it gives up and changes nothing, or it is one of the three
critical sections of the cache. -/
theorem performs_cases (hop : Performs cache op result cache') :
    (op.now < cache.highWater ∧ result = .error () ∧ cache' = cache) ∨
    (∃ key now found, op = .lookup key now ∧ cache.lookup key now = some (found, cache') ∧
      result = .ok (.found found)) ∨
    (∃ now, op = .recordRefreshStart now ∧ cache.recordRefreshStart now = some cache' ∧
      result = .ok .done) ∨
    ∃ key decision now victim, op = .apply key decision now ∧
      (victim ∈ cache.oldest ∨ cache.entries = ∅) ∧
      cache.apply victim key decision now = some cache' ∧ result = .ok .done := by
  obtain ⟨victim, hvictim, hbody⟩ := hop
  cases op with
  | lookup key now =>
    rw [Operation.body, on_map, on_lookup] at hbody
    cases hfound : cache.lookup key now with
    | none =>
      rw [hfound] at hbody
      obtain ⟨rfl, rfl⟩ := Prod.mk.inj hbody
      exact Or.inl ⟨RevocationCache.lookup_eq_none.1 hfound, rfl, rfl⟩
    | some found =>
      rw [hfound] at hbody
      obtain ⟨rfl, rfl⟩ := Prod.mk.inj hbody
      exact Or.inr (Or.inl ⟨key, now, found.1, rfl, hfound, rfl⟩)
  | recordRefreshStart now =>
    rw [Operation.body, on_map, on_recordRefreshStart] at hbody
    cases htouched : cache.recordRefreshStart now with
    | none =>
      rw [htouched] at hbody
      obtain ⟨rfl, rfl⟩ := Prod.mk.inj hbody
      exact Or.inl ⟨RevocationCache.advance_eq_none.1 htouched, rfl, rfl⟩
    | some touched =>
      rw [htouched] at hbody
      obtain ⟨rfl, rfl⟩ := Prod.mk.inj hbody
      exact Or.inr (Or.inr (Or.inl ⟨now, rfl, htouched, rfl⟩))
  | apply key decision now =>
    rw [Operation.body, on_map, on_apply] at hbody
    cases happlied : cache.apply victim key decision now with
    | none =>
      rw [happlied] at hbody
      obtain ⟨rfl, rfl⟩ := Prod.mk.inj hbody
      exact Or.inl ⟨RevocationCache.apply_eq_none.1 happlied, rfl, rfl⟩
    | some applied =>
      rw [happlied] at hbody
      obtain ⟨rfl, rfl⟩ := Prod.mk.inj hbody
      exact Or.inr (Or.inr (Or.inr ⟨key, decision, now, victim, rfl, hvictim, happlied, rfl⟩))

theorem recordRefreshStart_eq_some {now : ℕ} (h : cache.recordRefreshStart now = some cache') :
    cache.highWater ≤ now ∧ cache' = { cache with highWater := now } :=
  RevocationCache.advance_eq_some.1 h

/-- The cache after a decision was recorded. -/
theorem apply_eq {victim key : String} {decision : Decision} {now : ℕ}
    (h : cache.apply victim key decision now = some cache') :
    cache' = { cache with
      highWater := now
      entries := (if cache.evicts key then cache.entries.erase victim else cache.entries).insert
        key { decision, observedAt := now } } := by
  obtain ⟨touched, htouched, rfl⟩ := Option.map_eq_some_iff.1 h
  obtain ⟨-, rfl⟩ := RevocationCache.advance_eq_some.1 htouched
  rfl

/-- Before its latest second the cache is not touched. -/
theorem performs_of_lt (hop : Performs cache op result cache') (hlt : op.now < cache.highWater) :
    result = .error () ∧ cache' = cache := by
  rcases performs_cases hop with ⟨-, hgave⟩ | ⟨key, now, found, rfl, hlookup, -⟩ |
    ⟨now, rfl, hrecord, -⟩ | ⟨key, decision, now, victim, rfl, -, happly, -⟩
  · exact hgave
  · exact absurd hlt (not_lt.2 (RevocationCache.lookup_eq_some hlookup).1)
  · exact absurd hlt (not_lt.2 (recordRefreshStart_eq_some hrecord).1)
  · exact absurd hlt (not_lt.2 (RevocationCache.apply_eq_some happly).1)

/-- From then on it is touched, and the second is its latest. -/
theorem performs_of_le (hop : Performs cache op result cache') (hle : cache.highWater ≤ op.now) :
    cache'.highWater = op.now ∧ cache'.freshnessBudgetSecs = cache.freshnessBudgetSecs ∧
      cache'.capacity = cache.capacity ∧ ∃ value, result = .ok value := by
  rcases performs_cases hop with ⟨hlt, -⟩ | ⟨key, now, found, rfl, hlookup, rfl⟩ |
    ⟨now, rfl, hrecord, rfl⟩ | ⟨key, decision, now, victim, rfl, -, happly, rfl⟩
  · exact absurd hle (not_le.2 hlt)
  · rw [(RevocationCache.lookup_eq_some hlookup).2]
    exact ⟨rfl, rfl, rfl, _, rfl⟩
  · rw [(recordRefreshStart_eq_some hrecord).2]
    exact ⟨rfl, rfl, rfl, _, rfl⟩
  · rw [apply_eq happly]
    exact ⟨rfl, rfl, rfl, _, rfl⟩

theorem oldest_eq (cache : RevocationCache) :
    cache.oldest = TreeMap.least Entry.observedAt cache.entries := rfl

/-- **Any operation can be performed.** -/
theorem exists_performs (cache : RevocationCache) (op : Operation) :
    ∃ result cache', Performs cache op result cache' := by
  by_cases hempty : cache.entries = ∅
  · exact ⟨_, _, "", Or.inr hempty, rfl⟩
  · obtain ⟨victim, hvictim⟩ := TreeMap.exists_mem_least Entry.observedAt hempty
    rw [← oldest_eq] at hvictim
    exact ⟨_, _, victim, Or.inl hvictim, rfl⟩

/-! ## What is so after any sequence -/

/-- The cache is a window on the unbounded one. -/
structure Window (budget capacity : ℕ) (past : Past) (cache : RevocationCache) : Prop where
  /-- Both settings are at least one. -/
  freshnessBudgetSecs_eq : cache.freshnessBudgetSecs = max budget 1
  capacity_eq : cache.capacity = max capacity 1
  size_le : cache.entries.size ≤ max capacity 1
  observedAt_le : ∀ (key : String) (entry : Entry), cache.entries[key]? = some entry →
    entry.observedAt ≤ cache.highWater
  unbounded_eq : ∀ (key : String) (entry : Entry), cache.entries[key]? = some entry →
    unbounded past key = some entry

namespace Window

theorem new (budget capacity : ℕ) :
    Window budget capacity [] (RevocationCache.new budget capacity) where
  freshnessBudgetSecs_eq := rfl
  capacity_eq := rfl
  size_le := by
    show (∅ : Std.ExtTreeMap String Entry).size ≤ _
    rw [Std.ExtTreeMap.size_empty]
    exact Nat.zero_le _
  observedAt_le := by
    intro key entry hentry
    exact absurd hentry (by simp [RevocationCache.new])
  unbounded_eq := by
    intro key entry hentry
    exact absurd hentry (by simp [RevocationCache.new])

variable {budget capacity : ℕ} {past : Past} {cache cache' : RevocationCache} {op : Operation}
  {result : Except Unit Returned}

/-- A full cache holds something. -/
theorem mem_of_evicts (hwindow : Window budget capacity past cache) {key victim : String}
    (hvictim : victim ∈ cache.oldest ∨ cache.entries = ∅) (hevicts : cache.evicts key = true) :
    victim ∈ TreeMap.least Entry.observedAt cache.entries := by
  rw [oldest_eq] at hvictim
  refine hvictim.resolve_right ?_
  intro hempty
  have hfull : cache.capacity ≤ cache.entries.size := by
    rw [RevocationCache.evicts, Bool.and_eq_true] at hevicts
    exact of_decide_eq_true hevicts.2
  rw [hempty, Std.ExtTreeMap.size_empty, hwindow.capacity_eq] at hfull
  omega

/-- **A full cache makes room** before it takes an entry. -/
theorem size_apply (hwindow : Window budget capacity past cache) {victim key : String}
    {entry : Entry} (hvictim : victim ∈ cache.oldest ∨ cache.entries = ∅) :
    ((if cache.evicts key then cache.entries.erase victim else cache.entries).insert
      key entry).size ≤ max capacity 1 := by
  have hsize := hwindow.size_le
  by_cases hevicts : cache.evicts key = true
  · have hmem := TreeMap.mem_of_mem_least (hwindow.mem_of_evicts hvictim hevicts)
    have hinsert := Std.ExtTreeMap.size_insert_le (t := cache.entries.erase victim) (k := key)
      (v := entry)
    rw [Std.ExtTreeMap.size_erase, if_pos (Std.ExtTreeMap.mem_iff_contains.1 hmem)] at hinsert
    rw [if_pos hevicts]
    omega
  · rw [if_neg hevicts, Std.ExtTreeMap.size_insert]
    split
    · exact hsize
    · rename_i hnew
      have hroom : ¬cache.capacity ≤ cache.entries.size := by
        intro hfull
        refine hevicts ?_
        rw [RevocationCache.evicts, Bool.and_eq_true, Bool.not_eq_true', decide_eq_true_iff]
        exact ⟨Bool.eq_false_iff.2 fun hc => hnew hc, hfull⟩
      rw [hwindow.capacity_eq] at hroom
      omega

/-- **One more operation.** -/
theorem perform (hwindow : Window budget capacity past cache)
    (hop : Performs cache op result cache') :
    Window budget capacity (past ++ [(op, result)]) cache' := by
  rcases performs_cases hop with ⟨-, rfl, rfl⟩ | ⟨key, now, found, rfl, hlookup, rfl⟩ |
    ⟨now, rfl, hrecord, rfl⟩ | ⟨key, decision, now, victim, rfl, hvictim, happly, rfl⟩
  · refine { hwindow with unbounded_eq := ?_ }
    intro key entry hentry
    rw [unbounded_concat]
    cases op <;> exact hwindow.unbounded_eq key entry hentry
  · obtain ⟨hle, rfl⟩ := RevocationCache.lookup_eq_some hlookup
    refine { hwindow with
      observedAt_le := fun key entry hentry => (hwindow.observedAt_le key entry hentry).trans hle
      unbounded_eq := ?_ }
    rw [unbounded_concat]
    exact hwindow.unbounded_eq
  · obtain ⟨hle, rfl⟩ := recordRefreshStart_eq_some hrecord
    refine { hwindow with
      observedAt_le := fun key entry hentry => (hwindow.observedAt_le key entry hentry).trans hle
      unbounded_eq := ?_ }
    rw [unbounded_concat]
    exact hwindow.unbounded_eq
  · obtain ⟨hle, hhigh, hbudget, hself, hothers⟩ := RevocationCache.apply_eq_some happly
    have hcache' := apply_eq happly
    refine ⟨hbudget.trans hwindow.freshnessBudgetSecs_eq, ?_, ?_, ?_, ?_⟩
    · rw [hcache']
      exact hwindow.capacity_eq
    · rw [hcache']
      exact hwindow.size_apply hvictim
    · -- the entry just recorded is of this second, the others are older ones
      intro key' entry hentry
      rw [hhigh]
      by_cases hkey : key' = key
      · rw [hkey, hself] at hentry
        rw [← Option.some.inj hentry]
      · exact (hwindow.observedAt_le key' entry (hothers key' entry hkey hentry)).trans hle
    · intro key' entry hentry
      rw [unbounded_concat, learn]
      by_cases hkey : key' = key
      · rw [hkey, hself] at hentry
        rw [hkey, Function.update_self, hentry]
      · rw [Function.update_of_ne hkey]
        exact hwindow.unbounded_eq key' entry (hothers key' entry hkey hentry)

/-- **After any sequence of operations** the cache is a window on the unbounded one. -/
theorem of_runs (hrun : Runs budget capacity past cache) : Window budget capacity past cache := by
  induction hrun with
  | new => exact Window.new budget capacity
  | perform _ hop ih => exact ih.perform hop

end Window

/-! ## What the next operation does -/

/-- The operation is one of a window on the unbounded cache. -/
structure WindowStep (budget capacity : ℕ) (past : Past) (cache : RevocationCache) (op : Operation)
    (result : Except Unit Returned) (cache' : RevocationCache) : Prop where
  highWater_le : cache.highWater ≤ cache'.highWater
  /-- Before the latest second the operation gives up and changes nothing. -/
  refused : op.now < cache.highWater → result = .error () ∧ cache' = cache
  /-- It does not give up otherwise. -/
  accepted : cache.highWater ≤ op.now → ∃ value, result = .ok value
  /-- A fresh decision is that of the latest apply for the key, within the budget, which is one
  where it was set to zero. -/
  fresh : ∀ key now decision, op = .lookup key now →
    result = .ok (.found (.fresh decision)) → ∃ observedAt,
      unbounded past key = some { decision, observedAt } ∧ observedAt ≤ now ∧
        now - observedAt ≤ max budget 1
  /-- To decide on a key that is present evicts nothing. -/
  present : ∀ key decision now, op = .apply key decision now → key ∈ cache.entries →
    ∀ key', key' ≠ key → cache'.entries[key']? = cache.entries[key']?
  /-- An entry is evicted to make room for another key in a full cache; it is one of those
  observed first, and it is the only one. -/
  evicted : ∀ (victim : String) (entry : Entry), cache.entries[victim]? = some entry →
    victim ∉ cache'.entries → ∃ key decision now, op = .apply key decision now ∧
      key ≠ victim ∧ key ∉ cache.entries ∧ cache.entries.size = max capacity 1 ∧
      (∀ (key' : String) (entry' : Entry), cache.entries[key']? = some entry' →
        entry.observedAt ≤ entry'.observedAt) ∧
      ∀ key', key' ≠ victim → key' ≠ key → cache'.entries[key']? = cache.entries[key']?

theorem performs_highWater_le (hop : Performs cache op result cache') :
    cache.highWater ≤ cache'.highWater := by
  rcases lt_or_ge op.now cache.highWater with hlt | hle
  · rw [(performs_of_lt hop hlt).2]
  · rw [(performs_of_le hop hle).1]
    exact hle

/-- Only an apply changes the entries. -/
theorem performs_entries (hop : Performs cache op result cache') :
    cache'.entries = cache.entries ∨ ∃ key decision now victim, op = .apply key decision now ∧
      (victim ∈ cache.oldest ∨ cache.entries = ∅) ∧
      cache'.entries = (if cache.evicts key then cache.entries.erase victim
        else cache.entries).insert key { decision, observedAt := now } := by
  rcases performs_cases hop with ⟨-, -, rfl⟩ | ⟨key, now, found, rfl, hlookup, -⟩ |
    ⟨now, rfl, hrecord, -⟩ | ⟨key, decision, now, victim, rfl, hvictim, happly, -⟩
  · exact Or.inl rfl
  · rw [(RevocationCache.lookup_eq_some hlookup).2]
    exact Or.inl rfl
  · rw [(recordRefreshStart_eq_some hrecord).2]
    exact Or.inl rfl
  · rw [apply_eq happly]
    exact Or.inr ⟨key, decision, now, victim, rfl, hvictim, rfl⟩

namespace Window

theorem fresh (hwindow : Window budget capacity past cache) {key : String} {now : ℕ}
    {decision : Decision} (hop : Performs cache (.lookup key now) result cache')
    (hfresh : result = .ok (.found (.fresh decision))) :
    ∃ observedAt, unbounded past key = some { decision, observedAt } ∧ observedAt ≤ now ∧
      now - observedAt ≤ max budget 1 := by
  rcases performs_cases hop with ⟨-, rfl, -⟩ | ⟨key', now', found, heq, hlookup, rfl⟩ |
    ⟨now', heq, -⟩ | ⟨key', decision', now', victim, heq, -⟩
  · exact absurd hfresh (by simp)
  · obtain ⟨rfl, rfl⟩ := Operation.lookup.inj heq
    obtain rfl := Returned.found.inj (Except.ok.inj hfresh)
    obtain ⟨hle, -⟩ := RevocationCache.lookup_eq_some hlookup
    obtain ⟨entry, hentry, rfl, hbudget⟩ := RevocationCache.lookup_eq_fresh hlookup
    rw [hwindow.freshnessBudgetSecs_eq] at hbudget
    exact ⟨entry.observedAt, hwindow.unbounded_eq key entry hentry,
      (hwindow.observedAt_le key entry hentry).trans hle, hbudget⟩
  · exact absurd heq (by simp)
  · exact absurd heq (by simp)

/-- **An entry that is lost** was evicted for another key. -/
theorem evicted (hwindow : Window budget capacity past cache)
    (hop : Performs cache op result cache') {victim : String} {entry : Entry}
    (hentry : cache.entries[victim]? = some entry) (hlost : victim ∉ cache'.entries) :
    ∃ key decision now, op = .apply key decision now ∧ key ≠ victim ∧ key ∉ cache.entries ∧
      cache.entries.size = max capacity 1 ∧
      (∀ (key' : String) (entry' : Entry), cache.entries[key']? = some entry' →
        entry.observedAt ≤ entry'.observedAt) ∧
      ∀ key', key' ≠ victim → key' ≠ key → cache'.entries[key']? = cache.entries[key']? := by
  have hheld : victim ∈ cache.entries := TreeMap.mem_iff_exists.2 ⟨entry, hentry⟩
  rcases performs_entries hop with hentries | ⟨key, decision, now, chosen, rfl, hchosen, hentries⟩
  · rw [hentries] at hlost
    exact absurd hheld hlost
  · rw [hentries, TreeMap.mem_insert_iff, not_or] at hlost
    obtain ⟨hother, hgone⟩ := hlost
    by_cases hevicts : cache.evicts key = true
    · rw [if_pos hevicts] at hgone hentries
      -- what was taken out is the chosen key, which has the least second
      have hvictim : victim = chosen := by
        by_contra hne
        refine hgone (TreeMap.mem_iff_exists.2 ⟨entry, ?_⟩)
        rw [TreeMap.getElem?_erase_eq, if_neg hne, hentry]
      subst hvictim
      obtain ⟨least, hleast, hfirst⟩ :=
        TreeMap.mem_least.1 (hwindow.mem_of_evicts hchosen hevicts)
      obtain rfl : entry = least := Option.some.inj (hentry.symm.trans hleast)
      rw [RevocationCache.evicts, Bool.and_eq_true, Bool.not_eq_true', decide_eq_true_iff]
        at hevicts
      obtain ⟨hnew, hfull⟩ := hevicts
      rw [hwindow.capacity_eq] at hfull
      refine ⟨key, decision, now, rfl, Ne.symm hother, ?_, hwindow.size_le.antisymm hfull, hfirst,
        ?_⟩
      · rw [Std.ExtTreeMap.mem_iff_contains, hnew]
        exact Bool.false_ne_true
      · intro key' hne hne'
        rw [hentries, TreeMap.getElem?_insert_eq, if_neg hne', TreeMap.getElem?_erase_eq,
          if_neg hne]
    · rw [if_neg hevicts] at hgone
      exact absurd hheld hgone

/-- **The next operation** on a window is one of a window. -/
theorem windowStep (hwindow : Window budget capacity past cache)
    (hop : Performs cache op result cache') :
    WindowStep budget capacity past cache op result cache' where
  highWater_le := performs_highWater_le hop
  refused := performs_of_lt hop
  accepted hle := (performs_of_le hop hle).2.2.2
  fresh := by
    rintro key now decision rfl hfresh
    exact hwindow.fresh hop hfresh
  present := by
    rintro key decision now rfl hmem key' hne
    rcases performs_entries hop with hentries | ⟨_, _, _, victim, heq, -, hentries⟩
    · rw [hentries]
    · obtain ⟨rfl, rfl, rfl⟩ := Operation.apply.inj heq
      have hkeeps : ¬cache.evicts key = true := by
        rw [RevocationCache.evicts, Std.ExtTreeMap.mem_iff_contains.1 hmem]
        exact Bool.false_ne_true
      rw [hentries, if_neg hkeeps, TreeMap.getElem?_insert_eq, if_neg hne]
  evicted := fun _ _ hentry hlost => hwindow.evicted hop hentry hlost

end Window

/-- **A bounded cache is a window on an unbounded one**: for every freshness budget and every
capacity (one in place of zero) and every sequence of operations at any seconds, the cache
holds no more than its capacity and nothing that the unbounded one would not hold, every
operation can follow, and whichever follows is one of a window. -/
theorem bounded_window (hrun : Runs budget capacity past cache) :
    Window budget capacity past cache ∧ (∀ op, ∃ result cache', Performs cache op result cache') ∧
      ∀ op result cache', Performs cache op result cache' →
        WindowStep budget capacity past cache op result cache' :=
  have hwindow := Window.of_runs hrun
  ⟨hwindow, exists_performs cache, fun _ _ _ hop => hwindow.windowStep hop⟩

namespace Sample

/-- A cache of one entry, after the decision on `a` made room for the one on `b`. -/
def one : RevocationCache :=
  { RevocationCache.new 3 1 with
    entries := (∅ : Std.ExtTreeMap String Entry).insert "a" { decision := .allow, observedAt := 5 }
    highWater := 5 }

def other : RevocationCache :=
  { one with
    entries := (one.entries.erase "a").insert "b" { decision := .deny, observedAt := 7 }
    highWater := 7 }

theorem runs_other : Runs 3 1
    [(.apply "a" .allow 5, .ok .done), (.apply "b" .deny 7, .ok .done)] other := by
  have hfirst : Performs (RevocationCache.new 3 1) (.apply "a" .allow 5) (.ok .done) one :=
    ⟨"", Or.inr rfl, rfl⟩
  have hsecond : Performs one (.apply "b" .deny 7) (.ok .done) other :=
    ⟨"a", Or.inl (by decide +kernel), rfl⟩
  exact .perform (.perform .new hfirst) hsecond

end Sample

/-- A cache of one entry that has evicted one. -/
theorem bounded_window_other :
    Window 3 1 [(.apply "a" .allow 5, .ok .done), (.apply "b" .deny 7, .ok .done)] Sample.other :=
  (bounded_window Sample.runs_other).1

end Revocation

end LoadBalance
