import FiduciaLoadBalance.Revocation.Freshness
import FiduciaLoadBalance.Revocation.Locks

/-!
# At most one check in flight for a token

The lock of a key is shared by the calls that have a reference to it, and is taken out of
the table by the last of them.  So calls that overlap wait for the same lock, dropped calls
included, and one that waited looks again before it asks.

* `locked_of_run` — at every moment of every run, the table agrees with the calls;
* `checks_unique` — so two calls are not asking the authority about one key;
* `no_check_of_waited` — and one that waited for an answer of its own second asks nothing.
-/

namespace LoadBalance

open Conc Machine

namespace Revocation

variable {env : Env} {steady : Prop} {s₀ : Gate} {h : List GateMoment}
  {c : Config Call Call.Answer Authorization Gate} {i j : ℕ} {key : String} {now : ℕ}

/-! ## Where the calls are -/

/-- Where call `i` is; a call that is not there, not yet or not any more, is gone. -/
def place (h : List GateMoment) (c : Config Call Call.Answer Authorization Gate) (i : ℕ) : Stage :=
  if (c.procs i).isSome then stageOf (own i h) else .gone

theorem place_of_live {p : Task Authorization} (hlive : c.procs i = some p) :
    place h c i = stageOf (own i h) := by
  rw [place, hlive, Option.isSome_some, if_pos rfl]

theorem place_of_none (hnone : c.procs i = none) : place h c i = .gone := by
  rw [place, hnone, Option.isSome_none, if_neg (by simp)]

/-- A moment leaves a call where it is unless it is about that call. -/
theorem place_same {c' : Config Call Call.Answer Authorization Gate} {m : GateMoment}
    (hown : m.label.own i = none) (hprocs : c'.procs i = c.procs i) :
    place (h ++ [m]) c' i = place h c i := by
  rw [place, place, hprocs, own_concat_of_none hown]

/-- The call that is answered goes on to its next stage. -/
theorem place_answer {ev : TaskEvent} {a : Gate} {p q : Task Authorization}
    (hlive : c.procs i = some p) :
    place (h ++ [⟨.answer i ev, c.shared, a⟩]) ⟨a, Function.update c.procs i (some q), c.next⟩ =
      Function.update (place h c) i ((place h c i).next ev) := by
  funext j
  rw [Function.update_apply]
  split
  · rename_i hji
    rw [hji, place_of_live (Function.update_self i (some q) c.procs), place_of_live hlive,
      own_append, own_answer_self, own_nil, stageOf_concat]
  · rename_i hji
    exact place_same (by simp [Label.own, Ne.symm hji]) (Function.update_of_ne hji _ _)

/-- A call that starts looks first. -/
theorem place_start (hrun : (gate env steady).Run s₀ h c) {p : Task Authorization} :
    place (h ++ [⟨.start c.next p, c.shared, c.shared⟩])
        ⟨c.shared, Function.update c.procs c.next (some p), c.next + 1⟩ =
      Function.update (place h c) c.next .looking := by
  funext i
  rw [Function.update_apply]
  split
  · rename_i hi
    rw [hi, place_of_live (Function.update_self _ _ _), own_concat_of_none rfl,
      (hrun.tracked.fresh le_rfl).2, stageOf_nil]
  · rename_i hi
    exact place_same rfl (Function.update_of_ne hi _ _)

theorem place_env {a : Gate} :
    place (h ++ [⟨.env, c.shared, a⟩]) ⟨a, c.procs, c.next⟩ = place h c := by
  funext i
  exact place_same rfl rfl

/-- A call that is dropped is gone. -/
theorem place_drop {a : Gate} :
    place (h ++ [⟨.drop i, c.shared, a⟩]) ⟨a, Function.update c.procs i none, c.next⟩ =
      Function.update (place h c) i .gone := by
  funext j
  rw [Function.update_apply]
  split
  · rename_i hji
    rw [hji, place_of_none (Function.update_self _ _ _)]
  · rename_i hji
    exact place_same rfl (Function.update_of_ne hji _ _)

/-- A call keeps its contract at the call it waits at, -/
theorem staged_of_started (hrun : (gate env steady).Run s₀ h c) {claims : Claims}
    (hst : Started h i (authorize env claims now)) {e : Call} (hwaits : c.waiting i = some e) :
    (staged env claims now).guarantee (own i h) e := by
  obtain ⟨k, hlive⟩ := Config.waiting_eq_some.1 hwaits
  exact hrun.own_next hst wp_authorize_staged (fun _ _ _ _ _ _ => trivial) hlive

/-- and at each it made. -/
theorem staged_of_answer (hrun : (gate env steady).Run s₀ h c) {claims : Claims}
    (hst : Started h i (authorize env claims now)) {pre post : List GateMoment} {ev : TaskEvent}
    {b a : Gate} (hsplit : h = pre ++ ⟨.answer i ev, b, a⟩ :: post) :
    (staged env claims now).guarantee (own i pre) ev.1 :=
  hrun.own_guarantee (K := staged env claims now) hst wp_authorize_staged
    (fun _ _ _ _ _ _ => trivial) hsplit

/-- So it is at a stage that permits it. -/
theorem permits_of_waiting (hrun : (gate env steady).Run s₀ h c) {e : Call}
    (hwaits : c.waiting i = some e) :
    ∃ claims now, Started h i (authorize env claims now) ∧
      (place h c i).Permits env (revocationCacheKey env claims) e := by
  obtain ⟨k, hlive⟩ := Config.waiting_eq_some.1 hwaits
  obtain ⟨p, hst⟩ := hrun.tracked.started hlive
  obtain ⟨claims, now, rfl⟩ := eq_authorize_of_started hrun hst
  refine ⟨claims, now, hst, ?_⟩
  rw [place_of_live hlive]
  exact (staged_of_started hrun hst hwaits).1

/-! ## The table agrees with the calls -/

/-- The calls that are about the locks. -/
def Call.onLocks : Call → Bool
  | .acquireKey _ => true
  | .lock _ => true
  | .unlock _ => true
  | .releaseKey _ _ => true
  | .dropLock _ => true
  | _ => false

theorem Stage.next_same {ev : TaskEvent} (hev : ev.1.onLocks = false) (stage : Stage) :
    stage.next ev = stage := by
  obtain ⟨e, r⟩ := ev
  cases e with
  | acquireKey _ => exact absurd hev (by simp [Call.onLocks])
  | lock _ => exact absurd hev (by simp [Call.onLocks])
  | unlock _ => exact absurd hev (by simp [Call.onLocks])
  | releaseKey _ _ => exact absurd hev (by simp [Call.onLocks])
  | dropLock _ => exact absurd hev (by simp [Call.onLocks])
  | _ => cases stage <;> rfl

theorem locks_same {s s' : Gate} {e : Call} {r : e.Answer} (hexec : Exec i s e r s')
    (he : e.onLocks = false) : s'.locks = s.locks := by
  cases hexec with
  | acquireKey _ => exact absurd he (by simp [Call.onLocks])
  | lock _ => exact absurd he (by simp [Call.onLocks])
  | unlock _ => exact absurd he (by simp [Call.onLocks])
  | releaseKey _ _ => exact absurd he (by simp [Call.onLocks])
  | dropLock _ => exact absurd he (by simp [Call.onLocks])
  | _ => rfl

/-- **Each call keeps the agreement**, if it is one its stage permits. -/
theorem Locked.exec {stages : ℕ → Stage} {s s' : Gate} (h : Locked stages s.locks) {e : Call}
    {r : e.Answer} (hpermits : (stages i).Permits env key e) (hexec : Exec i s e r s') :
    Locked (Function.update stages i ((stages i).next ⟨e, r⟩)) s'.locks := by
  by_cases he : e.onLocks = false
  · rw [Stage.next_same he, Function.update_eq_self, locks_same hexec he]
    exact h
  cases hexec with
  | acquireKey key' =>
    have hplace := hpermits.acquireKey
    rw [hplace]
    exact h.acquire hplace key'
  | lock hfree =>
    have hplace := hpermits.lock
    rw [hplace]
    exact h.lockTaken hplace hfree
  | unlock lock =>
    have hplace := hpermits.unlock
    rw [hplace]
    exact h.lockGiven hplace
  | releaseKey key' lock =>
    have hplace := hpermits.releaseKey
    rw [hplace]
    exact h.release hplace
  | dropLock lock =>
    have hplace := hpermits.dropLock
    rw [hplace]
    exact h.dropReference hplace
  | _ => exact absurd rfl he

theorem Locked.step {c' : Config Call Call.Answer Authorization Gate} {m : GateMoment}
    (hlocked : Locked (place h c) c.shared.locks) (hrun : (gate env steady).Run s₀ h c)
    (hstep : (gate env steady).Step c m c') :
    Locked (place (h ++ [m]) c') c'.shared.locks := by
  cases hstep with
  | start hst =>
    rw [place_start hrun]
    -- a call that was not there yet has no reference, and has none when it starts
    have hnone := place_of_none (h := h) (hrun.tracked.fresh le_rfl).1
    refine hlocked.congr ?_ ?_ ?_
    · exact update_same Stage.wanted (by rw [hnone]; rfl)
    · exact update_same Stage.held (by rw [hnone]; rfl)
    · exact update_same Stage.dropping (by rw [hnone]; rfl)
  | answer hlive hexec =>
    obtain ⟨claims, now, -, hpermits⟩ :=
      permits_of_waiting hrun (Config.waiting_eq_some.2 ⟨_, hlive⟩)
    rw [place_answer hlive]
    exact hlocked.exec hpermits hexec
  | env hen =>
    obtain ⟨clock, -, rfl⟩ := hen
    rw [place_env]
    exact hlocked
  | @drop i p s' hlive hdrop =>
    obtain rfl : s' = { c.shared with locks := c.shared.locks.forget i } := hdrop
    rw [place_drop]
    exact hlocked.forget i

/-- **The table agrees with the calls at every moment of every run.** -/
theorem locked_of_run (hrun : (gate env steady).Run s₀ h c) (hempty : s₀.locks = .empty) :
    Locked (place h c) c.shared.locks := by
  induction hrun with
  | init =>
    show Locked _ s₀.locks
    rw [hempty]
    exact locked_empty.congr (fun _ => rfl) (fun _ => rfl) (fun _ => rfl)
  | step hrun hstep ih => exact ih.step hrun hstep

/-! ## One check at a time -/

/-- Call `i` is asking the authority about a token of this key. -/
def Checking (env : Env) (c : Config Call Call.Answer Authorization Gate) (key : String)
    (i : ℕ) : Prop :=
  ∃ claims now, c.waiting i = some (.checkRevocation claims now) ∧
    revocationCacheKey env claims = key

/-- Whoever asks the authority holds the lock of the key. -/
theorem holding_of_checking (hrun : (gate env steady).Run s₀ h c)
    (hchecking : Checking env c key i) : ∃ lock, place h c i = .holding key lock := by
  obtain ⟨claims, now, hwaits, rfl⟩ := hchecking
  obtain ⟨claims', now', -, hpermits⟩ := permits_of_waiting hrun hwaits
  obtain ⟨lock, hplace, hkey⟩ := hpermits.checkRevocation
  exact ⟨lock, hkey ▸ hplace⟩

/-- **Two calls are not asking about one key.** -/
theorem checks_unique (hrun : (gate env steady).Run s₀ h c) (hempty : s₀.locks = .empty)
    (hi : Checking env c key i) (hj : Checking env c key j) : i = j := by
  obtain ⟨lock, hholding⟩ := holding_of_checking hrun hi
  obtain ⟨lock', hholding'⟩ := holding_of_checking hrun hj
  exact (locked_of_run hrun hempty).exclusive hholding hholding'

/-! ## Waiting for an answer -/

/-- The entry of a key leaves the cache at this moment. -/
def Evicts (key : String) (m : GateMoment) : Prop :=
  key ∈ m.before.cache.entries ∧ key ∉ m.after.cache.entries

/-- The cache knows a decision on the key of this second or a later one. -/
def Known (key : String) (now : ℕ) (s : Gate) : Prop :=
  now ≤ s.cache.highWater ∧
    ∃ entry, s.cache.entries[key]? = some entry ∧ now ≤ entry.observedAt

/-- What is known stays known until it is evicted: only a later decision replaces it. -/
theorem Known.step {m : GateMoment} (hknown : Known key now m.before)
    (hm : (gate env steady).Allowed m) (hkept : ¬Evicts key m) : Known key now m.after := by
  obtain ⟨hmark, entry, hentry, hobserved⟩ := hknown
  rcases cache_cases hm with ⟨-, second, hle, hcache⟩ | ⟨j, victim, key', decision, now', -, happly⟩
  · refine ⟨?_, entry, ?_, hobserved⟩
    · rw [hcache]
      exact hmark.trans hle
    · rw [hcache]
      exact hentry
  · obtain ⟨hle, hsecond, -, hself, hother⟩ := RevocationCache.apply_eq_some happly
    refine ⟨(hmark.trans hle).trans hsecond.ge, ?_⟩
    by_cases hkey : key = key'
    · rw [hkey]
      exact ⟨_, hself, hmark.trans hle⟩
    · have hbefore : key ∈ m.before.cache.entries :=
        Std.ExtTreeMap.mem_iff_isSome_getElem?.2 (by rw [hentry]; rfl)
      have hafter : key ∈ m.after.cache.entries := by
        by_contra hgone
        exact hkept ⟨hbefore, hgone⟩
      obtain ⟨entry', hentry'⟩ :=
        Option.isSome_iff_exists.1 (Std.ExtTreeMap.mem_iff_isSome_getElem?.1 hafter)
      have hsame := hother key entry' hkey hentry'
      obtain rfl := Option.some.inj (hentry.symm.trans hsame)
      exact ⟨entry, hentry', hobserved⟩

/-- After a decision was recorded it is known. -/
theorem known_of_apply {b a : Gate} {decision : Decision}
    (hexec : Exec i b (.apply key decision now) true a) : Known key now a := by
  cases hexec with
  | apply _ happly =>
    obtain ⟨-, hsecond, -, hself, -⟩ := RevocationCache.apply_eq_some happly
    exact ⟨hsecond.ge, _, hself, le_rfl⟩

/-- Who looks up what is known is refused or finds a fresh decision. -/
theorem fresh_of_known {b a : Gate} {found : Lookup} (hknown : Known key now b)
    (hexec : Exec i b (.lookup key now) (some found) a) : ∃ decision, found = .fresh decision := by
  obtain ⟨-, entry, hentry, hobserved⟩ := hknown
  cases hexec with
  | lookup hlookup =>
    exact ⟨_, RevocationCache.lookup_eq_fresh_of_entry hlookup hentry hobserved⟩

/-- **Call `j` waited for the check of call `i`**: when its answer was recorded, after
`pre`, `j` was a call for a token of the same key and of the same second, and waited for the
key's lock; and that entry is not evicted before `j` looks again. -/
structure WaitedFor (env : Env) (steady : Prop) (s₀ : Gate) (i j : ℕ) (key : String) (now : ℕ)
    (pre : List GateMoment) (applied : GateMoment) (post : List GateMoment) : Prop where
  recorded : ∃ decision, applied.label = .answer i ⟨.apply key decision now, true⟩
  waits : ∃ c lock, (gate env steady).Run s₀ pre c ∧ c.waiting j = some (.lock lock)
  started : ∃ claims, Started pre j (authorize env claims now) ∧
    revocationCacheKey env claims = key
  kept : ∀ mid m rest, post = mid ++ m :: rest → Evicts key m →
    ∃ now' found, ⟨.lookup key now', found⟩ ∈ own j mid

/-- Call `j` has not asked the authority, and is not asking it. -/
def NeverAsks (j : ℕ) (h : List GateMoment) (c : Config Call Call.Answer Authorization Gate) :
    Prop :=
  (∀ claims now checked, ⟨.checkRevocation claims now, checked⟩ ∉ own j h) ∧
    ∀ claims now, c.waiting j ≠ some (.checkRevocation claims now)

section

variable {pre post : List GateMoment} {applied : GateMoment}

/-- What the call that waited has done by then. -/
theorem WaitedFor.own_eq (hwaited : WaitedFor env steady s₀ i j key now pre applied post) :
    ∃ first lock, own j pre = queued key now first lock := by
  obtain ⟨c₁, lock, hrun₁, hwaits⟩ := hwaited.waits
  obtain ⟨claims, hst, rfl⟩ := hwaited.started
  obtain ⟨-, hprepared⟩ := staged_of_started hrun₁ hst hwaits
  cases hprepared with
  | lock hown => exact ⟨_, lock, hown⟩
  | other hlock _ => exact absurd rfl (hlock lock)

/-- Who records is not who waits. -/
theorem WaitedFor.ne (hwaited : WaitedFor env steady s₀ i j key now pre applied post)
    (hrun : (gate env steady).Run s₀ (pre ++ applied :: post) c) : i ≠ j := by
  rintro rfl
  obtain ⟨decision, hlabel⟩ := hwaited.recorded
  obtain ⟨claims, hst, -⟩ := hwaited.started
  obtain ⟨first, lock, hown⟩ := hwaited.own_eq
  obtain ⟨label, before, after⟩ := applied
  obtain rfl : label = _ := hlabel
  obtain ⟨hpermits, -⟩ := staged_of_answer hrun (started_append.2 (Or.inl hst)) rfl
  rw [hown, show stageOf (queued key now first lock) = .waiting key lock from rfl] at hpermits
  exact absurd hpermits.2 (by simp)

/-- What the second look of the call that waited finds. -/
theorem WaitedFor.fresh (hwaited : WaitedFor env steady s₀ i j key now pre applied post)
    {first : Option Lookup} {lock : LockId} {second : Lookup} {looked rest : List GateMoment}
    {b a : Gate} (hown : own j looked = queued key now first lock ++ [⟨.lock lock, ()⟩])
    (hsplit : pre ++ applied :: post =
      looked ++ ⟨.answer j ⟨.lookup key now, some second⟩, b, a⟩ :: rest)
    (hrun : (gate env steady).Run s₀ (pre ++ applied :: post) c) :
    ∃ decision, second = .fresh decision := by
  obtain ⟨decision, hlabel⟩ := hwaited.recorded
  obtain ⟨first', lock', hqueued⟩ := hwaited.own_eq
  -- the second look comes after the decision was recorded
  obtain ⟨mid, rfl, rfl⟩ : ∃ mid, looked = pre ++ applied :: mid ∧
      post = mid ++ ⟨.answer j ⟨.lookup key now, some second⟩, b, a⟩ :: rest := by
    rcases List.append_eq_append_iff.1 hsplit with ⟨mid, hlooked, hpost⟩ | ⟨mid, hpre, -⟩
    · cases mid with
      | nil =>
        have hsame := (List.cons.inj hpost).1
        rw [hsame] at hlabel
        exact absurd (Label.answer.inj hlabel).2 (by simp)
      | cons m mid =>
        obtain ⟨rfl, rfl⟩ := List.cons.inj hpost
        exact ⟨mid, hlooked, rfl⟩
    · rw [hpre, own_append, hown] at hqueued
      exact absurd (congrArg List.length hqueued) (by simp [queued])
  have hlocked : own j mid = [⟨.lock lock, ()⟩] := by
    have hother : applied.label.own j = none := by
      rw [hlabel, Label.own, if_neg (hwaited.ne hrun)]
    rw [List.append_cons, own_append, own_concat_of_none hother, hqueued] at hown
    exact (List.append_inj hown rfl).2
  have hmid : ∀ m ∈ mid, ¬Evicts key m := by
    intro m hm hevicts
    obtain ⟨mid₁, mid₂, rfl⟩ := List.append_of_mem hm
    obtain ⟨now', found, hlook⟩ := hwaited.kept mid₁ m
      (mid₂ ++ ⟨.answer j ⟨.lookup key now, some second⟩, b, a⟩ :: rest) (by simp) hevicts
    have hmem : (⟨.lookup key now', found⟩ : TaskEvent) ∈ own j (mid₁ ++ m :: mid₂) := by
      rw [own_append]
      exact List.mem_append_left _ hlook
    rw [hlocked] at hmem
    exact absurd hmem (by simp)
  rw [hsplit] at hrun
  obtain ⟨c₂, c₃, hrun₂, hstep⟩ := hrun.cut
  rw [List.append_cons] at hrun₂
  have hknown : Known key now c₂.shared := by
    refine (hrun₂.since ?_ ?_).2
    · intro c' hrun'
      obtain ⟨c'', -, happly⟩ := hrun'.of_concat
      obtain ⟨label, before, after⟩ := applied
      obtain rfl : label = _ := hlabel
      rw [← happly.after]
      exact known_of_apply happly.allowed
    · intro m hm hallowed hknown
      exact hknown.step hallowed (hmid m hm)
  rw [← hstep.before] at hknown
  exact fresh_of_known hknown hstep.allowed

/-- **Who waited for an answer of its own second asks nothing itself.** -/
theorem no_check_of_waited (hwaited : WaitedFor env steady s₀ i j key now pre applied post)
    (hrun : (gate env steady).Run s₀ (pre ++ applied :: post) c) :
    NeverAsks j (pre ++ applied :: post) c := by
  obtain ⟨claims, hst, hkey⟩ := hwaited.started
  have hst' : Started (pre ++ applied :: post) j (authorize env claims now) :=
    started_append.2 (Or.inl hst)
  -- whoever asks has looked a second time, in vain
  have hvain : ∀ {before after : List GateMoment} {claims' : Claims} {now' : ℕ},
      pre ++ applied :: post = before ++ after →
      ¬Prepared key now (own j before) (.checkRevocation claims' now') := by
    intro before after claims' now' hsplit hprepared
    cases hprepared with
    | other _ hcheck => exact hcheck claims' now' rfl
    | @checkRevocation first lock second _ _ hstale hown =>
      obtain ⟨looked, b, a, rest, rfl, hlooked⟩ := own_split
        (show own j before = (queued key now first lock ++ [⟨.lock lock, ()⟩]) ++
          ⟨.lookup key now, some second⟩ :: [⟨.recordRefreshStart now, true⟩] from hown)
      rw [List.append_assoc, List.cons_append] at hsplit
      obtain ⟨decision, hfresh⟩ := hwaited.fresh hlooked hsplit hrun
      exact hstale decision hfresh
  refine ⟨?_, ?_⟩
  · intro claims' now' checked hev
    obtain ⟨before, after, hown⟩ := List.append_of_mem hev
    obtain ⟨hpre, b, a, hpost, hsplit, rfl⟩ := own_split hown
    have hstaged := staged_of_answer hrun hst' hsplit
    rw [hkey.symm] at hvain
    exact hvain hsplit hstaged.2
  · intro claims' now' hwaits
    have hstaged := staged_of_started hrun hst' hwaits
    rw [hkey.symm] at hvain
    exact hvain (List.append_nil _).symm hstaged.2

end

/-- **At most one check in flight per token.**  In every run of the gate, whichever calls are
dropped and wherever: no two calls are asking the authority about one key, and a call that
waited for another's check, of the same key and second, asks nothing of its own. -/
theorem one_check_per_token (env : Env) {steady : Prop}
    {freshnessBudgetSecs capacity clock : ℕ} {h : List GateMoment}
    {c : Config Call Call.Answer Authorization Gate}
    (hrun : (gate env steady).Run (.new freshnessBudgetSecs capacity clock) h c) :
    (∀ key i j, Checking env c key i → Checking env c key j → i = j) ∧
    ∀ i j key now pre applied post, h = pre ++ applied :: post →
      WaitedFor env steady (.new freshnessBudgetSecs capacity clock) i j key now pre applied post →
        NeverAsks j h c := by
  refine ⟨?_, ?_⟩
  · intro key i j hi hj
    exact checks_unique hrun rfl hi hj
  · rintro i j key now pre applied post rfl hwaited
    exact no_check_of_waited hwaited hrun

/-- The rest of both calls, from where call 0 has its answer. -/
def Sample.rest : List Sample.driver.Move :=
  List.replicate 4 (Sample.answer 0) ++ List.replicate 5 (Sample.answer 1)

/-- The first moment records call 0's decision, no later one evicts it, and call 1 is allowed. -/
def Sample.shared (h : List GateMoment) (c : Config Call Call.Answer Authorization Gate) : Bool :=
  h.head?.bind (recorded Sample.key) = some (0, .allow, 10) ∧
    (∀ m ∈ h, Sample.key ∈ m.before.cache.entries → Sample.key ∈ m.after.cache.entries) ∧
      c.result 1 = some .allowed

/-- Two calls for one token, played: the second waits while the first asks, and is allowed
without asking. -/
theorem one_check_per_token_two : ∃ h c, (gate Reference.env True).Run Sample.start h c ∧
    c.result 1 = some .allowed ∧ NeverAsks 1 h c := by
  obtain ⟨h₁, c₁, h₂, c₂, hplay₁, hplay₂, hfound⟩ := Sample.driver.exists_play
    (.initial Sample.start) (.start Sample.claims :: List.replicate 6 (Sample.answer 0))
    (.start Sample.claims :: List.replicate 2 (Sample.answer 1)) (fun _ c₁ _ c₂ =>
      decide (c₁.next = 1 ∧ c₁.shared.clock = 10 ∧ c₂.waiting 1 = some (.lock 0)) &&
        (Sample.driver.play Sample.rest c₂).any fun p => Sample.shared p.1 p.2)
    (by decide +kernel)
  obtain ⟨hwaits, hrest⟩ := Bool.and_eq_true_iff.1 hfound
  obtain ⟨hnext, hclock, hwaits⟩ := of_decide_eq_true hwaits
  obtain ⟨⟨h₃, c₃⟩, hplay₃, hshared⟩ := (Option.any_eq_true _ _).1 hrest
  obtain ⟨happlied, hkept, hallowed⟩ := of_decide_eq_true hshared
  have hrun₂ := Sample.driver.run_of_play (Sample.driver.run_of_play .init hplay₁) hplay₂
  have hrun₃ := Sample.driver.run_of_play hrun₂ hplay₃
  have hst := Sample.driver.started_of_play hplay₂ rfl
  rw [hnext, hclock] at hst
  obtain ⟨applied, hhead, hrecorded⟩ := Option.bind_eq_some_iff.1 happlied
  obtain ⟨post, rfl⟩ : ∃ post, h₃ = applied :: post := by
    cases h₃ with
    | nil => exact absurd hhead (by simp)
    | cons m post =>
      obtain rfl := Option.some.inj hhead
      exact ⟨post, rfl⟩
  refine ⟨_, c₃, hrun₃, hallowed, ?_⟩
  refine (one_check_per_token Reference.env hrun₃).2 0 1 Sample.key 10 _ applied post rfl ?_
  refine ⟨⟨.allow, recorded_eq_some.1 hrecorded⟩, ⟨c₂, 0, hrun₂, hwaits⟩,
    ⟨Sample.claims, started_append.2 (Or.inr hst), rfl⟩, ?_⟩
  rintro mid m rest rfl ⟨hbefore, hafter⟩
  exact absurd (hkept m (by simp) hbefore) hafter

end Revocation

end LoadBalance
