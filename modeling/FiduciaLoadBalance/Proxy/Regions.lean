import FiduciaLoadBalance.Proxy.Balancer
import FiduciaLoadBalance.Proxy.Simulation
import Mathlib.Algebra.BigOperators.Group.Finset.Basic
import Mathlib.Data.Finset.Card

/-!
# Where the traffic went

The table counts routed requests by the region of their target, in words of 64 bits.  A task
counts each attempt just before it makes it, and the counts outlive snapshots; so, whatever
the tasks and the brain do in between, they add up.

* `counting` — the contract of a task: it counts, then attempts, one for one;
* `regionRequests_step` — what one step of the balancer does to the counters;
* `regions_conserved` — every attempt is counted once, under the region its target had then,
  and nothing else is.
-/

namespace LoadBalance

open Http Conc Machine

namespace RouteTable

/-- The region a URL is counted under. -/
def regionOf (t : RouteTable) (nodeUrl : String) : String :=
  match t.nodeMetadata[nodeUrl]? with
  | some m => if m.region = "" then "unknown" else m.region
  | none => "unknown"

/-- The requests counted under a region. -/
def requestsOf (t : RouteTable) (region : String) : ℕ := t.regionRequests.getD region 0

/-- Count one more request under a region; the counter wraps. -/
def tally (counts : Std.ExtTreeMap String ℕ) (region : String) : Std.ExtTreeMap String ℕ :=
  counts.insert region ((counts.getD region 0 + 1) % 2 ^ 64)

theorem regionRequests_recordRegionRequest (t : RouteTable) (nodeUrl : String) :
    (t.recordRegionRequest nodeUrl).regionRequests =
      tally t.regionRequests (t.regionOf nodeUrl) := rfl

theorem getD_tally (counts : Std.ExtTreeMap String ℕ) (region region' : String) :
    (tally counts region).getD region' 0 =
      if region = region' then (counts.getD region' 0 + 1) % 2 ^ 64 else counts.getD region' 0 := by
  rw [tally, Std.ExtTreeMap.getD_insert]
  by_cases heq : region = region'
  · simp [heq]
  · simp [heq]

theorem mem_tally {counts : Std.ExtTreeMap String ℕ} {region region' : String} :
    region' ∈ tally counts region ↔ region = region' ∨ region' ∈ counts := by
  rw [tally, Std.ExtTreeMap.mem_insert, compare_eq_iff_eq]

end RouteTable

namespace Proxy

open RouteTable (tally getD_tally mem_tally requestsOf regionRequests_recordRegionRequest)

/-! ## What one task counts -/

/-- The URL an event counts. -/
def counted : TaskEvent → Option String
  | ⟨.recordRegionRequest nodeUrl, _⟩ => some nodeUrl
  | _ => none

/-- The URL counted last, unless something has happened since. -/
def lastCounted (h : History) : Option String := h.getLast?.bind counted

@[simp] theorem lastCounted_nil : lastCounted [] = none := rfl

@[simp] theorem lastCounted_concat (h : History) (ev : TaskEvent) :
    lastCounted (h ++ [ev]) = counted ev := by
  rw [lastCounted, List.getLast?_append, List.getLast?_singleton, Option.some_or, Option.bind_some]

/-- The contract of a task: what it has counted it attempts next, and nothing else. -/
def counting : Contract Call Call.Answer where
  rely _ _ _ := True
  guarantee h e := ∀ url, (∃ a, e = .forwardOnce a ∧ a.nodeUrl = url) ↔ lastCounted h = some url

section

variable {env : Env} {shardCount : ℕ} {request : ForwardRequest} {h : History}

/-- Between two attempts a task may call anything else. -/
theorem counting_guarantee {e : Call} (he : e.IsTable) (hh : lastCounted h = none) :
    counting.guarantee h e := by
  intro url
  rw [hh]
  constructor
  · rintro ⟨a, rfl, -⟩
    exact he.elim
  · exact fun hnone => absurd hnone (by simp)

/-- What a task does between two attempts, it does with nothing counted. -/
theorem wp_afterAttempt_counting {attempted : List String} {retry : Task Response}
    {follow : String → Task Response}
    (hretry : ∀ {h'}, lastCounted h' = none →
      retry.wp counting (fun h' _ => lastCounted h' = none) h')
    (hfollow : ∀ {target h'}, lastCounted h' = none →
      (follow target).wp counting (fun h' _ => lastCounted h' = none) h')
    (hh : lastCounted h = none) (upstream : Upstream) :
    (afterAttempt env request attempted retry follow upstream).wp counting
      (fun h' _ => lastCounted h' = none) h := by
  -- a hint is followed to a target not attempted yet, and retried otherwise
  have hhinted {target : String} {h' : History} (hh' : lastCounted h' = none) :
      (if target ∈ attempted then retry else follow target).wp counting
        (fun h' _ => lastCounted h' = none) h' := by
    split
    · exact hretry hh'
    · exact hfollow hh'
  cases upstream with
  | served response => exact hh
  | notSent => exact hretry hh
  | responseTooLarge => exact hh
  | ambiguousTransport =>
    rw [afterAttempt]
    split
    · exact hretry hh
    · exact hh
  | notLeader leader =>
    cases leader with
    | none => exact hretry hh
    | some leader =>
      rw [afterAttempt]
      cases request.shard with
      | some shard =>
        refine ⟨counting_guarantee trivial hh, fun answer _ => ?_⟩
        cases answer with
        | none => exact hretry (lastCounted_concat _ _)
        | some target => exact hhinted (lastCounted_concat _ _)
      | none =>
        refine ⟨counting_guarantee trivial hh, fun answer _ => ?_⟩
        cases answer with
        | none => exact hretry (lastCounted_concat _ _)
        | some target => exact hhinted (lastCounted_concat _ _)

theorem wp_forwardLoop_counting {n : ℕ} {attempted : List String} {target : String}
    (hh : lastCounted h = none) : (forwardLoop env request n attempted target).wp counting
      (fun h' _ => lastCounted h' = none) h := by
  induction n generalizing attempted target h with
  | zero => exact hh
  | succ n ih =>
    rw [forwardLoop]
    refine ⟨counting_guarantee trivial hh, fun _ _ =>
      wp_forwardOnce.2 ⟨fun url => ?_, fun reply _ => ?_⟩⟩
    · rw [lastCounted_concat]
      constructor
      · rintro ⟨a, ha, rfl⟩
        obtain rfl := Call.forwardOnce.inj ha
        rfl
      · rintro hurl
        exact ⟨_, rfl, Option.some.inj hurl⟩
    · refine wp_afterAttempt_counting (fun hh' => ?_) ih (lastCounted_concat _ _) _
      refine ⟨counting_guarantee trivial hh', fun answer _ => ?_⟩
      cases answer with
      | some next => exact ih (lastCounted_concat _ _)
      | none => exact lastCounted_concat _ _

theorem wp_routeWithoutCustomerIdempotency_counting (request : Request)
    (hh : lastCounted h = none) :
    (routeWithoutCustomerIdempotency env shardCount request).wp counting
      (fun h' _ => lastCounted h' = none) h := by
  rw [routeWithoutCustomerIdempotency]
  unfold firstTarget
  split
  · refine ⟨counting_guarantee trivial hh, fun answer _ => ?_⟩
    cases answer with
    | none => exact lastCounted_concat _ _
    | some target => exact wp_forwardLoop_counting (lastCounted_concat _ _)
  · refine ⟨counting_guarantee trivial hh, fun answer _ => ?_⟩
    cases answer with
    | none => exact lastCounted_concat _ _
    | some target => exact wp_forwardLoop_counting (lastCounted_concat _ _)

end

section

variable {env : Env} {shardCount : ℕ} {c : Contract Call Call.Answer} {K : History → Prop}
  {h : History}

/-- What every request keeps, a task keeps, whatever requests it makes for its client. -/
theorem wp_route_of_kept (hsend : ∀ request {h}, K h →
      (routeWithoutCustomerIdempotency env shardCount request).wp c (fun h' _ => K h') h)
    (request : Request) (hK : K h) : (route env shardCount request).wp c (fun h' _ => K h') h := by
  unfold route
  split
  · exact hK
  split
  · exact hK
  split
  · exact hK
  · split
    · exact hK
    · exact hsend request hK
  · rename_i idempotency _
    refine wp_routeWithCustomerIdempotency.2 (Proc.wp_mono (hsend _ hK) fun h' response hK' => ?_)
    cases grantedToken env idempotency response with
    | error response => exact hK'
    | ok fencingToken =>
      refine Proc.wp_mono (hsend request hK') fun h'' response hK'' => ?_
      refine wp_settleCustomerIdempotency.2 ?_
      cases finalCapture env response with
      | error response => exact hsend _ hK''
      | ok captured => exact hsend _ hK''

end

theorem wp_route_counting (env : Env) (shardCount : ℕ) (request : Request) :
    (route env shardCount request).wp counting (fun h' _ => lastCounted h' = none) [] :=
  wp_route_of_kept (fun request _ hh => wp_routeWithoutCustomerIdempotency_counting request hh)
    request lastCounted_nil

/-! ## What all of them count -/

section

variable {N : Type}

/-- The region counted at a moment. -/
def countedAt (m : WorldMoment N) : Option String :=
  match m.label with
  | .answer _ ⟨.recordRegionRequest nodeUrl, _⟩ => some (m.before.table.regionOf nodeUrl)
  | _ => none

/-- Is an attempt answered at this moment? -/
def isAttempt (m : WorldMoment N) : Bool :=
  match m.label with
  | .answer _ ⟨.forwardOnce _, _⟩ => true
  | _ => false

/-- The tasks, of those below `next`, that have counted an attempt that was not answered. -/
def outstanding (h : List (WorldMoment N)) (next : ℕ) : Finset ℕ :=
  (Finset.range next).filter fun i => (lastCounted (own i h)).isSome

/-- The regions there are counts for. -/
def regions (t : RouteTable) : Finset String := t.regionRequests.keys.toFinset

variable {env : Env} {shardCount : ℕ} {U : Upstreams N} {admits : Request → Prop}
  {h : List (WorldMoment N)} {c c' : Config Call Call.Answer Response (World N)}
  {m : WorldMoment N} {i : ℕ}

theorem regionRequests_tableStep {t t' : RouteTable} {e : Call} {r : e.Answer}
    (hstep : TableStep env t e r t') (w w' : World N) (hw : w.table = t) :
    t'.regionRequests =
      (countedAt ⟨.answer i ⟨e, r⟩, w, w'⟩).elim t.regionRequests (tally t.regionRequests) := by
  cases hstep with
  | recordRegionRequest nodeUrl =>
    rw [regionRequests_recordRegionRequest, countedAt, hw]
    rfl
  | anyNodeExcluding excluded =>
    obtain ⟨cursor, hcursor, -⟩ := RouteTable.anyNodeExcluding_cases t excluded
    rw [hcursor]
    rfl
  | acceptLeaderHint shard nodeUrl now =>
    rcases RouteTable.acceptLeaderHint_cases env t shard nodeUrl now with h | ⟨known, -, h⟩
    · rw [h]
      rfl
    · rw [h]
      rfl
  | _ => rfl

/-- Snapshots leave the counts alone. -/
theorem regionRequests_applySnapshot (w : World N) (nodes : List BrainNode)
    (shards : List BrainShard) (fetchedAt : Instant) :
    (w.applySnapshot env nodes shards fetchedAt).table.regionRequests = w.table.regionRequests := by
  show (w.table.applyBrainSnapshotAt env nodes shards fetchedAt).2.regionRequests = _
  rcases RouteTable.applyBrainSnapshotAt_cases env w.table nodes shards fetchedAt with
    h | ⟨ids, metadata, leaders, -, -, -, -, h⟩
  · rw [h]
  · rw [h]

/-- **What one step counts.** -/
theorem regionRequests_step (hstep : (balancer env shardCount U admits).Step c m c') :
    c'.shared.table.regionRequests =
      (countedAt m).elim c.shared.table.regionRequests (tally c.shared.table.regionRequests) := by
  cases hstep with
  | start hstart => rfl
  | answer hlive hexec =>
    cases hexec with
    | table htable => exact regionRequests_tableStep htable _ _ rfl
    | attempt hanswer => rfl
  | env harrives =>
    cases harrives with
    | snapshot nodes shards fetchedAt => exact regionRequests_applySnapshot c.shared nodes shards _
    | nodes hbackground => rfl
  | drop hlive hdrop =>
    cases hdrop with
    | still => rfl
    | attempt hcancelled => rfl

theorem requestsOf_of_run {seeds : List String} {n : N}
    (hrun : (balancer env shardCount U admits).Run (.new env shardCount seeds n) h c)
    (region : String) : c.shared.table.requestsOf region =
      (h.countP fun m => countedAt m = some region) % 2 ^ 64 := by
  induction hrun with
  | init => rfl
  | @step h c c' m hrun hstep ih =>
    rw [requestsOf] at ih
    rw [requestsOf, regionRequests_step hstep, List.countP_append, List.countP_singleton]
    cases hcounted : countedAt m with
    | none => simpa using ih
    | some region' =>
      rw [Option.elim_some, getD_tally, ih]
      by_cases heq : region' = region
      · simp [heq]
      · simp [heq]

/-- A region that was counted has an entry. -/
theorem mem_regions_of_run {seeds : List String} {n : N}
    (hrun : (balancer env shardCount U admits).Run (.new env shardCount seeds n) h c)
    {region : String} (hm : m ∈ h) (hcounted : countedAt m = some region) :
    region ∈ regions c.shared.table := by
  rw [regions, List.mem_toFinset, Std.ExtTreeMap.mem_keys]
  induction hrun with
  | init => exact absurd hm List.not_mem_nil
  | @step h c c' m' hrun hstep ih =>
    rw [regionRequests_step hstep]
    rcases List.mem_append.1 hm with hm | hm
    · cases countedAt m' with
      | none => exact ih hm
      | some region' => exact mem_tally.2 (Or.inr (ih hm))
    · rw [← List.mem_singleton.1 hm, hcounted]
      exact mem_tally.2 (Or.inl rfl)

/-! ## One count an attempt -/

theorem mem_outstanding {next : ℕ} : i ∈ outstanding h next ↔
    i < next ∧ (lastCounted (own i h)).isSome := by
  rw [outstanding, Finset.mem_filter, Finset.mem_range]

/-- A call that counts makes its task outstanding; any other settles it. -/
theorem outstanding_answer {ev : TaskEvent} {w w' : World N} {next : ℕ} (hi : i < next) :
    outstanding (h ++ [⟨.answer i ev, w, w'⟩]) next =
      if (counted ev).isSome then insert i (outstanding h next)
      else (outstanding h next).erase i := by
  ext j
  rw [mem_outstanding]
  by_cases hji : j = i
  · subst hji
    rw [own_append, own_answer_self, own_nil, lastCounted_concat]
    split
    · simp [*]
    · simp [*]
  · have hown : own j (h ++ [⟨.answer i ev, w, w'⟩]) = own j h :=
      own_concat_of_none (if_neg (Ne.symm hji))
    rw [hown]
    split
    · rw [Finset.mem_insert, mem_outstanding]
      simp [hji]
    · rw [Finset.mem_erase, mem_outstanding]
      simp [hji]

theorem outstanding_of_none (hnone : ∀ j, m.label.own j = none) (next : ℕ) :
    outstanding (h ++ [m]) next = outstanding h next := by
  ext j
  rw [mem_outstanding, mem_outstanding, own_concat_of_none (hnone j)]

theorem outstanding_succ {next : ℕ} (hfresh : own next h = []) :
    outstanding h (next + 1) = outstanding h next := by
  rw [outstanding, Finset.range_add_one, Finset.filter_insert, hfresh, lastCounted_nil,
    if_neg (by simp), outstanding]

/-- A task calls what its count says. -/
theorem counting_of_run {s₀ : World N} (hrun : (balancer env shardCount U admits).Run s₀ h c)
    {e : Call} {k : e.Answer → Task Response} (hlive : c.procs i = some (.call e k)) :
    counting.guarantee (own i h) e := by
  obtain ⟨p, hst⟩ := hrun.tracked.started hlive
  obtain ⟨-, request, -, rfl⟩ := hrun.start_of_started hst
  exact hrun.own_next hst (wp_route_counting env shardCount request) (fun _ _ _ _ _ _ => trivial)
    hlive

/-- A finished task has nothing outstanding. -/
theorem lastCounted_of_done {s₀ : World N} (hrun : (balancer env shardCount U admits).Run s₀ h c)
    {response : Response} (hdone : c.procs i = some (.done response)) :
    lastCounted (own i h) = none := by
  obtain ⟨p, hst⟩ := hrun.tracked.started hdone
  obtain ⟨-, request, -, rfl⟩ := hrun.start_of_started hst
  exact hrun.own_result hst (wp_route_counting env shardCount request) (fun _ _ _ _ _ _ => trivial)
    hdone

/-- A task that calls something else than an attempt has counted none. -/
theorem notMem_outstanding {e : Call} (hcounting : counting.guarantee (own i h) e)
    (he : ∀ a, e ≠ .forwardOnce a) : i ∉ outstanding h c.next := by
  intro hmem
  obtain ⟨url, hurl⟩ := Option.isSome_iff_exists.1 (mem_outstanding.1 hmem).2
  obtain ⟨a, ha, -⟩ := (hcounting url).2 hurl
  exact he a ha

/-- **Counts and attempts go together**, but for the tasks with one outstanding. -/
theorem count_of_run {s₀ : World N} (hrun : (balancer env shardCount U admits).Run s₀ h c) :
    (h.countP fun m => (countedAt m).isSome) =
      h.countP isAttempt + (outstanding h c.next).card := by
  induction hrun with
  | init => rfl
  | @step h c c' m hrun hstep ih =>
    rw [List.countP_append, List.countP_append, List.countP_singleton, List.countP_singleton, ih]
    cases hstep with
    | start hstart =>
      rw [outstanding_succ, outstanding_of_none fun _ => rfl]
      · simp [countedAt, isAttempt]
      · rw [own_append, (hrun.tracked.fresh le_rfl).2]
        rfl
    | env harrives =>
      rw [outstanding_of_none fun _ => rfl]
      simp [countedAt, isAttempt]
    | drop hlive hdrop =>
      rw [outstanding_of_none fun _ => rfl]
      simp [countedAt, isAttempt]
    | @answer i e k r s' hlive hexec =>
      have hlt := hrun.lt_next hlive
      have hcounting := counting_of_run hrun hlive
      rw [outstanding_answer hlt]
      cases e with
      | recordRegionRequest nodeUrl =>
        simp only [countedAt, counted, isAttempt, Option.isSome_some, if_true, if_false,
          Bool.false_eq_true, Finset.card_insert_of_notMem (notMem_outstanding hcounting (by simp))]
        omega
      | forwardOnce a =>
        have hmem : i ∈ outstanding h c.next :=
          mem_outstanding.2 ⟨hlt, by rw [(hcounting a.nodeUrl).1 ⟨a, rfl, rfl⟩]; rfl⟩
        have hcard := Finset.card_erase_add_one hmem
        simp only [countedAt, counted, isAttempt, Option.isSome_none, if_true, if_false,
          Bool.false_eq_true]
        omega
      | _ =>
        have hnot := notMem_outstanding (c := c) hcounting (by simp)
        simp [countedAt, counted, isAttempt, Finset.erase_eq_of_notMem hnot]

/-- Counting by value, over all values there are. -/
theorem sum_countP {α β : Type} [DecidableEq β] {f : α → Option β} {l : List α} {S : Finset β}
    (hS : ∀ a ∈ l, ∀ b, f a = some b → b ∈ S) :
    ∑ b ∈ S, l.countP (fun a => f a = some b) = l.countP fun a => (f a).isSome := by
  induction l with
  | nil => simp
  | cons a l ih =>
    have hrest := ih fun a' ha' => hS a' (List.mem_cons_of_mem a ha')
    simp only [List.countP_cons, Finset.sum_add_distrib, hrest]
    congr 1
    cases ha : f a with
    | none => simp
    | some b =>
      have hb := hS a List.mem_cons_self b ha
      simp [Finset.sum_ite_eq, hb]

/-- Counting by region, over all regions that were counted. -/
theorem sum_of_run {seeds : List String} {n : N}
    (hrun : (balancer env shardCount U admits).Run (.new env shardCount seeds n) h c) :
    (∑ region ∈ regions c.shared.table, h.countP fun m => countedAt m = some region) =
      h.countP isAttempt + (outstanding h c.next).card := by
  rw [← count_of_run hrun]
  exact sum_countP fun m hm region hcounted => mem_regions_of_run hrun hm hcounted

/-- **The counts add up.**  In every run of the balancer, over nodes that may answer anything,
with tasks cancelled and snapshots applied at any point: under each region stand the counts
made for targets that were in that region then, modulo the word they are kept in, and
altogether they are the attempts that were answered and one for each task that is outstanding,
both modulo the word, and exactly as long as the word holds them all.  Such a task was
cancelled, or waits for the answer to the attempt it counted; and all that wait are such. -/
theorem regions_conserved {seeds : List String} {n : N}
    (hrun : (balancer env shardCount U admits).Run (.new env shardCount seeds n) h c) :
    (∀ region, c.shared.table.requestsOf region =
      (h.countP fun m => countedAt m = some region) % 2 ^ 64) ∧
    (∑ region ∈ regions c.shared.table, c.shared.table.requestsOf region) % 2 ^ 64 =
      (h.countP isAttempt + (outstanding h c.next).card) % 2 ^ 64 ∧
    (h.countP isAttempt + (outstanding h c.next).card < 2 ^ 64 →
      (∀ region, c.shared.table.requestsOf region =
        h.countP fun m => countedAt m = some region) ∧
      ∑ region ∈ regions c.shared.table, c.shared.table.requestsOf region =
        h.countP isAttempt + (outstanding h c.next).card) ∧
    (∀ i ∈ outstanding h c.next, c.procs i = none ∨ ∃ a k,
      c.procs i = some (.call (.forwardOnce a) k) ∧ lastCounted (own i h) = some a.nodeUrl) ∧
    ∀ i a k, c.procs i = some (.call (.forwardOnce a) k) → i ∈ outstanding h c.next := by
  have hregions := requestsOf_of_run hrun
  have hsum := sum_of_run hrun
  refine ⟨hregions, ?_, fun hfits => ?_, fun i hmem => ?_, fun i a k hproc => ?_⟩
  · rw [← hsum, Finset.sum_congr rfl fun region _ => hregions region, ← Finset.sum_nat_mod]
  · have hexact (region : String) : c.shared.table.requestsOf region =
        h.countP fun m => countedAt m = some region := by
      have hle : (h.countP fun m => countedAt m = some region) ≤
          h.countP fun m => (countedAt m).isSome := by
        refine List.countP_mono_left fun m _ hm => ?_
        rw [of_decide_eq_true hm]
        rfl
      rw [count_of_run hrun] at hle
      rw [hregions, Nat.mod_eq_of_lt (hle.trans_lt hfits)]
    exact ⟨hexact, by rw [← hsum, Finset.sum_congr rfl fun region _ => hexact region]⟩
  · obtain ⟨url, hurl⟩ := Option.isSome_iff_exists.1 (mem_outstanding.1 hmem).2
    cases hproc : c.procs i with
    | none => exact Or.inl rfl
    | some p =>
      cases p with
      | done response =>
        rw [lastCounted_of_done hrun hproc] at hurl
        exact absurd hurl (by simp)
      | call e k =>
        obtain ⟨a, rfl, rfl⟩ := (counting_of_run hrun hproc url).2 hurl
        exact Or.inr ⟨a, k, rfl, hurl⟩
  · have hurl := (counting_of_run hrun hproc a.nodeUrl).1 ⟨a, rfl, rfl⟩
    exact mem_outstanding.2 ⟨hrun.lt_next hproc, by rw [hurl]; rfl⟩

end

/-- Three attempts for one mutation with a key, and one under way for the next. -/
theorem regions_conserved_put : ∃ h c, Sample.Cluster.Run Sample.world h c ∧
    ∑ region ∈ regions c.shared.table, c.shared.table.requestsOf region = 3 + 1 := by
  obtain ⟨h₁, c₁, h₂, c₂, hplay₁, hplay₂, hfound⟩ := Sample.driver.exists_play
    (.initial Sample.world) (Sample.first [])
    [Sample.start [], .answer 1 (.table 0), .answer 1 (.table 0)]
    (fun h₁ _ h₂ c₂ => decide ((h₁ ++ h₂).countP isAttempt = 3 ∧
      (outstanding (h₁ ++ h₂) c₂.next).card = 1))
    (by decide +kernel)
  obtain ⟨hattempts, houtstanding⟩ := of_decide_eq_true hfound
  have hrun := Sample.driver.run_of_play (Sample.driver.run_of_play .init hplay₁) hplay₂
  rw [List.nil_append] at hrun
  obtain ⟨-, htotal⟩ := (regions_conserved hrun).2.2.1 (by rw [hattempts, houtstanding]; decide)
  rw [hattempts, houtstanding] at htotal
  exact ⟨_, _, hrun, htotal⟩

end Proxy

end LoadBalance
