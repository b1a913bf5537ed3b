import FiduciaLoadBalance.Data.Rotation
import FiduciaLoadBalance.Proxy.Membership

/-!
# Nobody is left out

Tasks that need any node take the next one in turn, all from one cursor; a task that retries
passes over the nodes it has attempted.  The turns of different tasks interleave as they may.

* `scan_goes`, `visits_of_choice` — what one choice comes by: the node it takes, and nodes it
  had excluded;
* `Turns` — how the choices of a stretch of a run add up;
* `excusing` — the contract of a task: it excludes only what it has attempted;
* `choices_balanced` — of two nodes, one is chosen at most once more often than the other, but
  for the choices from which the other was excluded.
-/

namespace LoadBalance

open Http Conc Machine Rotation

namespace RouteTable

/-! ## One choice -/

/-- While the counter does not wrap, a scan goes on until it takes a node, and passes over
none that was not excluded. -/
theorem scan_goes {nodes : List String} (excluded : List String) {turns cursor : ℕ}
    (hwrap : cursor + turns < 2 ^ 64) : ∃ next, (scan nodes excluded turns cursor).2 = next ∧
      cursor ≤ next ∧ next ≤ cursor + turns ∧
      (∀ node, (scan nodes excluded turns cursor).1 = some node → ∃ last, next = last + 1 ∧
        cursor ≤ last ∧ nodes.getD (last % nodes.length) "" = node) ∧
      ∀ k, cursor ≤ k → k < next → nodes.getD (k % nodes.length) "" ∈ excluded ∨
        (scan nodes excluded turns cursor).1 = some (nodes.getD (k % nodes.length) "") := by
  induction turns generalizing cursor with
  | zero => exact ⟨cursor, rfl, le_rfl, le_rfl, by simp [scan], by omega⟩
  | succ turns ih =>
    have hnext : (cursor + 1) % 2 ^ 64 = cursor + 1 := Nat.mod_eq_of_lt (by omega)
    rw [scan, hnext]
    by_cases hex : nodes.getD (cursor % nodes.length) "" ∈ excluded
    · rw [if_pos hex]
      have hwrap' : cursor + 1 + turns < 2 ^ 64 := by omega
      obtain ⟨next, hscan, hle, hbound, htaken, hpassed⟩ := ih hwrap'
      refine ⟨next, hscan, by omega, by omega, fun node hnode => ?_, fun k hk hlt => ?_⟩
      · obtain ⟨last, heq, hge, hlast⟩ := htaken node hnode
        exact ⟨last, heq, by omega, hlast⟩
      · rcases Nat.eq_or_lt_of_le hk with rfl | hgt
        · exact Or.inl hex
        · exact hpassed k hgt hlt
    · rw [if_neg hex]
      refine ⟨cursor + 1, rfl, by omega, by omega, fun node hnode => ?_, fun k hk hlt => ?_⟩
      · exact ⟨cursor, rfl, le_rfl, Option.some.inj hnode⟩
      · obtain rfl : k = cursor := by omega
        exact Or.inr rfl

variable {t : RouteTable} {j : ℕ}

/-- **What a choice comes by**: the node at `j` if that is taken, and at most once more, if it
was excluded. -/
theorem visits_of_choice (excluded : List String) (hnodup : t.nodes.Nodup) (hj : j < t.nodes.length)
    (hwrap : t.cursor + t.nodes.length < 2 ^ 64) :
    t.cursor ≤ (t.anyNodeExcluding excluded).2.cursor ∧
    (if (t.anyNodeExcluding excluded).1 = some (t.nodes.get ⟨j, hj⟩) then 1 else 0) ≤
      visits t.nodes.length j t.cursor (t.anyNodeExcluding excluded).2.cursor ∧
    visits t.nodes.length j t.cursor (t.anyNodeExcluding excluded).2.cursor ≤
      (if (t.anyNodeExcluding excluded).1 = some (t.nodes.get ⟨j, hj⟩) then 1 else 0) +
        if t.nodes.get ⟨j, hj⟩ ∈ excluded then 1 else 0 := by
  have hne : t.nodes ≠ [] := by
    intro hnil
    rw [hnil] at hj
    exact absurd hj (by simp)
  have hpos : 0 < t.nodes.length := by omega
  have hget (k : ℕ) : t.nodes.getD (k % t.nodes.length) "" =
      t.nodes.get ⟨k % t.nodes.length, Nat.mod_lt _ hpos⟩ := by
    rw [List.getD_eq_getElem _ _ (Nat.mod_lt _ hpos)]
    rfl
  have hsame {k : ℕ} (heq : t.nodes.getD (k % t.nodes.length) "" = t.nodes.get ⟨j, hj⟩) :
      k % t.nodes.length = j := by
    rw [hget] at heq
    exact congrArg Fin.val (hnodup.injective_get heq)
  rw [anyNodeExcluding, if_neg hne]
  obtain ⟨next, hscan, hle, hbound, htaken, hpassed⟩ :=
    scan_goes excluded hwrap
  dsimp only
  rw [hscan]
  refine ⟨hle, ?_, ?_⟩
  · split
    · rename_i hchosen
      obtain ⟨last, rfl, hge, hlast⟩ := htaken _ hchosen
      exact visits_pos hge (Nat.lt_succ_self last) (hsame hlast)
    · exact Nat.zero_le _
  · by_cases hzero : visits t.nodes.length j t.cursor next = 0
    · rw [hzero]
      exact Nat.zero_le _
    · -- it comes by the node at some turn, and takes it or had it excluded
      have hone := visits_le_one hj hle hbound
      have hcame : ∃ k, t.cursor ≤ k ∧ k < next ∧ k % t.nodes.length = j := by
        by_contra hnone
        push Not at hnone
        exact hzero (visits_eq_zero hnone)
      obtain ⟨k, hk, hlt, hkj⟩ := hcame
      have hat : t.nodes.getD (k % t.nodes.length) "" = t.nodes.get ⟨j, hj⟩ := by
        rw [hget]
        exact congrArg t.nodes.get (Fin.ext hkj)
      rcases hpassed k hk hlt with hex | hchosen
      · rw [hat] at hex
        rw [if_pos hex]
        omega
      · rw [hat] at hchosen
        rw [if_pos hchosen]
        omega

end RouteTable

namespace Proxy

/-! ## The choices of a run -/

section

variable {N : Type}

/-- Is this node chosen at this moment? -/
def chose (node : String) (m : WorldMoment N) : Bool :=
  match m.label with
  | .answer _ ⟨.anyNodeExcluding _, some chosen⟩ => chosen = node
  | _ => false

/-- Is there a choice at this moment that excludes this node? -/
def excludes (node : String) (m : WorldMoment N) : Bool :=
  match m.label with
  | .answer _ ⟨.anyNodeExcluding excluded, _⟩ => node ∈ excluded
  | _ => false

variable {env : Env} {shardCount : ℕ} {U : Upstreams N} {admits : Request → Prop}
  {h₀ h : List (WorldMoment N)} {c c' : Config Call Call.Answer Response (World N)}
  {m : WorldMoment N} {j : ℕ} {nodes : List String}

theorem keeps_nodup : (balancer env shardCount U admits).Keeps fun w => w.table.nodes.Nodup where
  exec := by
    rintro i w e r w' hw (htable | _)
    · exact htable.nodes.1 ▸ hw
    · exact hw
  env := by
    rintro w w' hw (⟨nodes, shards, fetchedAt⟩ | _)
    · show (w.table.applyBrainSnapshotAt env nodes shards fetchedAt).2.nodes.Nodup
      rcases RouteTable.applyBrainSnapshotAt_cases env w.table nodes shards fetchedAt with
        h | ⟨ids, metadata, leaders, hcollected, -, -, -, h⟩
      · rw [h]
        exact hw
      · rw [h]
        exact RouteTable.nodup_snapshot_nodes hcollected
    · exact hw
  drop := by
    rintro i p w w' hw (_ | _)
    · exact hw
    · exact hw

/-- What is no choice leaves the cursor where it is. -/
theorem cursor_of_tableStep {t t' : RouteTable} {e : Call} {r : e.Answer}
    (hne : ∀ excluded, e ≠ .anyNodeExcluding excluded) (hstep : TableStep env t e r t') :
    t'.cursor = t.cursor := by
  cases hstep with
  | anyNodeExcluding excluded => exact absurd rfl (hne excluded)
  | acceptLeaderHint shard nodeUrl now =>
    rcases RouteTable.acceptLeaderHint_cases env t shard nodeUrl now with h | ⟨known, -, h⟩
    · rw [h]
    · rw [h]
  | _ => rfl

theorem cursor_applySnapshot (w : World N) (nodes : List BrainNode) (shards : List BrainShard)
    (fetchedAt : Instant) :
    (w.applySnapshot env nodes shards fetchedAt).table.cursor = w.table.cursor := by
  show (w.table.applyBrainSnapshotAt env nodes shards fetchedAt).2.cursor = _
  rcases RouteTable.applyBrainSnapshotAt_cases env w.table nodes shards fetchedAt with
    h | ⟨ids, metadata, leaders, -, -, -, -, h⟩
  · rw [h]
  · rw [h]

/-- From `s` to `t` the cursor comes by the node at `j` as often as it is chosen, and at most
once more for each choice that excluded it. -/
structure Turns (nodes : List String) (j : ℕ) (hj : j < nodes.length) (chosen excluded s t : ℕ) :
    Prop where
  le : s ≤ t
  chosen_le : chosen ≤ visits nodes.length j s t
  le_add : visits nodes.length j s t ≤ chosen + excluded

theorem Turns.none (hj : j < nodes.length) (s : ℕ) : Turns nodes j hj 0 0 s s :=
  ⟨le_rfl, Nat.zero_le _, by simp⟩

theorem Turns.add {hj : j < nodes.length} {chosen chosen' excluded excluded' s t u : ℕ}
    (h : Turns nodes j hj chosen excluded s t) (h' : Turns nodes j hj chosen' excluded' t u) :
    Turns nodes j hj (chosen + chosen') (excluded + excluded') s u := by
  have hsum := visits_add (n := nodes.length) (j := j) h.le h'.le
  have := h.chosen_le
  have := h'.chosen_le
  have := h.le_add
  have := h'.le_add
  exact ⟨h.le.trans h'.le, by omega, by omega⟩

theorem chose_answer (i : ℕ) (excluded : List String) (answer : Option String) (node : String)
    (w w' : World N) :
    (if chose node ⟨.answer i ⟨.anyNodeExcluding excluded, answer⟩, w, w'⟩ then 1 else 0) =
      if answer = some node then 1 else 0 := by
  cases answer with
  | none => simp [chose]
  | some chosen => simp [chose]

/-- **One step.** -/
theorem turns_of_step (hstep : (balancer env shardCount U admits).Step c m c')
    (hnodup : c.shared.table.nodes.Nodup) (hj : j < c.shared.table.nodes.length)
    (hwrap : c.shared.table.cursor + c.shared.table.nodes.length < 2 ^ 64) :
    Turns c.shared.table.nodes j hj
      (if chose (c.shared.table.nodes.get ⟨j, hj⟩) m then 1 else 0)
      (if excludes (c.shared.table.nodes.get ⟨j, hj⟩) m then 1 else 0)
      c.shared.table.cursor c'.shared.table.cursor := by
  cases hstep with
  | start hstart => exact .none hj _
  | env harrives =>
    cases harrives with
    | snapshot nodes shards fetchedAt =>
      rw [cursor_applySnapshot]
      exact .none hj _
    | nodes hbackground => exact .none hj _
  | drop hlive hdrop =>
    cases hdrop with
    | still => exact .none hj _
    | attempt hcancelled => exact .none hj _
  | @answer i e k r s' hlive hexec =>
    cases hexec with
    | attempt hanswer => exact .none hj _
    | table htable =>
      by_cases hchoice : ∃ excluded, e = .anyNodeExcluding excluded
      · obtain ⟨excluded, rfl⟩ := hchoice
        cases htable with
        | anyNodeExcluding =>
          obtain ⟨hle, hchosen, hadd⟩ :=
            RouteTable.visits_of_choice excluded hnodup hj hwrap
          have hchose := chose_answer i excluded (c.shared.table.anyNodeExcluding excluded).1
            (c.shared.table.nodes.get ⟨j, hj⟩) c.shared
            { c.shared with table := (c.shared.table.anyNodeExcluding excluded).2 }
          refine ⟨hle, ?_, ?_⟩
          · rw [hchose]
            exact hchosen
          · rw [hchose, excludes]
            simpa using hadd
      · have hne : ∀ excluded, e ≠ .anyNodeExcluding excluded :=
          fun excluded heq => hchoice ⟨excluded, heq⟩
        have hcursor := cursor_of_tableStep hne htable
        rw [hcursor]
        cases e with
        | anyNodeExcluding excluded => exact absurd rfl (hne excluded)
        | _ => exact .none hj _

/-- **A stretch of a run**, over one list of nodes. -/
theorem turns_of_run {seeds : List String} {n : N}
    (hrun : (balancer env shardCount U admits).Run (.new env shardCount seeds n) (h₀ ++ h) c)
    (hnodes : ∀ m ∈ h, m.before.table.nodes = nodes)
    (hwrap : ∀ m ∈ h, m.before.table.cursor + nodes.length < 2 ^ 64) :
    ∃ start, ∀ j, ∀ hj : j < nodes.length, Turns nodes j hj
      (h.countP (chose (nodes.get ⟨j, hj⟩))) (h.countP (excludes (nodes.get ⟨j, hj⟩))) start
      c.shared.table.cursor := by
  induction h using List.reverseRecOn generalizing c with
  | nil => exact ⟨_, fun j hj => .none hj _⟩
  | append_singleton h m ih =>
    rw [← List.append_assoc] at hrun
    obtain ⟨c', hrun', hstep⟩ := hrun.of_concat
    have hm : m ∈ h ++ [m] := List.mem_append_right h (List.mem_singleton_self m)
    have hbefore := hnodes m hm
    have hlast := hwrap m hm
    rw [hstep.before] at hbefore hlast
    obtain ⟨start, hturns⟩ := ih hrun'
      (fun m' hm' => hnodes m' (List.mem_append_left [m] hm'))
      (fun m' hm' => hwrap m' (List.mem_append_left [m] hm'))
    have hnodup := (hrun'.invariant keeps_nodup
      (RouteTable.Inv.new env shardCount seeds).nodes_nodup).1
    subst hbefore
    refine ⟨start, fun j hj => ?_⟩
    rw [List.countP_append, List.countP_append, List.countP_singleton, List.countP_singleton]
    exact (hturns j hj).add (turns_of_step hstep hnodup hj hlast)

/-! ## What costs a turn -/

/-- These nodes have been attempted. -/
def Attempted (h : History) (nodes : List String) : Prop :=
  ∀ node ∈ nodes, ∃ a, ∃ reply : Reply, a.nodeUrl = node ∧ ⟨.forwardOnce a, reply⟩ ∈ h

theorem Attempted.concat {h : History} (hattempted : Attempted h nodes) (ev : TaskEvent) :
    Attempted (h ++ [ev]) nodes := by
  intro node hnode
  obtain ⟨a, reply, heq, hmem⟩ := hattempted node hnode
  exact ⟨a, reply, heq, List.mem_append_left [ev] hmem⟩

theorem Attempted.nil (h : History) : Attempted h [] := fun _ hnode => absurd hnode List.not_mem_nil

/-- The contract of a task: it excludes from a choice only what it has attempted. -/
def excusing : Contract Call Call.Answer where
  rely _ _ _ := True
  guarantee h e := ∀ excluded, e = .anyNodeExcluding excluded → Attempted h excluded

theorem hops_excusing {request : ForwardRequest} {Q : History → Response → Prop}
    (hQ : ∀ h response, Q h response) :
    Hops env excusing request (fun attempted _ h => Attempted h attempted)
      (fun attempted h => Attempted h attempted) Q := by
  refine ⟨fun hI => ⟨by rintro _ ⟨⟩, hI.concat _⟩,
    fun {attempted target h} hI _ => ⟨by rintro _ ⟨⟩, fun reply _ => ?_⟩,
    fun hJ leader => ⟨fun shard _ => ⟨by rintro _ ⟨⟩, fun answer _ => ⟨hJ.concat _, ?_⟩⟩,
      fun _ => ⟨by rintro _ ⟨⟩, fun answer _ => ⟨hJ.concat _, ?_⟩⟩⟩,
    fun hJ => ⟨?_, fun answer _ => ⟨fun _ _ => hJ.concat _, fun _ => hQ _ _⟩⟩, fun _ _ => hQ _ _⟩
  · have hattempted : Attempted (h ++ [⟨.forwardOnce (request.attempt target), reply⟩])
        (target :: attempted) := by
      intro node hnode
      rcases List.mem_cons.1 hnode with rfl | hnode
      · exact ⟨request.attempt node, reply, rfl, by simp⟩
      · exact hI.concat _ node hnode
    cases outcome env (request.attempt target) reply with
    | ambiguousTransport =>
      rw [AfterAttempt]
      split
      · exact hattempted
      · exact hQ _ _
    | notLeader _ => exact hattempted
    | notSent => exact hattempted
    | _ => exact hQ _ _
  · exact fun _ _ _ => hJ.concat _
  · exact fun _ _ _ => hJ.concat _
  · rintro _ ⟨⟩
    exact hJ

theorem wp_route_excusing (env : Env) (shardCount : ℕ) (request : Request) :
    (route env shardCount request).wp excusing (fun _ _ => True) [] := by
  refine wp_route_of_sent fun _ {sent Q h} _ hQ => ?_
  apply wp_routeWithoutCustomerIdempotency fun _ => hops_excusing hQ
  · exact fun shard _ => ⟨by rintro _ ⟨⟩, fun answer _ => ⟨fun _ _ => .nil _, fun _ => hQ _ _⟩⟩
  · refine fun _ => ⟨?_, fun answer _ => ⟨fun _ _ => .nil _, fun _ => hQ _ _⟩⟩
    rintro _ ⟨⟩
    exact .nil _

/-- A node is only excluded by a task that attempted it. -/
theorem attempted_of_excludes {s₀ : World N}
    (hrun : (balancer env shardCount U admits).Run s₀ h c) {pre post : List (WorldMoment N)}
    (hsplit : h = pre ++ m :: post) {node : String} (hexcludes : excludes node m = true) :
    ∃ i ev a, ∃ reply : Reply, m.label = .answer i ev ∧ a.nodeUrl = node ∧
      ⟨.forwardOnce a, reply⟩ ∈ own i pre := by
  obtain ⟨label, before, after⟩ := m
  cases label with
  | answer i ev =>
    have hev : ev ∈ own i h := by
      rw [hsplit, own_append, own_answer_self]
      simp
    obtain ⟨p, hst⟩ := hrun.started_of_answer hev
    obtain ⟨-, request, -, rfl⟩ := hrun.start_of_started hst
    have hguarantee := hrun.own_guarantee hst (wp_route_excusing env shardCount request)
      (fun _ _ _ _ _ _ => trivial) hsplit
    obtain ⟨e, r⟩ := ev
    cases e with
    | anyNodeExcluding excluded =>
      obtain ⟨a, reply, heq, hmem⟩ := hguarantee excluded rfl node (of_decide_eq_true hexcludes)
      exact ⟨i, _, a, reply, rfl, heq, hmem⟩
    | _ => exact absurd hexcludes (by simp [excludes])
  | _ => exact absurd hexcludes (by simp [excludes])

/-- **Nobody is left out.**  In every run of the balancer, over any stretch of it in which no
snapshot changes the nodes and the cursor does not wrap, whatever the tasks and the nodes do:
of two nodes, one is chosen at most once more often than the other is chosen or excluded from
a choice; and a choice only excludes a node that its own task has attempted before. -/
theorem choices_balanced {seeds : List String} {n : N}
    (hrun : (balancer env shardCount U admits).Run (.new env shardCount seeds n) (h₀ ++ h) c)
    (hnodes : ∀ m ∈ h, m.before.table.nodes = nodes)
    (hwrap : ∀ m ∈ h, m.before.table.cursor + nodes.length < 2 ^ 64)
    {x y : String} (hx : x ∈ nodes) (hy : y ∈ nodes) :
    h.countP (chose x) ≤ h.countP (chose y) + h.countP (excludes y) + 1 ∧
    ∀ pre m post, h = pre ++ m :: post → excludes y m = true → ∃ i ev a, ∃ reply : Reply,
      m.label = .answer i ev ∧ a.nodeUrl = y ∧ ⟨.forwardOnce a, reply⟩ ∈ own i (h₀ ++ pre) := by
  obtain ⟨start, hturns⟩ := turns_of_run hrun hnodes hwrap
  obtain ⟨⟨i, hi⟩, rfl⟩ := List.get_of_mem hx
  obtain ⟨⟨j, hj⟩, rfl⟩ := List.get_of_mem hy
  refine ⟨?_, fun pre m post hsplit => ?_⟩
  · calc h.countP (chose (nodes.get ⟨i, hi⟩))
        ≤ visits nodes.length i start c.shared.table.cursor := (hturns i hi).chosen_le
      _ ≤ visits nodes.length j start c.shared.table.cursor + 1 :=
          visits_balanced hi hj (hturns i hi).le
      _ ≤ _ := Nat.add_le_add_right (hturns j hj).le_add 1
  · exact attempted_of_excludes hrun (by rw [hsplit, List.append_assoc])

end

namespace Sample

/-- A request that any node may answer. -/
def roaming : Request where
  identity := some identity
  method := .get
  uri := uri
  headers := .empty
  body := []

theorem admits_roaming : Admits roaming := by
  show isIdempotencyPrimitive uri = false
  decide +kernel

/-- Three of them, which choose in another order than they came. -/
def three : List driver.Move :=
  [.start ⟨roaming, admits_roaming⟩, .start ⟨roaming, admits_roaming⟩,
    .start ⟨roaming, admits_roaming⟩, .answer 2 (.table 0), .answer 0 (.table 0),
    .answer 1 (.table 0)]

/-- Two nodes. -/
def pair : World Nodes := World.new Reference.env 1 ["http://a:1", "http://b:1"] .empty

end Sample

/-- Two of three requests go to the one node, and one to the other. -/
theorem choices_balanced_three : ∃ h c, Sample.Cluster.Run Sample.pair h c ∧
    h.countP (chose "http://a:1") = 2 ∧ h.countP (chose "http://b:1") = 1 ∧
    2 ≤ 1 + h.countP (excludes "http://b:1") + 1 := by
  obtain ⟨h, c, _, _, hplay, -, hfound⟩ := Sample.driver.exists_play (.initial Sample.pair)
    Sample.three [] (fun h _ _ _ => decide (h.countP (chose "http://a:1") = 2 ∧
      h.countP (chose "http://b:1") = 1 ∧
      (∀ m ∈ h, m.before.table.nodes = ["http://a:1", "http://b:1"]) ∧
      ∀ m ∈ h, m.before.table.cursor + 2 < 2 ^ 64))
    (by decide +kernel)
  obtain ⟨hfirst, hsecond, hnodes, hwrap⟩ := of_decide_eq_true hfound
  have hrun : Sample.Cluster.Run Sample.pair ([] ++ h) c := Sample.driver.run_of_play .init hplay
  have hbalanced := (choices_balanced hrun hnodes hwrap (x := "http://a:1") (y := "http://b:1")
    (by simp) (by simp)).1
  rw [hfirst, hsecond] at hbalanced
  exact ⟨h, c, hrun, hfirst, hsecond, hbalanced⟩

end Proxy

end LoadBalance
