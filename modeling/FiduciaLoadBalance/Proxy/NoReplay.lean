import FiduciaLoadBalance.Proxy.Route
import FiduciaLoadBalance.Table.Invariant

/-!
# No mutation is replayed, no target is tried twice

One run of `forwardWithRedirect` makes at most `maxHops` attempts, on pairwise
different targets; and when the method is not one that may be sent again, all of
them but the last ended without the request having been applied.  The table is not
assumed to stand still: each of its answers may come from a different state.
-/

namespace LoadBalance

open Http Conc

namespace Proxy

/-- An answer of the table, in whatever state it was at that moment. -/
def FromTable (env : Env) (ev : TaskEvent) : Prop :=
  ev.1.IsTable → ∃ t t', TableStep env t ev.1 ev.2 t'

/-- An attempt that may have been applied: it reached a node that did not refuse it as
a follower. -/
def Upstream.MayHaveApplied : Upstream → Prop
  | .notSent => False
  | .notLeader _ => False
  | _ => True

instance : DecidablePred Upstream.MayHaveApplied := fun upstream => by
  cases upstream <;> unfold Upstream.MayHaveApplied <;> infer_instance

theorem Upstream.not_mayHaveApplied_iff {upstream : Upstream} :
    ¬upstream.MayHaveApplied ↔ upstream = .notSent ∨ ∃ leader, upstream = .notLeader leader := by
  cases upstream <;> simp [Upstream.MayHaveApplied]

/-- After an attempt that ended so, a request of this method is sent again. -/
def Retriable (method : Method) (upstream : Upstream) : Prop :=
  ¬upstream.MayHaveApplied ∨
    (upstream = .ambiguousTransport ∧ methodIsReplaySafe method = true)

/-- Where the loop stands: all attempts so far allow another one, and their targets are
those in `attempted`, each once. -/
structure Going (env : Env) (request : ForwardRequest) (attempted : List String) (h : History) :
    Prop where
  retriable : ∀ p ∈ attemptsOf env h, Retriable request.method p.2
  targets : (attemptsOf env h).map (·.1.nodeUrl) = attempted.reverse
  nodup : attempted.Nodup
  length_le : attempted.length ≤ maxHops
  same : ∀ p ∈ attemptsOf env h, p.1 = request.attempt p.1.nodeUrl

/-- A mutation whose outcome is ambiguous is reported as such. -/
def Reported (env : Env) (request : ForwardRequest) (h : History) (response : Response) : Prop :=
  methodIsReplaySafe request.method = false →
    ∀ p ∈ attemptsOf env h, p.2 = .ambiguousTransport → response = ambiguousResponse env

/-- The contract of the loop: given scans that leave out the excluded nodes, calls are
made only while all attempts so far allow it, and attempts only on new targets. -/
def noReplay (env : Env) (request : ForwardRequest) : Contract Call Call.Answer where
  rely _ e r :=
    match e, r with
    | .anyNodeExcluding excluded, answer => ∀ node, answer = some node → node ∉ excluded
    | _, _ => True
  guarantee h e :=
    ∃ attempted, Going env request attempted h ∧
      ∀ a, e = .forwardOnce a → attempted.length < maxHops ∧ ∃ target ∉ attempted,
        a = request.attempt target

section

variable {env : Env} {request : ForwardRequest} {attempted : List String} {h : History}

theorem Going.table (hg : Going env request attempted h) {e : Call} (he : e.IsTable)
    (r : e.Answer) : Going env request attempted (h ++ [⟨e, r⟩]) := by
  have hsame := attemptsOf_concat_table env h he r
  exact ⟨by rw [hsame]; exact hg.retriable, by rw [hsame]; exact hg.targets, hg.nodup,
    hg.length_le, by rw [hsame]; exact hg.same⟩

/-- One more attempt, on a new target, that allows another one. -/
theorem Going.attempt (hg : Going env request attempted h) {target : String}
    (hfresh : target ∉ attempted) (hlen : attempted.length < maxHops) {reply : Reply}
    (hret : Retriable request.method (outcome env (request.attempt target) reply)) :
    Going env request (target :: attempted)
      (h ++ [⟨.forwardOnce (request.attempt target), reply⟩]) := by
  refine ⟨fun p hp => ?_, ?_, List.nodup_cons.2 ⟨hfresh, hg.nodup⟩, hlen, fun p hp => ?_⟩
  · rw [attemptsOf_append, List.mem_append] at hp
    rcases hp with hp | hp
    · exact hg.retriable p hp
    · rw [attemptsOf_attempt, List.mem_singleton] at hp
      exact hp ▸ hret
  · rw [attemptsOf_append, List.map_append, hg.targets, List.reverse_cons]
    rfl
  · rw [attemptsOf_append, List.mem_append] at hp
    rcases hp with hp | hp
    · exact hg.same p hp
    · rw [attemptsOf_attempt, List.mem_singleton] at hp
      rw [hp]
      rfl

theorem Going.not_ambiguous (hg : Going env request attempted h)
    (hnever : methodIsReplaySafe request.method = false) {p : Attempt × Upstream}
    (hp : p ∈ attemptsOf env h) : p.2 ≠ .ambiguousTransport := by
  intro hamb
  rcases hg.retriable p hp with hret | ⟨-, hsafe⟩
  · exact hret (by rw [hamb]; trivial)
  · rw [hnever] at hsafe
    exact absurd hsafe (by simp)

theorem Going.reported (hg : Going env request attempted h) (response : Response) :
    Reported env request h response := fun hnever _ hp hamb =>
  absurd hamb (hg.not_ambiguous hnever hp)

/-- A last attempt that was not ambiguous leaves nothing to report. -/
theorem Going.reported_attempt (hg : Going env request attempted h) {target : String}
    {reply : Reply} (hout : outcome env (request.attempt target) reply ≠ .ambiguousTransport)
    (response : Response) :
    Reported env request (h ++ [⟨.forwardOnce (request.attempt target), reply⟩]) response := by
  intro hnever p hp hamb
  rw [attemptsOf_append, List.mem_append] at hp
  rcases hp with hp | hp
  · exact absurd hamb (hg.not_ambiguous hnever hp)
  · rw [attemptsOf_attempt, List.mem_singleton] at hp
    rw [hp] at hamb
    exact absurd hamb hout

/-- The loop meets its obligations. -/
theorem hops_noReplay (env : Env) (request : ForwardRequest) :
    Hops env (noReplay env request) request
      (fun attempted target h => Going env request attempted h ∧ target ∉ attempted)
      (fun attempted h => Going env request attempted h) (Reported env request) := by
  refine ⟨fun hI => ?_, fun {attempted target h} hI hlen => ?_, fun {attempted h} hJ leader => ?_,
    fun {attempted h} hJ => ?_, fun hI _ => hI.1.reported _⟩
  · exact ⟨⟨_, hI.1, by simp⟩, hI.1.table (e := .recordRegionRequest _) trivial _, hI.2⟩
  · refine ⟨⟨attempted, hI.1, fun a ha => ⟨hlen, target, hI.2, (Call.forwardOnce.inj ha).symm⟩⟩,
      fun reply _ => ?_⟩
    cases hout : outcome env (request.attempt target) reply with
    | served response => exact hI.1.reported_attempt (by simp [hout]) _
    | responseTooLarge => exact hI.1.reported_attempt (by simp [hout]) _
    | notLeader leader => exact hI.1.attempt hI.2 hlen (Or.inl (by rw [hout]; exact id))
    | notSent => exact hI.1.attempt hI.2 hlen (Or.inl (by rw [hout]; exact id))
    | ambiguousTransport =>
      rw [AfterAttempt]
      split
      · exact hI.1.attempt hI.2 hlen (Or.inr ⟨hout, ‹_›⟩)
      · exact fun _ _ _ _ => rfl
  · refine ⟨fun shard _ => ⟨⟨attempted, hJ, by simp⟩, fun answer _ => ?_⟩,
      fun _ => ⟨⟨attempted, hJ, by simp⟩, fun answer _ => ?_⟩⟩
    · have hJ' := hJ.table (e := .acceptLeaderHint shard leader) trivial answer
      exact ⟨hJ', fun target hfresh _ => ⟨hJ', hfresh⟩⟩
    · have hJ' := hJ.table (e := .validateNodeHint leader) trivial answer
      exact ⟨hJ', fun target hfresh _ => ⟨hJ', hfresh⟩⟩
  · refine ⟨⟨attempted, hJ, by simp⟩, fun answer hr => ?_⟩
    have hJ' := hJ.table (e := .anyNodeExcluding attempted) trivial answer
    exact ⟨fun target htarget => ⟨hJ', hr target htarget⟩, fun _ => hJ'.reported _⟩

/-- A history without attempts, or one cut at its last attempt. -/
theorem attemptsOf_last (env : Env) (h : History) :
    attemptsOf env h = [] ∨ ∃ pre a, ∃ reply : Reply, ∃ post,
      h = pre ++ ⟨.forwardOnce a, reply⟩ :: post ∧ attemptsOf env post = [] := by
  induction h using List.reverseRecOn with
  | nil => exact Or.inl rfl
  | append_singleton h ev ih =>
    obtain ⟨e, r⟩ := ev
    by_cases he : e.IsTable
    · have hnone := attemptsOf_table env he r
      rcases ih with ih | ⟨pre, a, reply, post, rfl, hpost⟩
      · exact Or.inl (by rw [attemptsOf_append, ih, hnone]; rfl)
      · refine Or.inr ⟨pre, a, reply, post ++ [⟨e, r⟩], by simp, ?_⟩
        rw [attemptsOf_append, hpost, hnone]
        rfl
    · cases e with
      | forwardOnce a => exact Or.inr ⟨h, a, r, [], rfl, rfl⟩
      | _ => exact absurd trivial he

/-- The attempts of a run that keeps the contract: none, or a last one on a new target
after others that allowed it. -/
theorem attempts_of_guaranteed {tr : History}
    (hg : (noReplay env request).Guaranteed [] tr) :
    attemptsOf env tr = [] ∨ ∃ attempted pre target upstream, Going env request attempted pre ∧
      target ∉ attempted ∧ attempted.length < maxHops ∧
        attemptsOf env tr = attemptsOf env pre ++ [(request.attempt target, upstream)] := by
  rcases attemptsOf_last env tr with hnone | ⟨pre, a, reply, post, htr, hpost⟩
  · exact Or.inl hnone
  · obtain ⟨attempted, hgoing, hnew⟩ := Contract.along_iff.1 hg pre _ post htr
    obtain ⟨hlen, target, hfresh, rfl⟩ := hnew a rfl
    rw [List.nil_append] at hgoing
    refine Or.inr ⟨attempted, pre, target, outcome env (request.attempt target) reply, hgoing,
      hfresh, hlen, ?_⟩
    rw [htr, attemptsOf_append, ← List.singleton_append, attemptsOf_append, hpost,
      attemptsOf_attempt, List.append_nil]

/-- Answers of the table are answers the contract relies on. -/
theorem relied_noReplay {tr : History} (htable : ∀ ev ∈ tr, FromTable env ev) :
    (noReplay env request).Relied [] tr := by
  refine Contract.along_iff.2 fun pre ev post htr => ?_
  have hev := htable ev (by simp [htr])
  obtain ⟨e, r⟩ := ev
  cases e with
  | anyNodeExcluding excluded =>
    intro node hnode
    obtain ⟨t, t', hstep⟩ := hev trivial
    cases hstep with
    | anyNodeExcluding =>
      obtain ⟨c, -, hc⟩ := RouteTable.anyNodeExcluding_cases t excluded
      exact (hc node hnode).2
  | _ => trivial

end

/-- **No replay of a possibly applied mutation, no target tried twice.**  Whatever the
attempts told and whatever states the table went through, a run of the loop makes at
most `maxHops` attempts of its request, on pairwise different targets.  Where the
method is not GET, HEAD or OPTIONS, every attempt but the last ended `notSent` or
`notLeader`, an ambiguous attempt ends the run with the ambiguous response, and at most
one attempt may have been applied. -/
theorem forwardWithRedirect_attempts (env : Env) (request : ForwardRequest) {tr : History}
    {q : Task Response} (hrun : (forwardWithRedirect env request).Steps tr q)
    (htable : ∀ ev ∈ tr, FromTable env ev) :
    (attemptsOf env tr).length ≤ maxHops ∧
    ((attemptsOf env tr).map (·.1.nodeUrl)).Nodup ∧
    (∀ p ∈ attemptsOf env tr, p.1 = request.attempt p.1.nodeUrl) ∧
    (request.method ≠ .get ∧ request.method ≠ .head ∧ request.method ≠ .options →
      (∀ p ∈ (attemptsOf env tr).dropLast, p.2 = .notSent ∨ ∃ leader, p.2 = .notLeader leader) ∧
      (∀ p ∈ attemptsOf env tr, p.2 = .ambiguousTransport → q = .done (ambiguousResponse env)) ∧
      ((attemptsOf env tr).filter (·.2.MayHaveApplied)).length ≤ 1) := by
  have hstart : Going env request [] [] := ⟨by simp, rfl, List.nodup_nil, Nat.zero_le _, by simp⟩
  have hwp := wp_forwardWithRedirect (hops_noReplay env request) ⟨hstart, by simp⟩
  obtain ⟨hguar, hq⟩ := Proc.wp_sound hwp hrun (relied_noReplay htable)
  rw [List.nil_append] at hq
  have hnever : request.method ≠ .get ∧ request.method ≠ .head ∧ request.method ≠ .options →
      methodIsReplaySafe request.method = false := by
    rintro ⟨hget, hhead, hoptions⟩
    simp [methodIsReplaySafe, hget, hhead, hoptions]
  have hreported : request.method ≠ .get ∧ request.method ≠ .head ∧ request.method ≠ .options →
      ∀ p ∈ attemptsOf env tr, p.2 = .ambiguousTransport → q = .done (ambiguousResponse env) := by
    intro hm p hp hamb
    cases q with
    | done response => rw [hq (hnever hm) p hp hamb]
    | call e k =>
      obtain ⟨attempted, hgoing, -⟩ := hq.1
      exact absurd hamb (hgoing.not_ambiguous (hnever hm) hp)
  rcases attempts_of_guaranteed hguar with hnone | ⟨attempted, pre, target, upstream, hgoing,
    hfresh, hlen, heq⟩
  · simp [hnone]
  have hpre : (attemptsOf env pre).length = attempted.length := by
    simpa using congrArg List.length hgoing.targets
  have hnot : request.method ≠ .get ∧ request.method ≠ .head ∧ request.method ≠ .options →
      ∀ p ∈ attemptsOf env pre, ¬p.2.MayHaveApplied := fun hm p hp =>
    (hgoing.retriable p hp).resolve_right fun h => hgoing.not_ambiguous (hnever hm) hp h.1
  refine ⟨?_, ?_, fun p hp => ?_, fun hm => ⟨fun p hp => ?_, hreported hm, ?_⟩⟩
  · rw [heq, List.length_append, hpre, List.length_singleton]
    omega
  · rw [heq, List.map_append, hgoing.targets]
    simpa [ForwardRequest.attempt, List.nodup_append, hgoing.nodup] using
      fun a ha (h : a = target) => hfresh (h ▸ ha)
  · rw [heq, List.mem_append] at hp
    rcases hp with hp | hp
    · exact hgoing.same p hp
    · rw [List.mem_singleton.1 hp]
      rfl
  · rw [heq, List.dropLast_concat] at hp
    exact Upstream.not_mayHaveApplied_iff.1 (hnot hm p hp)
  · have hfilter : (attemptsOf env pre).filter (·.2.MayHaveApplied) = [] :=
      List.filter_eq_nil_iff.2 fun p hp => by simpa using hnot hm p hp
    rw [heq, List.filter_append, hfilter, List.nil_append]
    exact List.length_filter_le _ _

/-- The first node cannot be reached, the second serves. -/
theorem forwardWithRedirect_attempts_retried :
    let request := (Sample.put []).forward Reference.env 1 "http://a:1"
    let tr := ((forwardWithRedirect Reference.env request).runWith Sample.oracle []).1
    (attemptsOf Reference.env tr).length = 2 ∧
      ((attemptsOf Reference.env tr).map (·.1.nodeUrl)).Nodup ∧
      ((attemptsOf Reference.env tr).filter (·.2.MayHaveApplied)).length ≤ 1 := by
  intro request tr
  obtain ⟨-, hnodup, -, hmutation⟩ := forwardWithRedirect_attempts Reference.env request
    (Proc.steps_runWith Sample.oracle _ []) fun ev hev htable => by
      obtain ⟨h, hanswer⟩ := Proc.mem_runWith hev
      rw [hanswer]
      exact ⟨Sample.table, Sample.tableStep_oracle h htable⟩
  exact ⟨by decide +kernel, hnodup, (hmutation (by decide)).2.2⟩

end Proxy

end LoadBalance
