import FiduciaLoadBalance.Proxy.Grants
import FiduciaLoadBalance.Proxy.Simulation

/-!
# At most once under a key

How often the mutations of one key are applied, where no record expires.

* `Held` — the invariant: a key's record stands for the one task whose mutation was
  applied, or may yet be, and that task never releases it;
* `applied_at_most_once` — so, as long as the balancer takes no mutation with a key for a
  step of the protocol, and every attempt of one ends conclusively, one mutation is applied
  under each key;
* `not_applied_at_most_once` — and not otherwise: a task releases its claim after an
  attempt whose outcome it does not know, and claims nothing for a path that begins as the
  protocol's do.
-/

namespace LoadBalance

open Http Text Json Conc

namespace Proxy

/-! ## Attempts with a key -/

section

variable {env : Env} {key : String} {a : Attempt}

theorem mutates_of_keyOf (h : keyOf env a = some key) : mutates a = true := by
  rw [keyOf] at h
  split at h
  · assumption
  · exact absurd h (by simp)

theorem not_keyOf_of_step (h : isProtocolStep a = true) : keyOf env a ≠ some key := by
  intro hkey
  have hmutates := mutates_of_keyOf hkey
  rw [mutates_of_step h] at hmutates
  exact absurd hmutates (by simp)

/-- The attempts of a request with a key carry it. -/
theorem keyOf_attempt {request : Request} {idempotency : CustomerIdempotency}
    (hidem : CustomerIdempotency.fromRequest env request.identity request.method request.uri
      request.headers request.body = .ok (some idempotency)) (nodeUrl : String) :
    keyOf env (request.attempt nodeUrl) = some idempotency.internalKey := by
  obtain ⟨hmethod, hprimitive⟩ := mutates_of_fromRequest hidem
  obtain ⟨trimmed, htrimmed, rfl⟩ := CustomerIdempotency.fromRequest_eq_some hidem
  have hmutates : mutates (request.attempt nodeUrl) = true :=
    mutates_of_not_primitive hmethod hprimitive
  rw [keyOf, if_pos hmutates]
  show (idempotencyKeyText request.headers).map _ = _
  rw [htrimmed]
  rfl

/-- If the balancer takes a write for a step of the protocol, as it does wherever the path
begins with `/v1/idempotency`, then the write names no key, and is not such a step either. -/
def Guarded (request : Request) : Prop :=
  methodSupportsCustomerIdempotency request.method = true →
    isIdempotencyPrimitive request.uri = true →
      idempotencyKeyText request.headers = none ∧ isProtocolStep (request.attempt "") = false

/-- The attempts of a request that derives no key carry none. -/
theorem keyOf_attempt_of_none {request : Request} (hguarded : Guarded request)
    (hnone : CustomerIdempotency.fromRequest env request.identity request.method request.uri
      request.headers request.body = .ok none) (nodeUrl : String) :
    keyOf env (request.attempt nodeUrl) = none := by
  rw [keyOf]
  split
  · rename_i hmutates
    have hmethod : methodSupportsCustomerIdempotency request.method = true :=
      (Bool.and_eq_true_iff.1 hmutates).1
    have hkey : idempotencyKeyText request.headers = none := by
      cases hprimitive : isIdempotencyPrimitive request.uri with
      | true => exact (hguarded hmethod hprimitive).1
      | false =>
        exact CustomerIdempotency.idempotencyKeyText_of_fromRequest hmethod hprimitive hnone
    show (idempotencyKeyText request.headers).map _ = _
    rw [hkey]
    rfl
  · rfl

/-- Nor are they steps of the protocol. -/
theorem Guarded.not_step {request : Request} (hguarded : Guarded request) (nodeUrl : String) :
    isProtocolStep (request.attempt nodeUrl) = false := by
  rw [Bool.eq_false_iff]
  intro hstep
  have hprimitive := primitive_of_step hstep
  have hpost := hstep
  rw [isProtocolStep, decide_eq_true_eq] at hpost
  have hmethod : methodSupportsCustomerIdempotency request.method = true := by
    rw [show request.method = .post from hpost.1]
    decide
  have hnot : isProtocolStep (request.attempt nodeUrl) = false := (hguarded hmethod hprimitive).2
  exact absurd (hstep.symm.trans hnot) (by simp)

/-- Only a step of the protocol asks for an operation on a record. -/
theorem isProtocolStep_of_operationOf {operation : Operation}
    (h : operationOf env a = some operation) : isProtocolStep a = true := by
  rw [operationOf] at h
  split at h
  · rename_i hpost
    obtain ⟨value, -, hat⟩ := Option.bind_eq_some_iff.1 h
    obtain ⟨key, -, hat⟩ := Option.bind_eq_some_iff.1 hat
    refine decide_eq_true ⟨hpost, ?_⟩
    split at hat
    · exact Or.inl ‹_›
    · split at hat
      · exact Or.inr (Or.inl ‹_›)
      · split at hat
        · exact Or.inr (Or.inr ‹_›)
        · exact absurd hat (by simp)
  · exact absurd h (by simp)

theorem releasedBy_of_not_step (h : isProtocolStep a = false) : Nodes.releasedBy env a = [] := by
  unfold Nodes.releasedBy
  cases hop : operationOf env a with
  | none => rfl
  | some operation =>
    rw [isProtocolStep_of_operationOf hop] at h
    exact absurd h (by simp)

theorem not_step_of_mutates (h : mutates a = true) : isProtocolStep a = false := by
  simpa using (Bool.and_eq_true_iff.1 h).2

end

/-! ## What is applied under a key -/

/-- The mutations applied under a key. -/
def Nodes.appliedUnder (env : Env) (key : String) (s : Nodes) : List (ℕ × Attempt) :=
  s.applied.filter fun p => keyOf env p.2 = some key

/-- Those, and the ones that may still arrive. -/
def Nodes.pendingUnder (env : Env) (key : String) (s : Nodes) : List (ℕ × Attempt) :=
  (s.applied ++ s.inFlight).filter fun p => keyOf env p.2 = some key

/-- **The invariant of a key.**  `T` are the tasks that may have applied their mutation and
`A` those that began to release their claim, tasks that are gone counted in both. -/
structure Held (env : Env) (key : String) (T A : ℕ → Prop) (s : Nodes) : Prop where
  inv : s.Inv
  /-- A grant that nobody began to release has its record. -/
  kept : ∀ g ∈ s.grants, g.fencingToken ∉ s.released →
    ∃ record, s.records g.key = some record ∧ record.fencingToken = g.fencingToken
  flying : ∀ p ∈ s.inFlight, ∀ token ∈ Nodes.releasedBy env p.2, token ∈ s.released
  released : ∀ token ∈ s.released, ∃ g ∈ s.grants, g.fencingToken = token ∧ A g.task
  single : (s.pendingUnder env key).length ≤ 1
  held : ∀ p ∈ s.pendingUnder env key, ∃ g ∈ s.grants, g.task = p.1 ∧ g.key = key ∧
    g.fencingToken ∉ s.released ∧ T g.task

/-- What a task must have before it makes an attempt: the grants of the tokens it
releases, and that of the key it applies a mutation under. -/
structure Entitled (env : Env) (key : String) (T A : ℕ → Prop) (s : Nodes) (i : ℕ)
    (a : Attempt) : Prop where
  release : ∀ token ∈ Nodes.releasedBy env a,
    ∃ g ∈ s.grants, g.fencingToken = token ∧ g.task = i ∧ ¬T i
  apply : keyOf env a = some key → ∃ g ∈ s.grants, g.task = i ∧ g.key = key ∧ ¬A i ∧ ¬T i

section

variable {env : Env} {key : String} {T A T' A' : ℕ → Prop} {s s' : Nodes} {i : ℕ} {a : Attempt}

theorem Held.empty : Held env key T A Nodes.empty where
  inv := .empty
  kept := by simp [Nodes.empty]
  flying := by simp [Nodes.empty]
  released := by simp [Nodes.empty]
  single := by simp [Nodes.empty, Nodes.pendingUnder]
  held := by simp [Nodes.empty, Nodes.pendingUnder]

/-- Marks are never taken back. -/
theorem Held.mono (h : Held env key T A s) (hT : ∀ i, T i → T' i) (hA : ∀ i, A i → A' i) :
    Held env key T' A' s where
  inv := h.inv
  kept := h.kept
  flying := h.flying
  released := fun token htoken => by
    obtain ⟨g, hg, hsame, hmark⟩ := h.released token htoken
    exact ⟨g, hg, hsame, hA _ hmark⟩
  single := h.single
  held := fun p hp => by
    obtain ⟨g, hg, htask, hkey, hfree, hmark⟩ := h.held p hp
    exact ⟨g, hg, htask, hkey, hfree, hT _ hmark⟩

/-- Of two grants of a key, one was released. -/
theorem Held.eq_of_free (h : Held env key T A s) {g g' : Grant} (hg : g ∈ s.grants)
    (hg' : g' ∈ s.grants) (hkey : g.key = g'.key) (hfree : g.fencingToken ∉ s.released)
    (hfree' : g'.fencingToken ∉ s.released) : g = g' := by
  obtain ⟨record, hrecord, htoken⟩ := h.kept g hg hfree
  obtain ⟨record', hrecord', htoken'⟩ := h.kept g' hg' hfree'
  rw [hkey, hrecord'] at hrecord
  obtain rfl := Option.some.inj hrecord
  exact h.inv.unique g hg g' hg' (htoken.symm.trans htoken')

/-- **A task that may apply its mutation is the first to do so.** -/
theorem Held.pending_nil (h : Held env key T A s) (ha : Entitled env key T A s i a)
    (hkey : keyOf env a = some key) : s.pendingUnder env key = [] ∧
      ∃ g ∈ s.grants, g.task = i ∧ g.key = key ∧ g.fencingToken ∉ s.released := by
  obtain ⟨g, hg, rfl, hgkey, hnotA, hnotT⟩ := ha.apply hkey
  have hfree : g.fencingToken ∉ s.released := by
    intro hreleased
    obtain ⟨g', hg', htoken, hmark⟩ := h.released _ hreleased
    rw [h.inv.unique g' hg' g hg htoken] at hmark
    exact hnotA hmark
  refine ⟨List.eq_nil_iff_forall_not_mem.2 fun p hp => ?_, g, hg, rfl, hgkey, hfree⟩
  obtain ⟨g', hg', -, hkey', hfree', hmark⟩ := h.held p hp
  rw [h.eq_of_free hg' hg (hkey'.trans hgkey.symm) hfree' hfree] at hmark
  exact hnotT hmark

/-! ## What the nodes do to the invariant -/

/-- Releasing tokens. -/
theorem Held.release (h : Held env key T A s) {tokens : List UInt64}
    (htokens : ∀ token ∈ tokens, token ∈ s.released ∨
      ∃ g ∈ s.grants, g.fencingToken = token ∧ A g.task ∧ ¬T g.task) :
    Held env key T A { s with released := tokens ++ s.released } where
  inv := ⟨h.inv.unique, h.inv.granted⟩
  kept := fun g hg hfree => h.kept g hg fun hr => hfree (List.mem_append_right _ hr)
  flying := fun p hp token htoken => List.mem_append_right _ (h.flying p hp token htoken)
  released := fun token htoken => by
    rcases List.mem_append.1 htoken with htoken | htoken
    · rcases htokens token htoken with hr | ⟨g, hg, hsame, hmark, -⟩
      · exact h.released token hr
      · exact ⟨g, hg, hsame, hmark⟩
    · exact h.released token htoken
  single := h.single
  held := fun p hp => by
    obtain ⟨g, hg, htask, hkey, hfree, hT⟩ := h.held p hp
    refine ⟨g, hg, htask, hkey, fun hreleased => ?_, hT⟩
    rcases List.mem_append.1 hreleased with hreleased | hreleased
    · rcases htokens _ hreleased with hr | ⟨g', hg', hsame, -, hnotT⟩
      · exact hfree hr
      · rw [h.inv.unique g' hg' g hg hsame] at hnotT
        exact hnotT hT
    · exact hfree hreleased

/-- Changing records, those of released tokens apart, in nothing that matters. -/
theorem Held.change (h : Held env key T A s) {records : String → Option Record}
    (hinv : Nodes.Inv { s with records := records })
    (hrecords : ∀ key record, s.records key = some record → record.fencingToken ∉ s.released →
      ∃ record', records key = some record' ∧ record'.fencingToken = record.fencingToken) :
    Held env key T A { s with records := records } where
  inv := hinv
  kept := fun g hg hfree => by
    obtain ⟨record, hrecord, htoken⟩ := h.kept g hg hfree
    obtain ⟨record', hrecord', hsame⟩ := hrecords _ _ hrecord (htoken.symm ▸ hfree)
    exact ⟨record', hrecord', hsame.trans htoken⟩
  flying := h.flying
  released := h.released
  single := h.single
  held := h.held

/-- Granting a claim. -/
theorem Held.grant (h : Held env key T A s) {claimed owner : String} {metadata : Value}
    {fencingToken : UInt64} (hinv : (s.grant i claimed owner fencingToken metadata).Inv)
    (hnone : s.records claimed = none) :
    Held env key T A (s.grant i claimed owner fencingToken metadata) where
  inv := hinv
  kept := fun g hg hfree => by
    rw [Nodes.grant_records]
    rcases List.mem_cons.1 hg with rfl | hg
    · rw [if_pos rfl]
      exact ⟨_, rfl, rfl⟩
    · obtain ⟨record, hrecord, htoken⟩ := h.kept g hg hfree
      rw [if_neg]
      · exact ⟨record, hrecord, htoken⟩
      · rintro hsame
        rw [hsame, hnone] at hrecord
        exact absurd hrecord (by simp)
  flying := h.flying
  released := fun token htoken => by
    obtain ⟨g, hg, hrest⟩ := h.released token htoken
    exact ⟨g, List.mem_cons_of_mem _ hg, hrest⟩
  single := h.single
  held := fun p hp => by
    obtain ⟨g, hg, hrest⟩ := h.held p hp
    exact ⟨g, List.mem_cons_of_mem _ hg, hrest⟩

/-- Applying mutations and losing requests, as long as nothing new is under the key. -/
theorem Held.rest (h : Held env key T A s) {applied inFlight : List (ℕ × Attempt)}
    (hflying : ∀ p ∈ inFlight, ∀ token ∈ Nodes.releasedBy env p.2, token ∈ s.released)
    (hpending : ((applied ++ inFlight).filter fun p => keyOf env p.2 = some key).Subperm
      (s.pendingUnder env key)) :
    Held env key T A { s with applied := applied, inFlight := inFlight } where
  inv := ⟨h.inv.unique, h.inv.granted⟩
  kept := h.kept
  flying := hflying
  released := h.released
  single := hpending.length_le.trans h.single
  held := fun p hp => h.held p (hpending.subset hp)

/-- The first mutation under the key. -/
theorem Held.first (h : Held env key T A s) {applied inFlight : List (ℕ × Attempt)}
    (hflying : ∀ p ∈ inFlight, ∀ token ∈ Nodes.releasedBy env p.2, token ∈ s.released)
    (hpending : ((applied ++ inFlight).filter fun p => keyOf env p.2 = some key) = [(i, a)])
    (hgrant : ∃ g ∈ s.grants, g.task = i ∧ g.key = key ∧ g.fencingToken ∉ s.released)
    (hmark : T i) : Held env key T A { s with applied := applied, inFlight := inFlight } where
  inv := ⟨h.inv.unique, h.inv.granted⟩
  kept := h.kept
  flying := hflying
  released := h.released
  single := le_of_eq (congrArg List.length hpending)
  held := fun p hp => by
    rw [Nodes.pendingUnder, hpending, List.mem_singleton] at hp
    obtain ⟨g, hg, rfl, hkey, hfree⟩ := hgrant
    exact ⟨g, hg, by rw [hp], hkey, hfree, hmark⟩

/-- **Carrying out a request**, of a task or from the wire. -/
theorem Held.performs (h : Held env key T A s) (hmark : ∀ j, T j → T' j)
    (hrelease : ∀ token ∈ Nodes.releasedBy env a, token ∈ s.released ∨
      ∃ g ∈ s.grants, g.fencingToken = token ∧ A g.task ∧ ¬T g.task)
    (hmutation : mutates a = true →
      Held env key T' A { s with applied := (i, a) :: s.applied }) {report : Report}
    (hperforms : Performs env i a s report s') : Held env key T' A s' := by
  have hinv : s'.Inv := h.inv.performs hperforms
  cases hperforms with
  | grant _ hnone _ => exact (h.grant hinv hnone).mono hmark fun _ => id
  | @complete key' owner fencingToken result _ =>
    refine (h.change hinv fun key'' record hrecord _ => ?_).mono hmark fun _ => id
    show ∃ record', (s.complete key' owner fencingToken result).records key'' = some record' ∧ _
    rw [Nodes.complete_records]
    split
    · rename_i hkey
      rw [← hkey.1, hrecord]
      exact ⟨_, rfl, rfl⟩
    · exact ⟨record, hrecord, rfl⟩
  | @abandon key' fencingToken hop =>
    have hby : Nodes.releasedBy env a = [fencingToken] := by
      unfold Nodes.releasedBy
      rw [hop]
    have hreleased := h.release hrelease
    rw [hby] at hreleased
    refine (hreleased.change hinv fun key'' record hrecord hfree => ?_).mono hmark fun _ => id
    show ∃ record', (s.abandon key' fencingToken).records key'' = some record' ∧ _
    rw [Nodes.abandon_records, if_neg]
    · exact ⟨record, hrecord, rfl⟩
    · rintro ⟨rfl, hheld⟩
      have hrecord' : s.records key'' = some record := hrecord
      rw [hrecord'] at hheld
      have htoken : record.fencingToken = fencingToken ∧ record.result = none := by
        simpa using hheld
      exact hfree (by simp [htoken.1])
  | duplicate => exact h.mono hmark fun _ => id
  | mutation _ hmutates => exact hmutation hmutates
  | other => exact h.mono hmark fun _ => id

/-- A request that may still arrive. -/
theorem Held.deliver (h : Held env key T A s) (hflying : (i, a) ∈ s.inFlight) {report : Report}
    (hperforms : Performs env i a { s with inFlight := s.inFlight.erase (i, a) } report s') :
    Held env key T A s' := by
  have hrest : ∀ p ∈ s.inFlight.erase (i, a), ∀ token ∈ Nodes.releasedBy env p.2,
      token ∈ s.released := fun p hp => h.flying p (List.mem_of_mem_erase hp)
  have herased : Held env key T A { s with inFlight := s.inFlight.erase (i, a) } :=
    h.rest hrest (((List.erase_sublist).append_left s.applied).filter _).subperm
  refine herased.performs (fun _ => id)
    (fun token htoken => Or.inl (h.flying _ hflying token htoken)) (fun _ => ?_) hperforms
  refine h.rest hrest (List.Perm.subperm (List.Perm.filter _ ?_))
  exact List.perm_middle.symm.trans ((List.perm_cons_erase hflying).symm.append_left s.applied)

/-- **An attempt of a task**, carried out. -/
theorem Held.attempt (h : Held env key T A s) (ha : Entitled env key T A s i a)
    (hT : ∀ j, T j → T' j) (hA : ∀ j, A j → A' j) (happlied : keyOf env a = some key → T' i)
    (hreleased : Nodes.releasedBy env a ≠ [] → A' i) {report : Report}
    (hperforms : Performs env i a s report s') : Held env key T' A' s' := by
  refine (h.mono (fun _ => id) hA).performs hT (fun token htoken => ?_) (fun _ => ?_) hperforms
  · obtain ⟨g, hg, hsame, rfl, hnot⟩ := ha.release token htoken
    exact Or.inr ⟨g, hg, hsame, hreleased (List.ne_nil_of_mem htoken), hnot⟩
  · by_cases hkey : keyOf env a = some key
    · obtain ⟨hnil, hgrant⟩ := h.pending_nil ha hkey
      refine (h.mono hT hA).first (a := a) h.flying ?_ hgrant (happlied hkey)
      rw [List.cons_append, List.filter_cons_of_pos (by simpa using hkey)]
      exact congrArg _ hnil
    · refine (h.mono hT hA).rest h.flying ?_
      rw [List.cons_append, List.filter_cons_of_neg (by simpa using hkey)]
      exact List.Subperm.refl _

/-- And one nobody knows the fate of. -/
theorem Held.send (h : Held env key T A s) (ha : Entitled env key T A s i a)
    (hT : ∀ j, T j → T' j) (hA : ∀ j, A j → A' j) (happlied : keyOf env a = some key → T' i)
    (hreleased : Nodes.releasedBy env a ≠ [] → A' i) :
    Held env key T' A' (s.send env i a) := by
  have hmarked := (h.mono (fun _ => id) hA).release fun token htoken => by
    obtain ⟨g, hg, hsame, rfl, hnot⟩ := ha.release token htoken
    exact Or.inr ⟨g, hg, hsame, hreleased (List.ne_nil_of_mem htoken), hnot⟩
  have hflying : ∀ p ∈ (i, a) :: s.inFlight, ∀ token ∈ Nodes.releasedBy env p.2,
      token ∈ Nodes.releasedBy env a ++ s.released := by
    intro p hp token htoken
    rcases List.mem_cons.1 hp with rfl | hp
    · exact List.mem_append_left _ htoken
    · exact List.mem_append_right _ (h.flying p hp token htoken)
  by_cases hkey : keyOf env a = some key
  · obtain ⟨hnil, g, hg, hgtask, hgkey, hfree⟩ := h.pending_nil ha hkey
    have hnone : Nodes.releasedBy env a = [] :=
      releasedBy_of_not_step (not_step_of_mutates (mutates_of_keyOf hkey))
    refine (hmarked.mono hT fun _ => id).first (a := a) hflying ?_ ⟨g, hg, hgtask, hgkey, ?_⟩
      (happlied hkey)
    · rw [Nodes.pendingUnder, List.filter_append, List.append_eq_nil_iff] at hnil
      rw [List.filter_append, List.filter_cons_of_pos (by simpa using hkey), hnil.1, hnil.2,
        List.nil_append]
    · rw [hnone]
      exact hfree
  · refine (hmarked.mono hT fun _ => id).rest hflying ?_
    rw [List.filter_append, List.filter_cons_of_neg (by simpa using hkey), ← List.filter_append]
    exact List.Subperm.refl _

end

/-! ## What a task does to the invariant -/

/-- The contract of a task without a key: it makes no attempts but the client's, for a request
that derives no key, and none after one that may have applied a mutation. -/
def keyless (env : Env) (request : Request) : Contract Call Call.Answer where
  rely _ _ _ := True
  guarantee h e := ∀ a, e = .forwardOnce a → a = request.attempt a.nodeUrl ∧
    CustomerIdempotency.fromRequest env request.identity request.method request.uri
      request.headers request.body = .ok none ∧ ¬Touched (attemptsOf env h)

/-- Task `i` may have applied its mutation, as far as anyone knows. -/
def Applying (env : Env) (h : List (WorldMoment Nodes))
    (c : Config Call Call.Answer Response (World Nodes)) (i : ℕ) : Prop :=
  Touched (attemptsOf env (Machine.own i h)) ∨ Machine.Gone c i

/-- Task `i` may have begun to release its claim. -/
def Releasing (env : Env) (h : List (WorldMoment Nodes))
    (c : Config Call Call.Answer Response (World Nodes)) (i : ℕ) : Prop :=
  Abandoned (attemptsOf env (Machine.own i h)) ∨ Machine.Gone c i

/-- If this moment is the answer to an attempt with a key, it is a conclusive one. -/
def ConclusiveAt (env : Env) (m : WorldMoment Nodes) : Prop :=
  ∀ i a, ∀ reply : Reply, m.label = .answer i ⟨.forwardOnce a, reply⟩ →
    (keyOf env a).isSome → (outcome env a reply).Conclusive env

/-- Every attempt of a mutation with a key ended conclusively. -/
def AllConclusive (env : Env) (h : List (WorldMoment Nodes)) : Prop := ∀ m ∈ h, ConclusiveAt env m

instance (env : Env) (m : WorldMoment Nodes) : Decidable (ConclusiveAt env m) :=
  match m with
  | ⟨.answer _ ⟨.forwardOnce a, reply⟩, _, _⟩ =>
    decidable_of_iff ((keyOf env a).isSome → (outcome env a reply).Conclusive env)
      ⟨fun h i a' reply' hlabel => by
        obtain ⟨-, hev⟩ := Label.answer.inj hlabel
        obtain ⟨hcall, hreply⟩ := Sigma.mk.inj hev
        obtain rfl := Call.forwardOnce.inj hcall
        obtain rfl := eq_of_heq hreply
        exact h, fun h => h _ _ _ rfl⟩
  | ⟨.answer _ ⟨.leaderFor _, _⟩, _, _⟩ => .isTrue (by simp [ConclusiveAt])
  | ⟨.answer _ ⟨.anyNodeExcluding _, _⟩, _, _⟩ => .isTrue (by simp [ConclusiveAt])
  | ⟨.answer _ ⟨.acceptLeaderHint _ _, _⟩, _, _⟩ => .isTrue (by simp [ConclusiveAt])
  | ⟨.answer _ ⟨.validateNodeHint _, _⟩, _, _⟩ => .isTrue (by simp [ConclusiveAt])
  | ⟨.answer _ ⟨.recordRegionRequest _, _⟩, _, _⟩ => .isTrue (by simp [ConclusiveAt])
  | ⟨.start _ _, _, _⟩ => .isTrue (by simp [ConclusiveAt])
  | ⟨.env, _, _⟩ => .isTrue (by simp [ConclusiveAt])
  | ⟨.drop _, _, _⟩ => .isTrue (by simp [ConclusiveAt])

instance (env : Env) (h : List (WorldMoment Nodes)) : Decidable (AllConclusive env h) :=
  inferInstanceAs (Decidable (∀ m ∈ h, ConclusiveAt env m))

section

variable {env : Env} {shardCount : ℕ} {request : Request}

theorem wp_route_keyless
    (hnone : ∀ idempotency, CustomerIdempotency.fromRequest env request.identity request.method
      request.uri request.headers request.body ≠ .ok (some idempotency)) :
    (route env shardCount request).wp (keyless env request) (fun _ _ => True) [] := by
  have hstart : ¬Touched (attemptsOf env []) := by simp [Touched]
  have hsend (hok : CustomerIdempotency.fromRequest env request.identity request.method request.uri
      request.headers request.body = .ok none) :
      (routeWithoutCustomerIdempotency env shardCount request).wp (keyless env request)
        (fun _ _ => True) [] := by
    refine wp_of_sending (K := fun h => ¬Touched (attemptsOf env h))
      ⟨fun {h e} hK he => ⟨?_, fun r _ => by rwa [attemptsOf_concat_table env h he r]⟩,
        fun {h} hK nodeUrl => ⟨?_, fun reply _ => ?_⟩, fun _ _ => trivial, fun _ => trivial⟩
      (fun _ _ => trivial) hstart
    · rintro a rfl
      exact he.elim
    · rintro a ha
      obtain rfl := Call.forwardOnce.inj ha
      exact ⟨rfl, hok, hK⟩
    · cases hout : outcome env (request.attempt nodeUrl) reply with
      | served response => trivial
      | notLeader leader =>
        exact untouched_attempt hK fun _ => by simp [hout, Upstream.Effective]
      | notSent => exact untouched_attempt hK fun _ => by simp [hout, Upstream.Effective]
      | ambiguousTransport =>
        rw [AfterAttempt]
        split
        · rename_i hsafe
          refine untouched_attempt hK fun hmutates => ?_
          have hmethod := (Bool.and_eq_true_iff.1 hmutates).1
          exact absurd (hsafe.symm.trans (not_replaySafe hmethod)) (by decide)
        · trivial
      | responseTooLarge => trivial
  rw [route]
  split
  · trivial
  · split
    · trivial
    · split
      · trivial
      · rename_i hok
        split
        · trivial
        · exact hsend hok
      · rename_i idempotency hidem
        exact absurd hidem (hnone idempotency)

end

section

variable {env : Env} {shardCount : ℕ} {admits : Request → Prop} {w₀ : World Nodes}
  {h : List (WorldMoment Nodes)} {c : Config Call Call.Answer Response (World Nodes)}
  {i : ℕ} {a : Attempt} {k : Reply → Task Response}

/-- What a step of the protocol needs is there. -/
theorem entitled_of_step (hjson : env.JsonRoundTrips)
    (hrun : (balancer env shardCount (upstreams env false) admits).Run w₀ h c)
    (hhere : ¬Machine.Gone c i) {request : Request} {idempotency : CustomerIdempotency}
    (hidem : CustomerIdempotency.fromRequest env request.identity request.method request.uri
      request.headers request.body = .ok (some idempotency))
    (hstep : Step env request idempotency True (attemptsOf env (Machine.own i h)) a)
    (key : String) :
    Entitled env key (Applying env h c) (Releasing env h c) c.shared.nodes i a ∧
      (Nodes.releasedBy env a ≠ [] → a.uri = abandonUri) ∧
      (a.uri = abandonUri → ¬Touched (attemptsOf env (Machine.own i h))) := by
  cases hstep with
  | claim ha =>
    have huri : a.uri = claimUri := congrArg Attempt.uri ha
    have hnone : Nodes.releasedBy env a = [] := by
      unfold Nodes.releasedBy
      rw [ha, claimAttempt, operationOf_claim hjson]
    refine ⟨⟨by simp [hnone], fun hkey => ?_⟩, fun h => absurd hnone h, fun h => ?_⟩
    · exact absurd hkey (not_keyOf_of_step (ha ▸ isProtocolStep_claim _))
    · exact absurd (huri.symm.trans h) (by decide)
  | forward ha hgranted hnotA hnotT =>
    obtain ⟨hmethod, hclient⟩ := mutates_of_fromRequest hidem
    have hmutates : mutates a = true := ha ▸ mutates_of_not_primitive hmethod hclient
    have hnone : Nodes.releasedBy env a = [] :=
      releasedBy_of_not_step (not_step_of_mutates hmutates)
    refine ⟨⟨by simp [hnone], fun hkey => ?_⟩, fun h => absurd hnone h, fun _ => hnotT⟩
    rw [ha, keyOf_attempt hidem, Option.some.injEq] at hkey
    exact ⟨_, grant_of_granted hjson hrun hgranted, rfl, hkey, not_or.2 ⟨hnotA, hhere⟩,
      not_or.2 ⟨hnotT, hhere⟩⟩
  | complete ha hgranted =>
    have huri : a.uri = completeUri := congrArg Attempt.uri ha
    have hnone : Nodes.releasedBy env a = [] := by
      unfold Nodes.releasedBy
      rw [ha, operationOf_complete hjson]
    refine ⟨⟨by simp [hnone], fun hkey => ?_⟩, fun h => absurd hnone h, fun h => ?_⟩
    · exact absurd hkey (not_keyOf_of_step (ha ▸ isProtocolStep_complete _ _))
    · exact absurd (huri.symm.trans h) (by decide)
  | @abandon fencingToken ha hgranted hnotT =>
    have huri : a.uri = abandonUri := congrArg Attempt.uri ha
    have hby : Nodes.releasedBy env a = [fencingToken] := by
      unfold Nodes.releasedBy
      rw [ha, operationOf_abandon hjson]
    refine ⟨⟨fun token htoken => ?_, fun hkey => ?_⟩, fun _ => huri, fun _ => hnotT trivial⟩
    · rw [hby, List.mem_singleton] at htoken
      exact ⟨_, grant_of_granted hjson hrun hgranted, htoken.symm, rfl,
        not_or.2 ⟨hnotT trivial, hhere⟩⟩
    · exact absurd hkey (not_keyOf_of_step (ha ▸ isProtocolStep_abandon _))

/-- **What a task that waits for an attempt may do.** -/
theorem entitled_of_waiting (hjson : env.JsonRoundTrips)
    (hadmits : ∀ request, admits request → Guarded request)
    (hrun : (balancer env shardCount (upstreams env false) admits).Run w₀ h c)
    (hconclusive : AllConclusive env h) (hlive : c.procs i = some (.call (.forwardOnce a) k))
    (key : String) :
    Entitled env key (Applying env h c) (Releasing env h c) c.shared.nodes i a ∧
      (Nodes.releasedBy env a ≠ [] → a.uri = abandonUri) ∧
      (a.uri = abandonUri → ¬Touched (attemptsOf env (Machine.own i h))) := by
  have hhere : ¬Machine.Gone c i := fun hgone => by
    rw [hgone.1] at hlive
    exact absurd hlive (by simp)
  obtain ⟨p, hst⟩ := hrun.tracked.started hlive
  obtain ⟨-, request, hadmitted, rfl⟩ := hrun.start_of_started hst
  by_cases hkey : ∃ idempotency, CustomerIdempotency.fromRequest env request.identity
      request.method request.uri request.headers request.body = .ok (some idempotency)
  · obtain ⟨idempotency, hidem⟩ := hkey
    have hrelied : Machine.OwnRelied (protocol env request idempotency True) i h := by
      rintro pre ⟨e, r⟩ before after post hsplit
      cases e with
      | forwardOnce a' =>
        intro _ ha'
        refine hconclusive ⟨.answer i ⟨.forwardOnce a', r⟩, before, after⟩ (by simp [hsplit]) i a' r
          rfl ?_
        rw [ha', keyOf_attempt hidem]
        rfl
      | _ => trivial
    exact entitled_of_step hjson hrun hhere hidem
      (hrun.own_next hst (wp_route_protocol hidem) hrelied hlive a rfl) key
  · have hnone := fun idempotency hidem => hkey ⟨idempotency, hidem⟩
    obtain ⟨ha, hok, huntouched⟩ :=
      hrun.own_next hst (wp_route_keyless hnone) (fun _ _ _ _ _ _ => trivial) hlive a rfl
    have hguarded := hadmits request hadmitted
    have hstep : isProtocolStep a = false := ha ▸ hguarded.not_step _
    have hby : Nodes.releasedBy env a = [] := releasedBy_of_not_step hstep
    refine ⟨⟨by simp [hby], fun hkey => ?_⟩, fun h => absurd hby h, fun _ => huntouched⟩
    rw [ha, keyOf_attempt_of_none hguarded hok] at hkey
    exact absurd hkey (by simp)

/-- The marks of a task stay. -/
theorem Applying.step {M : Machine Call Call.Answer Response (World Nodes)}
    {c' : Config Call Call.Answer Response (World Nodes)} {m : WorldMoment Nodes}
    (hstep : M.Step c m c') {j : ℕ} (hmark : Applying env h c j) :
    Applying env (h ++ [m]) c' j := by
  rcases hmark with ⟨p, hp, happlied⟩ | hgone
  · refine Or.inl ⟨p, ?_, happlied⟩
    rw [Machine.own_append, attemptsOf_append]
    exact List.mem_append_left _ hp
  · exact Or.inr (hstep.gone hgone)

theorem Releasing.step {M : Machine Call Call.Answer Response (World Nodes)}
    {c' : Config Call Call.Answer Response (World Nodes)} {m : WorldMoment Nodes}
    (hstep : M.Step c m c') {j : ℕ} (hmark : Releasing env h c j) :
    Releasing env (h ++ [m]) c' j := by
  rcases hmark with ⟨p, hp, habandoned⟩ | hgone
  · refine Or.inl ⟨p, ?_, habandoned⟩
    rw [Machine.own_append, attemptsOf_append]
    exact List.mem_append_left _ hp
  · exact Or.inr (hstep.gone hgone)

/-- The attempt that a moment answers is one of its task's. -/
theorem mem_attemptsOf_concat {m : WorldMoment Nodes} {i : ℕ} {a : Attempt} {reply : Reply}
    (hlabel : m.label = .answer i ⟨.forwardOnce a, reply⟩) :
    (a, outcome env a reply) ∈ attemptsOf env (Machine.own i (h ++ [m])) := by
  have hown : Machine.own i [m] = [⟨.forwardOnce a, reply⟩] := by
    simp [Machine.own, hlabel, Label.own]
  rw [Machine.own_append, attemptsOf_append, hown, attemptsOf_attempt]
  exact List.mem_append_right _ (List.mem_singleton.2 rfl)

/-- What is applied under a key is held by its task, in every state of a run. -/
theorem held_of_run (hjson : env.JsonRoundTrips)
    (hadmits : ∀ request, admits request → Guarded request)
    {seeds : List String} (hrun : (balancer env shardCount (upstreams env false) admits).Run
      (World.new env shardCount seeds Nodes.empty) h c)
    (hconclusive : AllConclusive env h) (key : String) :
    Held env key (Applying env h c) (Releasing env h c) c.shared.nodes := by
  induction hrun with
  | init => exact .empty
  | @step h c c' m hrun hstep ih =>
    have hbefore : AllConclusive env h := fun m' hm' => hconclusive m' (by simp [hm'])
    have hheld := ih hbefore
    have hT : ∀ j, Applying env h c j → Applying env (h ++ [m]) c' j :=
      fun _ hmark => hmark.step hstep
    have hA : ∀ j, Releasing env h c j → Releasing env (h ++ [m]) c' j :=
      fun _ hmark => hmark.step hstep
    cases hstep with
    | start _ => exact hheld.mono hT hA
    | @answer i e k r s' hlive hexec =>
      have hexec : Exec env (upstreams env false) i c.shared e r s' := hexec
      cases hexec with
      | table _ => exact hheld.mono hT hA
      | @attempt a reply n hanswers =>
        obtain ⟨hentitled, hreleased, -⟩ :=
          entitled_of_waiting hjson hadmits hrun hbefore hlive key
        have hanswers : Answers env i a c.shared.nodes reply n := hanswers
        cases hanswers with
        | refused _ => exact hheld.mono hT hA
        | failed _ _ => exact hheld.mono hT hA
        | lost hlost =>
          refine hheld.send hentitled hT hA (fun hkey => ?_)
            fun hne => Or.inl ⟨_, mem_attemptsOf_concat rfl, hreleased hne⟩
          have hknown := hconclusive _ (List.mem_append_right _ (List.mem_singleton.2 rfl)) i a
            reply rfl (by rw [hkey]; rfl)
          rcases hlost with hlost | hlost <;>
          · rw [hlost] at hknown
            exact hknown.elim
        | served hserved hperforms hfinal _ =>
          refine hheld.attempt hentitled hT hA (fun hkey => ?_)
            (fun hne => Or.inl ⟨_, mem_attemptsOf_concat rfl, hreleased hne⟩) hperforms
          have hmutates := mutates_of_keyOf hkey
          refine Or.inl ⟨_, mem_attemptsOf_concat rfl, hmutates, ?_⟩
          show (outcome env a reply).Effective
          rw [hserved]
          exact hfinal hmutates
    | env harrives =>
      have harrives : Arrives env (upstreams env false) c.shared _ := harrives
      cases harrives with
      | snapshot => exact hheld.mono hT hA
      | nodes hbackground =>
        have hbackground : Background env false c.shared.nodes _ := hbackground
        cases hbackground with
        | deliver hflying hperforms => exact (hheld.deliver hflying hperforms).mono hT hA
        | expire hexpires => exact absurd hexpires (by simp)
    | @drop i p s' hlive hcancels =>
      have hcancels : Cancels (upstreams env false) i p c.shared s' := hcancels
      cases hcancels with
      | still => exact hheld.mono hT hA
      | @attempt w a k n hsent =>
        obtain rfl : n = c.shared.nodes.send env i a := hsent
        obtain ⟨hentitled, -, -⟩ := entitled_of_waiting hjson hadmits hrun hbefore hlive key
        have hgone : Machine.Gone (⟨{ c.shared with nodes := c.shared.nodes.send env i a },
            Function.update c.procs i none, c.next⟩ :
              Config Call Call.Answer Response (World Nodes)) i :=
          ⟨Function.update_self .., hrun.lt_next hlive⟩
        exact hheld.send hentitled hT hA (fun _ => Or.inr hgone) fun _ => Or.inr hgone

end

/-- **At most once under a key.**  In every run in which no record expires, no path of a
mutation with a key begins with `/v1/idempotency`, and every attempt of a mutation with a key
ends conclusively, at most one mutation is applied under each key, and no task releases its
claim once its mutation may have been applied. -/
theorem applied_at_most_once (env : Env) (hjson : env.JsonRoundTrips) {shardCount : ℕ}
    {admits : Request → Prop}
    (hadmits : ∀ request, admits request → Guarded request)
    {seeds : List String} {h : List (WorldMoment Nodes)}
    {c : Config Call Call.Answer Response (World Nodes)}
    (hrun : (balancer env shardCount (upstreams env false) admits).Run
      (World.new env shardCount seeds Nodes.empty) h c)
    (hconclusive : AllConclusive env h) :
    (∀ key, (c.shared.nodes.appliedUnder env key).length ≤ 1) ∧
    ∀ i a k, c.procs i = some (.call (.forwardOnce a) k) → a.uri = abandonUri →
      ¬Touched (attemptsOf env (Machine.own i h)) := by
  refine ⟨fun key => ?_, fun i a k hlive =>
    (entitled_of_waiting hjson hadmits hrun hconclusive hlive "").2.2⟩
  refine le_trans (List.Sublist.length_le ?_)
    (held_of_run hjson hadmits hrun hconclusive key).single
  exact (List.sublist_append_left _ _).filter _

theorem Sample.guarded_of_admits (request : Request) (h : Sample.Admits request) :
    Guarded request := fun _ hprimitive => absurd (hprimitive.symm.trans h) (by simp)

/-- A request that is forwarded and stored, played: it was applied, and once. -/
theorem applied_at_most_once_stored : ∃ h c, Sample.Cluster.Run Sample.world h c ∧
    (c.shared.nodes.appliedUnder Reference.env (Sample.claimed []).internalKey).length = 1 := by
  obtain ⟨h, c, _, _, hplay, -, hfound⟩ := Sample.driver.exists_play (.initial Sample.world)
    (Sample.first []) [] (fun h c _ _ => AllConclusive Reference.env h ∧
      1 ≤ (c.shared.nodes.appliedUnder Reference.env (Sample.claimed []).internalKey).length)
    (by decide +kernel)
  obtain ⟨hconclusive, happlied⟩ := of_decide_eq_true hfound
  have hrun : Sample.Cluster.Run Sample.world h c := Sample.driver.run_of_play .init hplay
  have honce := (applied_at_most_once Reference.env Reference.jsonRoundTrips Sample.guarded_of_admits hrun
    hconclusive).1 (Sample.claimed []).internalKey
  exact ⟨h, c, hrun, le_antisymm honce happlied⟩

/-- A mutation that got no answer is applied again. -/
theorem applied_again_after_loss : ∃ h c, Sample.Cluster.Run Sample.world h c ∧
    (c.shared.nodes.appliedUnder Reference.env (Sample.claimed []).internalKey).length = 2 := by
  obtain ⟨h₁, c₁, h₂, c, hplay₁, hplay₂, hfound⟩ := Sample.driver.exists_play
    (.initial Sample.world)
    (Sample.start [] :: (Sample.hop 0 (.perform Sample.accepted) ++
      Sample.hop 0 (.reply .transportError) ++ Sample.hop 0 (.perform Sample.accepted)))
    (.env (.deliver 0) :: (Sample.second [] ++ Sample.hop 1 (.perform Sample.accepted)))
    (fun _ _ _ c =>
      (c.shared.nodes.appliedUnder Reference.env (Sample.claimed []).internalKey).length = 2)
    (by decide +kernel)
  exact ⟨_, c, Sample.driver.run_of_play (Sample.driver.run_of_play .init hplay₁) hplay₂,
    of_decide_eq_true hfound⟩

/-- **Not at most once.**  A mutation gets no answer; the task reports that it may have
been applied and releases its claim.  The client sends the request again, as the report
tells it to, and is granted the key.  Both mutations are applied, and no record expired.  And
of a mutation whose path begins as the protocol's do, no key is claimed: sent twice, it is
applied twice, although both attempts end conclusively. -/
theorem not_applied_at_most_once :
    (∃ h c, Sample.Cluster.Run Sample.world h c ∧
      (c.shared.nodes.appliedUnder Reference.env (Sample.claimed []).internalKey).length = 2) ∧
    ∃ h c, Sample.OpenCluster.Run Sample.world h c ∧ AllConclusive Reference.env h ∧
      (c.shared.nodes.appliedUnder Reference.env (Sample.claimed []).internalKey).length = 2 := by
  refine ⟨applied_again_after_loss, ?_⟩
  obtain ⟨h₁, c₁, h₂, c, hplay₁, hplay₂, hfound⟩ := Sample.openDriver.exists_play
    (.initial Sample.world) (Sample.unclaimed 0) (Sample.unclaimed 1)
    (fun h₁ _ h₂ c => AllConclusive Reference.env (h₁ ++ h₂) ∧
      (c.shared.nodes.appliedUnder Reference.env (Sample.claimed []).internalKey).length = 2)
    (by decide +kernel)
  obtain ⟨hconclusive, happlied⟩ := of_decide_eq_true hfound
  have hrun₁ : Sample.OpenCluster.Run Sample.world h₁ c₁ :=
    Sample.openDriver.run_of_play .init hplay₁
  exact ⟨_, c, Sample.openDriver.run_of_play hrun₁ hplay₂, hconclusive, happlied⟩

end Proxy

end LoadBalance
