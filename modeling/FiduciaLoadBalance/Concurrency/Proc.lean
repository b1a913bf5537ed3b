import Mathlib

/-!
# Processes that suspend at every call to the outside

A cooperative task — an `async fn` of a runtime, a coroutine — runs on its own
between two *calls*: reading a shared table, taking a lock, sending a request.
At a call it is suspended until the outside answers, and what it does next is a
function of the answer.  `Proc E R α` is that shape and nothing else: a tree
whose inner nodes are calls `e : E`, with one subtree for each possible answer
of type `R e`, and whose leaves carry the result.

* `Proc.Steps p tr q` — after the calls and answers `tr` the process `p` has
  become `q`.  A prefix of a run is a run (`Steps.of_append`), and runs of a
  sequential composition split at the seam (`Steps.bind_inv`).
* `Proc.runWith` — run a process against a fixed way of answering, by
  computation; `steps_runWith` says the computed trace is a run.
* `Contract` and `Proc.wp` — reasoning about a process on its own: whatever
  answers the outside gives that satisfy the contract's `rely`, every call the
  process makes satisfies the contract's `guarantee`, and a postcondition holds
  of its result.  Both sides may speak of the whole history so far.  `wp_bind`,
  `wp_mono` and `wp_call` are the rules, `wp_sound` ties the predicate to runs.
-/

namespace Conc

/-- A process: either finished with a result, or suspended at a call `e` with a
continuation for each answer. -/
inductive Proc (E : Type) (R : E → Type) (α : Type) : Type
  | done (a : α)
  | call (e : E) (k : R e → Proc E R α)

/-- One call together with the answer it got. -/
abbrev Event (E : Type) (R : E → Type) : Type := (e : E) × R e

namespace Proc

variable {E : Type} {R : E → Type} {α β : Type}

/-- Sequential composition: run `p`, then `f` on its result. -/
def bind : Proc E R α → (α → Proc E R β) → Proc E R β
  | .done a, f => f a
  | .call e k, f => .call e fun r => (k r).bind f

instance : Monad (Proc E R) where
  pure := .done
  bind := Proc.bind

/-- The process that makes one call and returns its answer. -/
def perform (e : E) : Proc E R (R e) := .call e .done

@[simp] theorem pure_eq (a : α) : (pure a : Proc E R α) = .done a := rfl

@[simp] theorem done_bind (a : α) (f : α → Proc E R β) : (.done a >>= f) = f a := rfl

@[simp] theorem call_bind (e : E) (k : R e → Proc E R α) (f : α → Proc E R β) :
    (.call e k >>= f) = .call e fun r => k r >>= f := rfl

@[simp] theorem perform_bind (e : E) (f : R e → Proc E R β) :
    (perform e >>= f) = .call e f := rfl

/-! ## Runs of one process -/

/-- `Steps p tr q`: making the calls of `tr` and getting the answers of `tr`,
the process `p` becomes `q`. -/
inductive Steps : Proc E R α → List (Event E R) → Proc E R α → Prop
  | refl (p : Proc E R α) : Steps p [] p
  | call {e : E} {k : R e → Proc E R α} {r : R e} {tr : List (Event E R)} {q : Proc E R α} :
      Steps (k r) tr q → Steps (.call e k) (⟨e, r⟩ :: tr) q

theorem steps_nil_iff {p q : Proc E R α} : Steps p [] q ↔ q = p := by
  constructor
  · intro h
    cases h
    rfl
  · rintro rfl
    exact .refl _

theorem steps_done_iff {a : α} {tr : List (Event E R)} {q : Proc E R α} :
    Steps (.done a) tr q ↔ tr = [] ∧ q = .done a := by
  constructor
  · intro h
    cases h
    exact ⟨rfl, rfl⟩
  · rintro ⟨rfl, rfl⟩
    exact .refl _

theorem steps_call_cons_iff {e : E} {k : R e → Proc E R α} {ev : Event E R}
    {tr : List (Event E R)} {q : Proc E R α} :
    Steps (.call e k) (ev :: tr) q ↔ ∃ r, ev = ⟨e, r⟩ ∧ Steps (k r) tr q := by
  constructor
  · intro h
    cases h with
    | call h => exact ⟨_, rfl, h⟩
  · rintro ⟨r, rfl, h⟩
    exact .call h

/-- Runs compose. -/
theorem Steps.append {p q u : Proc E R α} {tr tr' : List (Event E R)}
    (h : Steps p tr q) (h' : Steps q tr' u) : Steps p (tr ++ tr') u := by
  induction h with
  | refl p => exact h'
  | call _ ih => exact .call (ih h')

/-- A run can be cut anywhere: what comes before the cut is a run of its own. -/
theorem Steps.of_append {p u : Proc E R α} {tr tr' : List (Event E R)}
    (h : Steps p (tr ++ tr') u) : ∃ q, Steps p tr q ∧ Steps q tr' u := by
  induction tr generalizing p with
  | nil => exact ⟨p, .refl p, h⟩
  | cons ev tr ih =>
    cases h with
    | call h =>
      obtain ⟨q, hq, hu⟩ := ih h
      exact ⟨q, .call hq, hu⟩

theorem Steps.bind {p q : Proc E R α} {tr : List (Event E R)} (h : Steps p tr q)
    (f : α → Proc E R β) : Steps (p >>= f) tr (q >>= f) := by
  induction h with
  | refl p => exact .refl _
  | call _ ih => exact .call ih

/-- A run of a composition either has not left the first part, or splits into a
finished run of the first part and a run of the second. -/
theorem Steps.bind_inv {p : Proc E R α} {f : α → Proc E R β} {tr : List (Event E R)}
    {u : Proc E R β} (h : Steps (p >>= f) tr u) :
    (∃ q, Steps p tr q ∧ u = q >>= f) ∨
      ∃ a tr₁ tr₂, tr = tr₁ ++ tr₂ ∧ Steps p tr₁ (.done a) ∧ Steps (f a) tr₂ u := by
  induction p generalizing tr with
  | done a => exact Or.inr ⟨a, [], tr, rfl, .refl _, h⟩
  | call e k ih =>
    cases tr with
    | nil =>
      rw [steps_nil_iff] at h
      exact Or.inl ⟨.call e k, .refl _, h⟩
    | cons ev tr =>
      rw [call_bind, steps_call_cons_iff] at h
      obtain ⟨r, rfl, h⟩ := h
      rcases ih r h with ⟨q, hq, hu⟩ | ⟨a, tr₁, tr₂, rfl, h₁, h₂⟩
      · exact Or.inl ⟨q, .call hq, hu⟩
      · exact Or.inr ⟨a, ⟨e, r⟩ :: tr₁, tr₂, rfl, .call h₁, h₂⟩

/-- A finished run of a composition is a finished run of each part. -/
theorem Steps.bind_done {p : Proc E R α} {f : α → Proc E R β} {tr : List (Event E R)} {b : β}
    (h : Steps (p >>= f) tr (.done b)) :
    ∃ a tr₁ tr₂, tr = tr₁ ++ tr₂ ∧ Steps p tr₁ (.done a) ∧ Steps (f a) tr₂ (.done b) := by
  rcases h.bind_inv with ⟨q, hq, hdone⟩ | hsplit
  · cases q with
    | done a =>
      rw [done_bind] at hdone
      exact ⟨a, tr, [], (List.append_nil tr).symm, hq, hdone ▸ .refl _⟩
    | call e k =>
      rw [call_bind] at hdone
      exact absurd hdone (by simp)
  · exact hsplit

/-- A finished run of a call makes it. -/
theorem Steps.call_done {e : E} {k : R e → Proc E R α} {tr : List (Event E R)} {a : α}
    (h : Steps (.call e k) tr (.done a)) :
    ∃ r tr', tr = ⟨e, r⟩ :: tr' ∧ Steps (k r) tr' (.done a) := by
  cases tr with
  | nil => exact absurd (steps_nil_iff.1 h) (by simp)
  | cons ev tr =>
    obtain ⟨r, rfl, hrest⟩ := steps_call_cons_iff.1 h
    exact ⟨r, tr, rfl, hrest⟩

/-! ## Running against a fixed way of answering -/

/-- Run to the end against `oracle`, which answers each call from the history
so far; the trace made and the result. -/
def runWith (oracle : List (Event E R) → (e : E) → R e) :
    Proc E R α → List (Event E R) → List (Event E R) × α
  | .done a, _ => ([], a)
  | .call e k, hist =>
    let ev : Event E R := ⟨e, oracle hist e⟩
    let rest := (k ev.2).runWith oracle (hist ++ [ev])
    (ev :: rest.1, rest.2)

/-- What `runWith` computes is a run. -/
theorem steps_runWith (oracle : List (Event E R) → (e : E) → R e) (p : Proc E R α)
    (hist : List (Event E R)) :
    Steps p (p.runWith oracle hist).1 (.done (p.runWith oracle hist).2) := by
  induction p generalizing hist with
  | done a => exact .refl _
  | call e k ih => exact .call (ih _ _)

/-- Along it every call is answered by `oracle`. -/
theorem mem_runWith {oracle : List (Event E R) → (e : E) → R e} {p : Proc E R α}
    {hist : List (Event E R)} {ev : Event E R} (hev : ev ∈ (p.runWith oracle hist).1) :
    ∃ hist', ev.2 = oracle hist' ev.1 := by
  induction p generalizing hist with
  | done a => exact absurd hev (by simp [runWith])
  | call e k ih =>
    rcases List.mem_cons.1 hev with rfl | hev
    · exact ⟨hist, rfl⟩
    · exact ih _ hev

end Proc

/-! ## Contracts -/

/-- A contract between one process and the outside.  `rely h e r`: after the
history `h`, the outside may answer the call `e` with `r`.  `guarantee h e`:
after the history `h`, the process may make the call `e`. -/
structure Contract (E : Type) (R : E → Type) where
  rely : List (Event E R) → (e : E) → R e → Prop
  guarantee : List (Event E R) → E → Prop

namespace Contract

variable {E : Type} {R : E → Type}

/-- `P` holds of every event of the trace `tr` and of the history before it, where
`tr` follows the history `h`. -/
def Along (P : List (Event E R) → Event E R → Prop) :
    List (Event E R) → List (Event E R) → Prop
  | _, [] => True
  | h, ev :: tr => P h ev ∧ Along P (h ++ [ev]) tr

theorem along_iff {P : List (Event E R) → Event E R → Prop} {h tr : List (Event E R)} :
    Along P h tr ↔ ∀ pre ev post, tr = pre ++ ev :: post → P (h ++ pre) ev := by
  induction tr generalizing h with
  | nil => simp [Along]
  | cons ev tr ih =>
    rw [Along, ih]
    constructor
    · rintro ⟨hev, hrest⟩ pre ev' post heq
      cases pre with
      | nil =>
        obtain ⟨rfl, rfl⟩ := List.cons.inj heq
        simpa using hev
      | cons ev₀ pre =>
        obtain ⟨rfl, rfl⟩ := List.cons.inj heq
        simpa using hrest pre ev' post rfl
    · intro hall
      refine ⟨by simpa using hall [] ev tr rfl, fun pre ev' post heq => ?_⟩
      simpa using hall (ev :: pre) ev' post (by rw [heq]; rfl)

/-- Every answer of the trace `tr`, which follows the history `h`, is one the
outside may give. -/
def Relied (c : Contract E R) (h tr : List (Event E R)) : Prop :=
  Along (fun h ev => c.rely h ev.1 ev.2) h tr

/-- Every call of the trace `tr`, which follows the history `h`, is one the
process may make. -/
def Guaranteed (c : Contract E R) (h tr : List (Event E R)) : Prop :=
  Along (fun h ev => c.guarantee h ev.1) h tr

end Contract

namespace Proc

variable {E : Type} {R : E → Type} {α β : Type} {c : Contract E R}

/-- The weakest precondition of a process under a contract: after the history
`h`, as long as answers satisfy `rely`, every call satisfies `guarantee`, and if
the process ends its result and its history satisfy `Q`. -/
def wp (c : Contract E R) : Proc E R α → (List (Event E R) → α → Prop) →
    List (Event E R) → Prop
  | .done a, Q, h => Q h a
  | .call e k, Q, h =>
    c.guarantee h e ∧ ∀ r, c.rely h e r → (k r).wp c Q (h ++ [⟨e, r⟩])

@[simp] theorem wp_done {a : α} {Q : List (Event E R) → α → Prop} {h : List (Event E R)} :
    (Proc.done a : Proc E R α).wp c Q h ↔ Q h a := Iff.rfl

theorem wp_call {e : E} {k : R e → Proc E R α} {Q : List (Event E R) → α → Prop}
    {h : List (Event E R)} :
    (Proc.call e k).wp c Q h ↔
      c.guarantee h e ∧ ∀ r, c.rely h e r → (k r).wp c Q (h ++ [⟨e, r⟩]) := Iff.rfl

/-- The rule of sequential composition. -/
theorem wp_bind {p : Proc E R α} {f : α → Proc E R β} {Q : List (Event E R) → β → Prop}
    {h : List (Event E R)} :
    (p >>= f).wp c Q h ↔ p.wp c (fun h' a => (f a).wp c Q h') h := by
  induction p generalizing h with
  | done a => exact Iff.rfl
  | call e k ih =>
    simp only [call_bind, wp_call]
    exact and_congr_right fun _ => forall₂_congr fun r _ => ih r

/-- The rule of consequence, for the postcondition. -/
theorem wp_mono {p : Proc E R α} {Q Q' : List (Event E R) → α → Prop} {h : List (Event E R)}
    (hp : p.wp c Q h) (hQ : ∀ h' a, Q h' a → Q' h' a) : p.wp c Q' h := by
  induction p generalizing h with
  | done a => exact hQ h a hp
  | call e k ih => exact ⟨hp.1, fun r hr => ih r (hp.2 r hr)⟩

/-- The postcondition may use what the process did. -/
theorem wp_steps {p : Proc E R α} {Q : List (Event E R) → α → Prop} {h : List (Event E R)}
    (hp : p.wp c Q h) :
    p.wp c (fun h' a => Q h' a ∧ ∃ tr, h' = h ++ tr ∧ Steps p tr (.done a)) h := by
  induction p generalizing h with
  | done a => exact ⟨hp, [], (List.append_nil h).symm, .refl _⟩
  | call e k ih =>
    refine ⟨hp.1, fun r hr => wp_mono (ih r (hp.2 r hr)) ?_⟩
    rintro h' a ⟨hQ, tr, rfl, hsteps⟩
    exact ⟨hQ, ⟨e, r⟩ :: tr, List.append_assoc _ _ _, .call hsteps⟩

/-- The rule of consequence, for the contract: to rely on more and to guarantee less. -/
theorem wp_contract {c' : Contract E R} {p : Proc E R α} {Q : List (Event E R) → α → Prop}
    {h : List (Event E R)} (hp : p.wp c Q h)
    (hrely : ∀ h e r, c'.rely h e r → c.rely h e r)
    (hguarantee : ∀ h e, c.guarantee h e → c'.guarantee h e) : p.wp c' Q h := by
  induction p generalizing h with
  | done a => exact hp
  | call e k ih => exact ⟨hguarantee h e hp.1, fun r hr => ih r (hp.2 r (hrely h e r hr))⟩

/-- What holds of a history and of all that continue it holds in the end, whatever the
process does. -/
theorem wp_of_closed {P : List (Event E R) → Prop} (hg : ∀ h e, c.guarantee h e)
    (hP : ∀ h ev, P h → P (h ++ [ev])) {p : Proc E R α} {h : List (Event E R)} (hh : P h) :
    p.wp c (fun h' _ => P h') h := by
  induction p generalizing h with
  | done a => exact hh
  | call e k ih => exact ⟨hg h e, fun r _ => ih r (hP h _ hh)⟩

/-- **Contracts are sound for runs.**  Along a run whose answers satisfy `rely`,
every call satisfies `guarantee`, and what is left to run still satisfies its
weakest precondition. -/
theorem wp_sound {p q : Proc E R α} {Q : List (Event E R) → α → Prop}
    {h tr : List (Event E R)} (hp : p.wp c Q h) (hs : Steps p tr q) (hr : c.Relied h tr) :
    c.Guaranteed h tr ∧ q.wp c Q (h ++ tr) := by
  induction hs generalizing h with
  | refl p => exact ⟨trivial, by simpa using hp⟩
  | call _ ih =>
    obtain ⟨hg, hk⟩ := hp
    obtain ⟨hgs, hq⟩ := ih (hk _ hr.1) hr.2
    exact ⟨⟨hg, hgs⟩, by simpa using hq⟩

/-- The result of a finished run satisfies the postcondition. -/
theorem wp_result {p : Proc E R α} {a : α} {Q : List (Event E R) → α → Prop}
    {h tr : List (Event E R)} (hp : p.wp c Q h) (hs : Steps p tr (.done a))
    (hr : c.Relied h tr) : Q (h ++ tr) a :=
  (wp_sound hp hs hr).2

/-- Every call of a run whose answers satisfy `rely` satisfies `guarantee`. -/
theorem wp_guarantee {p q : Proc E R α} {Q : List (Event E R) → α → Prop}
    {tr : List (Event E R)} (hp : p.wp c Q []) (hs : Steps p tr q) (hr : c.Relied [] tr)
    {pre : List (Event E R)} {ev : Event E R} {post : List (Event E R)}
    (htr : tr = pre ++ ev :: post) : c.guarantee pre ev.1 := by
  simpa using Contract.along_iff.1 (wp_sound hp hs hr).1 pre ev post htr

end Proc

end Conc
