import FiduciaLoadBalance.Concurrency.Machine

/-!
# Playing a schedule

A `Driver` takes the steps of a machine by computation: which process to start next,
what to answer a call, and how the rest of the world moves are choices, and each choice
it can take is a step of the machine.  A schedule is a list of such choices.

* `Driver.play` — the history and the configuration a schedule leads to;
* `Driver.run_of_play` — and they are those of a run.
-/

namespace Conc

variable {E : Type} {R : E → Type} {α σ : Type}

/-- The configuration in which nothing has been started. -/
def Config.initial (s₀ : σ) : Config E R α σ := ⟨s₀, fun _ => none, 0⟩

/-- The result of a process that has one. -/
def Config.result (c : Config E R α σ) (i : ℕ) : Option α :=
  match c.procs i with
  | some (.done a) => some a
  | _ => none

theorem Config.result_eq_some {c : Config E R α σ} {i : ℕ} {a : α} :
    c.result i = some a ↔ c.procs i = some (.done a) := by
  rw [Config.result]
  split
  · rename_i hdone
    simp [hdone]
  · rename_i hnot
    simpa using hnot a

/-- The call a process waits at, if it waits. -/
def Config.waiting (c : Config E R α σ) (i : ℕ) : Option E :=
  match c.procs i with
  | some (.call e _) => some e
  | _ => none

theorem Config.waiting_eq_some {c : Config E R α σ} {i : ℕ} {e : E} :
    c.waiting i = some e ↔ ∃ k, c.procs i = some (.call e k) := by
  rw [Config.waiting]
  split
  · rename_i e' k hwaits
    rw [hwaits]
    constructor
    · rintro h
      obtain rfl := Option.some.inj h
      exact ⟨k, rfl⟩
    · rintro ⟨k', h⟩
      rw [(Proc.call.inj (Option.some.inj h)).1]
  · rename_i hnot
    constructor
    · exact fun h => absurd h (by simp)
    · rintro ⟨k, h⟩
      exact absurd h (hnot e k)

namespace Machine

variable {M : Machine E R α σ} {s₀ : σ}

/-- Ways to take the steps of a machine by computation. -/
structure Driver (M : Machine E R α σ) where
  /-- The processes it can start. -/
  Job : Type
  /-- The ways it can answer a call. -/
  Choice : Type
  /-- The ways the rest of the world can move. -/
  Turn : Type
  start : Job → σ → Option (Proc E R α)
  exec : Choice → ℕ → σ → (e : E) → Option (R e × σ)
  env : Turn → σ → Option σ
  start_sound : ∀ {j s p}, start j s = some p → M.start s p
  exec_sound : ∀ {x i s e r s'}, exec x i s e = some (r, s') → M.exec i s e r s'
  env_sound : ∀ {y s s'}, env y s = some s' → M.env s s'

/-- One move of a schedule: start a process, answer the call of one, or let the rest of
the world move. -/
inductive Driver.Move (D : Driver M) : Type
  | start (j : D.Job)
  | answer (i : ℕ) (x : D.Choice)
  | env (y : D.Turn)

/-- Take one move. -/
def Driver.step (D : Driver M) (c : Config E R α σ) :
    D.Move → Option (Moment E R α σ × Config E R α σ)
  | .start j =>
    (D.start j c.shared).map fun p =>
      (⟨.start c.next p, c.shared, c.shared⟩,
        ⟨c.shared, Function.update c.procs c.next (some p), c.next + 1⟩)
  | .answer i x =>
    match c.procs i with
    | some (.call e k) =>
      (D.exec x i c.shared e).map fun done =>
        (⟨.answer i ⟨e, done.1⟩, c.shared, done.2⟩,
          ⟨done.2, Function.update c.procs i (some (k done.1)), c.next⟩)
    | _ => none
  | .env y =>
    (D.env y c.shared).map fun s' => (⟨.env, c.shared, s'⟩, ⟨s', c.procs, c.next⟩)

/-- Take the moves of a schedule, one after the other. -/
def Driver.play (D : Driver M) :
    List D.Move → Config E R α σ → Option (List (Moment E R α σ) × Config E R α σ)
  | [], c => some ([], c)
  | move :: moves, c =>
    (D.step c move).bind fun next =>
      (D.play moves next.2).map fun rest => (next.1 :: rest.1, rest.2)

/-- A move is a step of the machine. -/
theorem Driver.step_of_move (D : Driver M) {c c' : Config E R α σ} {m : Moment E R α σ}
    {move : D.Move} (h : D.step c move = some (m, c')) : M.Step c m c' := by
  cases move with
  | start j =>
    obtain ⟨p, hstart, hnext⟩ := Option.map_eq_some_iff.1 h
    obtain ⟨rfl, rfl⟩ := Prod.mk.inj hnext
    exact .start (D.start_sound hstart)
  | answer i x =>
    rw [Driver.step] at h
    split at h
    · rename_i e k hlive
      obtain ⟨⟨r, s'⟩, hexec, hnext⟩ := Option.map_eq_some_iff.1 h
      obtain ⟨rfl, rfl⟩ := Prod.mk.inj hnext
      exact .answer hlive (D.exec_sound hexec)
    · exact absurd h (by simp)
  | env y =>
    obtain ⟨s', henv, hnext⟩ := Option.map_eq_some_iff.1 h
    obtain ⟨rfl, rfl⟩ := Prod.mk.inj hnext
    exact .env (D.env_sound henv)

theorem Driver.label_of_answer (D : Driver M) {c c' : Config E R α σ} {m : Moment E R α σ} {i : ℕ}
    {x : D.Choice} (h : D.step c (.answer i x) = some (m, c')) : ∃ ev, m.label = .answer i ev := by
  rw [Driver.step] at h
  split at h
  · obtain ⟨⟨r, s'⟩, -, hnext⟩ := Option.map_eq_some_iff.1 h
    obtain ⟨rfl, -⟩ := Prod.mk.inj hnext
    exact ⟨_, rfl⟩
  · exact absurd h (by simp)

/-- **A schedule that can be played is a run**, and continues one. -/
theorem Driver.run_of_play (D : Driver M) {h h' : List (Moment E R α σ)}
    {c c' : Config E R α σ} (hrun : M.Run s₀ h c) {moves : List D.Move}
    (hplay : D.play moves c = some (h', c')) : M.Run s₀ (h ++ h') c' := by
  induction moves generalizing h h' c with
  | nil =>
    obtain ⟨rfl, rfl⟩ := Prod.mk.inj (Option.some.inj hplay)
    rwa [List.append_nil]
  | cons move moves ih =>
    obtain ⟨⟨m, c₁⟩, hstep, hrest⟩ := Option.bind_eq_some_iff.1 hplay
    obtain ⟨⟨h₂, c₂⟩, hplay', hpair⟩ := Option.map_eq_some_iff.1 hrest
    obtain ⟨rfl, rfl⟩ := Prod.mk.inj hpair
    have hnext := ih (hrun.step (D.step_of_move hstep)) hplay'
    rwa [List.append_assoc] at hnext

/-- The process a schedule starts first was started. -/
theorem Driver.started_of_play (D : Driver M) {h : List (Moment E R α σ)}
    {c c' : Config E R α σ} {j : D.Job} {p : Proc E R α} {moves : List D.Move}
    (hplay : D.play (.start j :: moves) c = some (h, c')) (hstart : D.start j c.shared = some p) :
    Started h c.next p := by
  obtain ⟨⟨m, c₁⟩, hstep, hrest⟩ := Option.bind_eq_some_iff.1 hplay
  obtain ⟨⟨h₂, c₂⟩, -, hpair⟩ := Option.map_eq_some_iff.1 hrest
  obtain ⟨p', hstart', hnext⟩ := Option.map_eq_some_iff.1 hstep
  obtain rfl := Option.some.inj (hstart.symm.trans hstart')
  obtain ⟨rfl, -⟩ := Prod.mk.inj hnext
  obtain ⟨rfl, -⟩ := Prod.mk.inj hpair
  exact ⟨_, List.mem_cons_self, rfl⟩

/-- Two schedules, one after the other, and what is found along them. -/
theorem Driver.exists_play (D : Driver M) (c : Config E R α σ) (moves moves' : List D.Move)
    (found : List (Moment E R α σ) → Config E R α σ → List (Moment E R α σ) →
      Config E R α σ → Bool)
    (h : (D.play moves c).any (fun p => (D.play moves' p.2).any fun q =>
      found p.1 p.2 q.1 q.2) = true) :
    ∃ h₁ c₁ h₂ c₂, D.play moves c = some (h₁, c₁) ∧ D.play moves' c₁ = some (h₂, c₂) ∧
      found h₁ c₁ h₂ c₂ = true := by
  obtain ⟨⟨h₁, c₁⟩, hplay, h⟩ := (Option.any_eq_true _ _).1 h
  obtain ⟨⟨h₂, c₂⟩, hplay', hfound⟩ := (Option.any_eq_true _ _).1 h
  exact ⟨h₁, c₁, h₂, c₂, hplay, hplay', hfound⟩

end Machine

end Conc
