import FiduciaLoadBalance.Auth.Authenticate
import FiduciaLoadBalance.Table.Basic

/-!
# Asking the brain

One round of the refresh loop, as a process: it notes the time, fetches two documents, the
nodes and the placement, and applies what they say.  A document that is not there, or does
not read, ends the round.

* `refreshFromBrain` — the round;
* `Asks` — what it asks after what it has heard, in full;
* `wp_refreshFromBrain` — and that it asks nothing else.
-/

namespace LoadBalance

open Http Text Conc

namespace Brain

open Auth (Fetched)

/-- What the loop asks of the world. -/
inductive Call : Type
  | instantNow
  /-- A GET at the brain, under the secret of the trusted hop. -/
  | get (url : String) (secret : Option String)
  | applyBrainSnapshotAt (nodes : List BrainNode) (shards : List BrainShard) (fetchedAt : Instant)

@[reducible] def Call.Answer : Call → Type
  | .instantNow => Instant
  | .get _ _ => Fetched
  | .applyBrainSnapshotAt _ _ _ => ℕ

abbrev Task : Type → Type := Proc Call Call.Answer

abbrev TaskEvent : Type := Event Call Call.Answer

/-- How the brain's two documents are read. -/
structure Documents where
  brainNodes : Bytes → Option (List BrainNode)
  brainPlacement : Bytes → Option (List BrainShard)

/-- What a document says, if it came and reads. -/
def readDocument {α : Type} (parse : Bytes → Option α) : Fetched → Option α
  | .failed => none
  | .response status body => if 400 ≤ status.code ∧ status.code < 600 then none else body.bind parse

def nodesUrl (brainUrl : String) : String := trimEndMatches (· == '/') brainUrl ++ "/v1/nodes"

def placementUrl (brainUrl : String) : String :=
  trimEndMatches (· == '/') brainUrl ++ "/v1/placement"

/-- One round of the loop.  The time is noted before anything is asked, so that what is
learned from a redirect meanwhile is known to be newer. -/
def refreshFromBrain (env : Env) (documents : Documents) (brainUrl : String) : Task Unit := do
  let fetchedAt ← Proc.perform Call.instantNow
  let fetched ← Proc.perform (Call.get (nodesUrl brainUrl) env.internalSecret)
  match readDocument documents.brainNodes fetched with
  | none => return
  | some nodes =>
    let fetched ← Proc.perform (Call.get (placementUrl brainUrl) env.internalSecret)
    match readDocument documents.brainPlacement fetched with
    | none => return
    | some shards =>
      let _ ← Proc.perform (Call.applyBrainSnapshotAt nodes shards fetchedAt)
      return

/-! ## What a round asks -/

section

variable (env : Env) (documents : Documents) (brainUrl : String)

/-- **A round is conducted** if its two documents were fetched one after the other, after
`fetchedAt`, and they read as `nodes` and `shards`. -/
inductive Conducted : List TaskEvent → Instant → List BrainNode → List BrainShard → Prop
  | intro {fetchedAt : Instant} {fetched fetched' : Fetched} {nodes : List BrainNode}
      {shards : List BrainShard} : readDocument documents.brainNodes fetched = some nodes →
      readDocument documents.brainPlacement fetched' = some shards →
      Conducted [⟨.instantNow, fetchedAt⟩,
        ⟨.get (nodesUrl brainUrl) env.internalSecret, fetched⟩,
        ⟨.get (placementUrl brainUrl) env.internalSecret, fetched'⟩] fetchedAt nodes shards

/-- What a round asks, after what it has heard. -/
inductive Asks : List TaskEvent → Call → Prop
  | instantNow : Asks [] .instantNow
  | nodes (fetchedAt : Instant) : Asks [⟨.instantNow, fetchedAt⟩]
      (.get (nodesUrl brainUrl) env.internalSecret)
  | placement (fetchedAt : Instant) {fetched : Fetched} {nodes : List BrainNode} :
      readDocument documents.brainNodes fetched = some nodes →
      Asks [⟨.instantNow, fetchedAt⟩, ⟨.get (nodesUrl brainUrl) env.internalSecret, fetched⟩]
        (.get (placementUrl brainUrl) env.internalSecret)
  | applyBrainSnapshotAt {h : List TaskEvent} {fetchedAt : Instant} {nodes : List BrainNode}
      {shards : List BrainShard} : Conducted env documents brainUrl h fetchedAt nodes shards →
      Asks h (.applyBrainSnapshotAt nodes shards fetchedAt)

/-- The contract of the loop: it asks what `Asks` says, and may hear anything. -/
def asking : Contract Call Call.Answer where
  rely _ _ _ := True
  guarantee := Asks env documents brainUrl

theorem wp_refreshFromBrain : (refreshFromBrain env documents brainUrl).wp
    (asking env documents brainUrl) (fun _ _ => True) [] := by
  simp only [refreshFromBrain, Proc.perform_bind]
  refine ⟨.instantNow, fun fetchedAt _ => ⟨.nodes fetchedAt, fun fetched _ => ?_⟩⟩
  cases hnodes : readDocument documents.brainNodes fetched with
  | none => simp only [hnodes, Proc.pure_eq, Proc.wp_done]
  | some nodes =>
    simp only [hnodes]
    refine ⟨.placement fetchedAt hnodes, fun fetched' _ => ?_⟩
    cases hshards : readDocument documents.brainPlacement fetched' with
    | none => simp only [hshards, Proc.pure_eq, Proc.wp_done]
    | some shards =>
      simp only [hshards]
      exact ⟨.applyBrainSnapshotAt (.intro hnodes hshards), fun _ _ => trivial⟩

end

variable {env : Env} {documents : Documents} {brainUrl : String}

/-- When the round under way noted the time, as heard. -/
def fetchedAt : List TaskEvent → Option Instant
  | ⟨.instantNow, now⟩ :: _ => some now
  | _ => none

theorem Conducted.fetchedAt_eq {h : List TaskEvent} {since : Instant} {nodes : List BrainNode}
    {shards : List BrainShard} (hround : Conducted env documents brainUrl h since nodes shards) :
    fetchedAt h = some since := by
  cases hround with
  | intro hnodes hshards => rfl

theorem fetchedAt_concat {h : List TaskEvent} (hne : h ≠ []) (ev : TaskEvent) :
    fetchedAt (h ++ [ev]) = fetchedAt h := by
  cases h with
  | nil => exact absurd rfl hne
  | cons first h =>
    obtain ⟨e, r⟩ := first
    cases e <;> rfl

/-- The time is noted first. -/
theorem Asks.eq_nil {h : List TaskEvent} (hasks : Asks env documents brainUrl h .instantNow) :
    h = [] := by
  cases hasks with
  | instantNow => rfl

/-- And only once. -/
theorem Asks.ne_nil {h : List TaskEvent} {e : Call} (hasks : Asks env documents brainUrl h e)
    (he : e ≠ .instantNow) : h ≠ [] := by
  rintro rfl
  cases hasks with
  | instantNow => exact he rfl
  | applyBrainSnapshotAt hround => cases hround

theorem Asks.conducted {h : List TaskEvent} {since : Instant} {nodes : List BrainNode}
    {shards : List BrainShard}
    (hasks : Asks env documents brainUrl h (.applyBrainSnapshotAt nodes shards since)) :
    Conducted env documents brainUrl h since nodes shards := by
  cases hasks with
  | applyBrainSnapshotAt hround => exact hround

theorem Conducted.length_eq {h : List TaskEvent} {since : Instant} {nodes : List BrainNode}
    {shards : List BrainShard} (hround : Conducted env documents brainUrl h since nodes shards) :
    h.length = 3 := by
  cases hround with
  | intro hnodes hshards => rfl

theorem Asks.length_le {h : List TaskEvent} {e : Call} (hasks : Asks env documents brainUrl h e) :
    h.length ≤ 3 := by
  cases hasks with
  | applyBrainSnapshotAt hround => exact hround.length_eq.le
  | _ => simp

/-- A round that is applied is over. -/
theorem eq_done_of_applied {h : List TaskEvent} {since : Instant} {nodes : List BrainNode}
    {shards : List BrainShard} (hround : Conducted env documents brainUrl h since nodes shards)
    {ev : TaskEvent} {p : Task Unit} {Q : List TaskEvent → Unit → Prop}
    (hp : p.wp (asking env documents brainUrl) Q (h ++ [ev])) : p = .done () := by
  cases p with
  | done a => rfl
  | call e k =>
    have hle := (show Asks env documents brainUrl (h ++ [ev]) e from hp.1).length_le
    rw [List.length_append, hround.length_eq] at hle
    exact absurd hle (by simp)

end Brain

end LoadBalance
