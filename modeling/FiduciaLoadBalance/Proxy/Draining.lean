import FiduciaLoadBalance.Proxy.Forward

/-!
# Buffering a response body

A body comes in chunks, of any sizes, and ends or breaks off.  What is made of it depends on
its bytes alone, and the buffer never outgrows the ceiling.

* `Drains` — how far the loop has come: what it holds and what is still to come;
* `drainUpstreamBody_eq` — what the loop returns, from anywhere;
* `drainUpstreamBody_chunking` — so two chunkings of the same bytes come to the same.
-/

namespace LoadBalance

open Http

namespace Proxy

variable {body body' chunk : Bytes} {chunks chunks' : List Bytes}

/-- The ceiling is far below the largest machine word. -/
theorem saturatingAdd_le_iff :
    saturatingAdd body.length chunk.length ≤ maxUpstreamResponseBytes ↔
      (body ++ chunk).length ≤ maxUpstreamResponseBytes := by
  rw [List.length_append]
  unfold saturatingAdd maxUpstreamResponseBytes
  omega

theorem drainChunk_of_le (hfits : (body ++ chunk).length ≤ maxUpstreamResponseBytes) :
    drainChunk body chunk = .ok (body ++ chunk) :=
  if_pos (saturatingAdd_le_iff.2 hfits)

theorem drainChunk_of_lt (hlong : maxUpstreamResponseBytes < (body ++ chunk).length) :
    drainChunk body chunk = .error .responseTooLarge :=
  if_neg (mt saturatingAdd_le_iff.1 (Nat.not_le.2 hlong))

/-- A chunk that was put behind the buffer fitted. -/
theorem drainChunk_ok (h : drainChunk body chunk = .ok body') :
    body' = body ++ chunk ∧ body'.length ≤ maxUpstreamResponseBytes := by
  rcases le_or_gt (body ++ chunk).length maxUpstreamResponseBytes with hfits | hlong
  · rw [drainChunk_of_le hfits] at h
    obtain rfl := Except.ok.inj h
    exact ⟨rfl, hfits⟩
  · rw [drainChunk_of_lt hlong] at h
    exact absurd h (by simp)

/-- **The states of the loop.**  Holding `body`, with `chunks` to come, it gets to hold
`body'`, with `chunks'` to come, one chunk at a time. -/
inductive Drains : Bytes → List Bytes → Bytes → List Bytes → Prop
  | refl (body : Bytes) (chunks : List Bytes) : Drains body chunks body chunks
  | chunk {body chunk next body' : Bytes} {chunks chunks' : List Bytes} :
      drainChunk body chunk = .ok next →
      Drains next chunks body' chunks' → Drains body (chunk :: chunks) body' chunks'

/-- The loop goes on from each of its states. -/
theorem Drains.drainUpstreamBody_eq (h : Drains body chunks body' chunks') (ending : Ending) :
    drainUpstreamBody body chunks ending = drainUpstreamBody body' chunks' ending := by
  induction h with
  | refl body chunks => rfl
  | chunk hnext _ ih =>
    rw [drainUpstreamBody, hnext]
    exact ih

/-- **The buffer stays below the ceiling.** -/
theorem Drains.length_le (h : Drains body chunks body' chunks')
    (hbody : body.length ≤ maxUpstreamResponseBytes) :
    body'.length ≤ maxUpstreamResponseBytes := by
  induction h with
  | refl body chunks => exact hbody
  | chunk hnext _ ih => exact ih (drainChunk_ok hnext).2

/-- And holds what has come, in order. -/
theorem Drains.read (h : Drains body chunks body' chunks') :
    ∃ read, chunks = read ++ chunks' ∧ body' = body ++ read.flatten := by
  induction h with
  | refl body chunks => exact ⟨[], by simp⟩
  | @chunk body chunk next _ _ _ hnext _ ih =>
    obtain ⟨read, hchunks, hbody⟩ := ih
    obtain ⟨rfl, -⟩ := drainChunk_ok hnext
    refine ⟨chunk :: read, ?_, ?_⟩
    · rw [hchunks, List.cons_append]
    · rw [hbody, List.flatten_cons, List.append_assoc]

/-! ## What the loop returns -/

/-- What is made of a body that fits, once it ends or breaks off. -/
def ended (body : Bytes) : Ending → Except Upstream Bytes
  | .eof => .ok body
  | .error => .error .ambiguousTransport

/-- **What the loop returns**, from any buffer below the ceiling: the size of the whole body
decides, and the chunks play no part. -/
theorem drainUpstreamBody_eq (hbody : body.length ≤ maxUpstreamResponseBytes) (ending : Ending) :
    drainUpstreamBody body chunks ending =
      if (body ++ chunks.flatten).length ≤ maxUpstreamResponseBytes then
        ended (body ++ chunks.flatten) ending
      else .error .responseTooLarge := by
  induction chunks generalizing body with
  | nil =>
    rw [List.flatten_nil, List.append_nil, if_pos hbody]
    cases ending with
    | eof => rfl
    | error => rfl
  | cons chunk chunks ih =>
    rw [drainUpstreamBody, List.flatten_cons, ← List.append_assoc]
    rcases le_or_gt (body ++ chunk).length maxUpstreamResponseBytes with hfits | hlong
    · rw [drainChunk_of_le hfits]
      exact ih hfits
    · rw [drainChunk_of_lt hlong, if_neg]
      rw [List.length_append]
      omega

theorem drainUpstreamBody_ok {ending : Ending} (h : drainUpstreamBody [] chunks ending = .ok body) :
    body = chunks.flatten := by
  rw [drainUpstreamBody_eq (Nat.zero_le _)] at h
  split at h
  · cases ending with
    | eof => exact (Except.ok.inj h).symm
    | error => exact absurd h (by simp [ended])
  · exact absurd h (by simp)

/-- A body that cannot be buffered is never served. -/
theorem drainUpstreamBody_ne_served {ending : Ending} {response : Response} :
    drainUpstreamBody [] chunks ending ≠ .error (.served response) := by
  rw [drainUpstreamBody_eq (Nat.zero_le _)]
  split
  · cases ending with
    | eof => simp [ended]
    | error => simp [ended]
  · simp

/-- **Buffering does not depend on the chunks.**  A body that ends is returned whole if it
fits under the ceiling, and is too large otherwise; one that breaks off is an ambiguous
failure if what came before fits, and too large otherwise.  So any two chunkings of the same
bytes come to the same.  And at every point of the loop the buffer holds what has come, and
no more than the ceiling. -/
theorem drainUpstreamBody_chunking (chunks : List Bytes) :
    (drainUpstreamBody [] chunks .eof =
      if chunks.flatten.length ≤ maxUpstreamResponseBytes then .ok chunks.flatten
      else .error .responseTooLarge) ∧
    (drainUpstreamBody [] chunks .error =
      if chunks.flatten.length ≤ maxUpstreamResponseBytes then .error .ambiguousTransport
      else .error .responseTooLarge) ∧
    (∀ chunks' : List Bytes, chunks'.flatten = chunks.flatten → ∀ ending,
      drainUpstreamBody [] chunks' ending = drainUpstreamBody [] chunks ending) ∧
    ∀ body rest, Drains [] chunks body rest → body.length ≤ maxUpstreamResponseBytes ∧
      (∃ read, chunks = read ++ rest ∧ body = read.flatten) ∧
      ∀ ending, drainUpstreamBody [] chunks ending = drainUpstreamBody body rest ending := by
  have hempty : ([] : Bytes).length ≤ maxUpstreamResponseBytes := Nat.zero_le _
  refine ⟨drainUpstreamBody_eq hempty .eof, drainUpstreamBody_eq hempty .error, ?_, ?_⟩
  · intro chunks' hsame ending
    rw [drainUpstreamBody_eq hempty, drainUpstreamBody_eq hempty, hsame]
  · intro body rest hdrains
    exact ⟨hdrains.length_le hempty, hdrains.read, hdrains.drainUpstreamBody_eq⟩

/-- Three bytes in two chunks, and in three of which one is empty. -/
theorem drainUpstreamBody_chunking_three :
    drainUpstreamBody [] [[1], [], [2, 3]] .eof = drainUpstreamBody [] [[1, 2], [3]] .eof ∧
      ∃ read, [[1], [], [2, 3]] = read ++ [[2, 3]] ∧ ([1] : Bytes) = read.flatten := by
  have hdrains : Drains [] [[1], [], [2, 3]] [1] [[2, 3]] :=
    .chunk rfl (.chunk rfl (.refl _ _))
  obtain ⟨-, -, hsame, -⟩ := drainUpstreamBody_chunking [[1, 2], [3]]
  obtain ⟨-, -, -, hstates⟩ := drainUpstreamBody_chunking [[1], [], [2, 3]]
  exact ⟨hsame [[1], [], [2, 3]] rfl .eof, (hstates [1] [[2, 3]] hdrains).2.1⟩

end Proxy

end LoadBalance
