import FiduciaLoadBalance.Proxy.Mediation

/-!
# Read-only credentials

A credential whose scopes all end in `:read` is for reading.  The table of scopes keeps it
from mutating anything, because the scopes of a mutation end in `:write` — but for the
routes that ask for the same scopes whatever the method: the status and the observability
inventories.

* `requiredScopesForRoute_mutation` — what a mutation asks for;
* `hasAnyScope_of_readOnly` — what scopes ending in `:read` cover;
* `readOnly_refused_iff` — when a read-only credential is refused.
-/

namespace LoadBalance

open Http Text Conc

namespace Proxy

/-- All the scopes of the identity end in `:read`. -/
def ReadOnly (identity : VerifiedIdentity) : Prop :=
  ∀ granted ∈ identity.scopes, ∃ pre, granted = pre ++ ":read"

/-- The routes that ask for the same scopes whatever the method. -/
def IgnoresMethod (path : String) : Prop :=
  segments path = ["v1", "status"] ∨ ∃ rest, segments path = "v1" :: "observe" :: rest

/-- One of the granted scopes is `admin:read`. -/
def GrantsAdminRead (identity : VerifiedIdentity) : Prop :=
  ∃ granted ∈ identity.scopes, trim granted = "admin:read"

/-- The table of scopes turns the request down, and it is answered without a call. -/
def TurnedDown (identity : VerifiedIdentity) (method : Method) (uri : Uri) : Prop :=
  authorizeRoute (some identity) method uri ≠ none ∧
    ∀ env shardCount headers body, ∃ response : Response,
      route env shardCount { identity := some identity, method, uri, headers, body } =
        .done response

section

variable {identity : VerifiedIdentity} {method : Method} {uri : Uri} {granted required : String}

theorem isReadMethod_eq_false : isReadMethod method = false ↔
    method ≠ .get ∧ method ≠ .head ∧ method ≠ .options := by
  simp [isReadMethod]

/-! ## What a mutation asks for -/

/-- Does the scope end in `:write`? -/
def isWriteScope (scope : String) : Bool := (stripSuffix scope ":write").isSome

/-- **What a mutation asks for**: a scope to write, on every route that looks at the
method. -/
theorem requiredScopesForRoute_mutation (hmethod : isReadMethod method = false)
    (hhealth : segments uri.path ≠ ["healthz"]) (hready : segments uri.path ≠ ["readyz"]) :
    (IgnoresMethod uri.path ∧ requiredScopesForRoute method uri = adminReadScopes) ∨
      (¬IgnoresMethod uri.path ∧
        ∀ required ∈ requiredScopesForRoute method uri, isWriteScope required = true) := by
  unfold IgnoresMethod requiredScopesForRoute
  split
  · exact absurd ‹_› hhealth
  · exact absurd ‹_› hready
  · exact Or.inl ⟨Or.inl ‹_›, rfl⟩
  · exact Or.inl ⟨Or.inr ⟨_, ‹_›⟩, rfl⟩
  case h_24 hstatus hobserve _ _ _ _ _ _ _ _ _ _ _ _ _ _ _ _ _ _ _ =>
    refine Or.inr ⟨?_, ?_⟩
    · rintro (h | ⟨rest, h⟩)
      · exact hstatus h
      · exact hobserve rest h
    · rw [hmethod]
      decide
  all_goals
    rename_i heq
    refine Or.inr ⟨?_, ?_⟩
    · rw [heq]
      simp
    · first
      | decide
      | (rw [hmethod]; decide)

/-! ## What a read-only credential covers -/

/-- What ends in `:read` still does when it is trimmed. -/
theorem trim_append_read (pre : String) :
    trim (pre ++ ":read") = trimStartMatches isWhitespace pre ++ ":read" := by
  refine trimMatches_append_of_forall_not (by decide) fun c hc => ?_
  simp only [String.reduceToList, List.mem_cons, List.not_mem_nil, or_false] at hc
  rcases hc with rfl | rfl | rfl | rfl | rfl <;> rfl

theorem stripSuffix_append_read {pre suf : String} {c : Char} (hc : suf.toList.getLast? = some c)
    (hne : c ≠ 'd') : stripSuffix (pre ++ ":read") suf = none := by
  rw [Option.eq_none_iff_forall_ne_some]
  intro rest h
  have hlast := congrArg (fun s => s.toList.getLast?) (strip_suffix_eq_some.1 h)
  simp [hc] at hlast
  exact hne hlast.symm

/-- A scope that ends in `:read` is no wildcard: it covers itself only. -/
theorem scopeMatches_append_read {pre : String} :
    scopeMatches (pre ++ ":read") required = true ↔ pre ++ ":read" = required := by
  unfold scopeMatches
  rw [stripSuffix_append_read (c := '*') (by decide) (by decide)]
  simp

/-- **What scopes ending in `:read` cover**: the scopes they spell. -/
theorem hasAnyScope_of_readOnly (hreadOnly : ReadOnly identity) {required : List String} :
    hasAnyScope identity required = true ↔
      ∃ granted ∈ identity.scopes, trim granted ∈ required := by
  rw [hasAnyScope, List.any_eq_true]
  refine exists_congr fun granted => and_congr_right fun hgranted => ?_
  obtain ⟨pre, rfl⟩ := hreadOnly granted hgranted
  rw [trim_append_read]
  have hstar : trimStartMatches isWhitespace pre ++ ":read" ≠ "*" := by
    intro h
    have hlast := congrArg (fun s => s.toList.getLast?) h
    simp at hlast
  simp [hstar, scopeMatches_append_read]

theorem not_isWriteScope_of_readOnly (hreadOnly : ReadOnly identity)
    (hgranted : granted ∈ identity.scopes) : isWriteScope (trim granted) = false := by
  obtain ⟨pre, rfl⟩ := hreadOnly granted hgranted
  rw [trim_append_read, isWriteScope,
    stripSuffix_append_read (c := 'e') (by decide) (by decide)]
  rfl

/-- The table lets a read-only credential mutate where the method is not looked at and
`admin:read` is granted. -/
theorem authorizeRoute_of_readOnly (hreadOnly : ReadOnly identity)
    (hmethod : isReadMethod method = false) (hhealth : segments uri.path ≠ ["healthz"])
    (hready : segments uri.path ≠ ["readyz"]) :
    authorizeRoute (some identity) method uri = none ↔
      IgnoresMethod uri.path ∧ GrantsAdminRead identity := by
  have hscoped : requiredScopesForRoute method uri ≠ [] := fun h =>
    ((requiredScopesForRoute_eq_nil method uri).1 h).elim hhealth hready
  have hauth : authorizeRoute (some identity) method uri = none ↔
      hasAnyScope identity (requiredScopesForRoute method uri) = true := by
    simp [authorizeRoute, hscoped]
  rw [hauth, hasAnyScope_of_readOnly hreadOnly]
  rcases requiredScopesForRoute_mutation hmethod hhealth hready with
    ⟨hignores, hread⟩ | ⟨hlooks, hwrite⟩
  · rw [hread, and_iff_right hignores, GrantsAdminRead]
    refine exists_congr fun granted => and_congr_right fun hgranted => ?_
    have hnot := not_isWriteScope_of_readOnly hreadOnly hgranted
    rw [adminReadScopes, List.mem_pair]
    refine or_iff_left ?_
    intro h
    rw [h] at hnot
    exact absurd hnot (by decide)
  · refine iff_of_false ?_ fun h => hlooks h.1
    rintro ⟨granted, hgranted, hmem⟩
    exact absurd (hwrite _ hmem) (by simp [not_isWriteScope_of_readOnly hreadOnly hgranted])

/-- What the table of scopes turns down is answered without a call. -/
theorem route_of_unauthorized {env : Env} {shardCount : ℕ} {request : Request}
    (h : authorizeRoute request.identity request.method request.uri ≠ none) :
    ∃ response, route env shardCount request = .done response := by
  obtain ⟨required, hrequired⟩ := Option.ne_none_iff_exists'.1 h
  rw [route]
  split
  · exact ⟨_, rfl⟩
  · rw [hrequired]
    exact ⟨_, rfl⟩

end

namespace Sample

/-- An identity with one scope to read. -/
def reader (scope : String) : VerifiedIdentity := { identity with scopes := [scope ++ ":read"] }

theorem readOnly_reader (scope : String) : ReadOnly (reader scope) :=
  List.forall_mem_singleton.2 ⟨scope, rfl⟩

/-- The inventory of the locks that are held. -/
def observe : Uri := ⟨none, none, "/v1/observe/locks", none, by decide⟩

/-- A mutation of the inventory. -/
def postObserve : Request :=
  { identity := some (reader "admin"), method := .post, uri := observe, headers := .empty
    body := [] }

end Sample

/-- **When a read-only credential is refused.**  A request that is not a GET, a HEAD or an
OPTIONS, to any path but the two health routes, is turned down by the table of scopes and
answered without an upstream attempt — unless the route asks for the same scopes whatever
the method, and one of the scopes is `admin:read`. -/
theorem readOnly_refused_iff {identity : VerifiedIdentity} (hreadOnly : ReadOnly identity)
    {method : Method} (hmethod : method ≠ .get ∧ method ≠ .head ∧ method ≠ .options)
    {uri : Uri}
    (hhealth : segments uri.path ≠ ["healthz"]) (hready : segments uri.path ≠ ["readyz"]) :
    TurnedDown identity method uri ↔ ¬(IgnoresMethod uri.path ∧ GrantsAdminRead identity) := by
  rw [← authorizeRoute_of_readOnly hreadOnly (isReadMethod_eq_false.2 hmethod) hhealth hready]
  exact ⟨fun h => h.1, fun h => ⟨h, fun _ _ _ _ => route_of_unauthorized h⟩⟩

/-- A credential to read keys does not write one. -/
theorem readOnly_refused_put : TurnedDown (Sample.reader "kv") .put Sample.uri := by
  refine (readOnly_refused_iff (Sample.readOnly_reader "kv") (by decide) ?_ ?_).2 ?_
  · decide +kernel
  · decide +kernel
  · rintro ⟨-, granted, hgranted, hadmin⟩
    rw [List.mem_singleton.1 hgranted] at hadmin
    exact absurd hadmin (by decide +kernel)

/-- **A read-only credential mutates**: a POST to the inventory of locks needs no more than
`admin:read`, and is forwarded. -/
theorem not_readOnly_refused :
    ReadOnly (Sample.reader "admin") ∧
      segments Sample.observe.path ≠ ["healthz"] ∧ segments Sample.observe.path ≠ ["readyz"] ∧
      authorizeRoute (some (Sample.reader "admin")) .post Sample.observe = none ∧
      ∃ tr q, (route Reference.env 1 Sample.postObserve).Steps tr q ∧
        attemptsOf Reference.env tr ≠ [] := by
  refine ⟨Sample.readOnly_reader "admin", ?_, ?_, ?_, _, _,
    Proc.steps_runWith Sample.oracle _ [], ?_⟩
  all_goals decide +kernel

end Proxy

end LoadBalance
