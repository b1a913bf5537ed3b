import FiduciaLoadBalance.Auth.Identity
import FiduciaLoadBalance.Routing

/-!
# Which requests may pass

Before a request goes anywhere its path is checked for dot segments and its
identity for a scope of the route.

* `pathHasDotSegment_iff` — the dot-segment check finds exactly the segments that,
  with `%2e` read as a dot, are `.` or `..`.
* `authorizeRoute_ok_iff` — a route passes when it is public, or an identity is
  there that holds one of its scopes.
-/

namespace LoadBalance

open Http Text

namespace Proxy

/-! ## Dot segments -/

/-- Does the path contain a `.` or `..` segment, plain or percent-encoded? -/
def pathHasDotSegment (path : String) : Bool :=
  (split '/' path).any fun segment =>
    [".", "%2e", "..", ".%2e", "%2e.", "%2e%2e"].contains (toAsciiLowercase segment)

def dotSegmentResponse (env : Env) (uri : Uri) : Response :=
  jsonResponse env .badRequest (.ofFields
    [("error", .string "invalid_path"),
      ("detail", .string "path may not contain a '.' or '..' segment"),
      ("path", .string uri.path)])

/-! ## Scopes -/

def publicScopes : List String := []

def adminReadScopes : List String := ["admin:read", "admin:write"]

def adminWriteScopes : List String := ["admin:write"]

def kvReadScopes : List String := ["kv:read", "kv:write", "admin:read", "admin:write"]

def kvWriteScopes : List String := ["kv:write", "admin:write"]

def locksReadScopes : List String := ["locks:read", "locks:write", "admin:read", "admin:write"]

def locksWriteScopes : List String := ["locks:write", "admin:write"]

def requestsReadScopes : List String :=
  ["requests:read", "requests:write", "admin:read", "admin:write"]

def requestsWriteScopes : List String := ["requests:write", "admin:write"]

def rateLimitReadScopes : List String :=
  ["rate-limit:read", "rate-limit:write", "requests:read", "requests:write", "admin:read",
    "admin:write"]

def rateLimitWriteScopes : List String := ["rate-limit:write", "requests:write", "admin:write"]

def cronReadScopes : List String :=
  ["cron:read", "cron:write", "requests:read", "requests:write", "admin:read", "admin:write"]

def cronWriteScopes : List String := ["cron:write", "requests:write", "admin:write"]

def electionsReadScopes : List String :=
  ["elections:read", "elections:write", "locks:read", "locks:write", "admin:read", "admin:write"]

def electionsWriteScopes : List String := ["elections:write", "locks:write", "admin:write"]

def servicesReadScopes : List String :=
  ["services:read", "services:write", "admin:read", "admin:write"]

def servicesWriteScopes : List String := ["services:write", "admin:write"]

def isReadMethod (method : Method) : Bool :=
  method = .get ∨ method = .head ∨ method = .options

/-- The scopes one of which a route asks for; none for a public route. -/
def requiredScopesForRoute (method : Method) (uri : Uri) : List String :=
  let read := isReadMethod method
  match segments uri.path with
  | ["healthz"] => publicScopes
  | ["readyz"] => publicScopes
  | ["v1", "status"] => adminReadScopes
  -- holders and fencing tokens: an admin surface whatever the method
  | "v1" :: "observe" :: _ => adminReadScopes
  | ["v1", "kv"] => if read then kvReadScopes else kvWriteScopes
  | "v1" :: "locks" :: _ => if read then locksReadScopes else locksWriteScopes
  | "v1" :: "semaphores" :: _ => if read then locksReadScopes else locksWriteScopes
  | "v1" :: "rw" :: _ => if read then locksReadScopes else locksWriteScopes
  | ["v1", "idempotency"] => if read then requestsReadScopes else requestsWriteScopes
  | "v1" :: "idempotency" :: _ => requestsWriteScopes
  | "v1" :: "rate-limit" :: _ => if read then rateLimitReadScopes else rateLimitWriteScopes
  | "v1" :: "ratelimit" :: _ => if read then rateLimitReadScopes else rateLimitWriteScopes
  | "v1" :: "cron" :: _ => if read then cronReadScopes else cronWriteScopes
  | "v1" :: "elections" :: _ => if read then electionsReadScopes else electionsWriteScopes
  | "v1" :: "services" :: _ => if read then servicesReadScopes else servicesWriteScopes
  | "v1" :: "counters" :: _ => if read then kvReadScopes else kvWriteScopes
  | "v1" :: "barriers" :: _ => if read then locksReadScopes else locksWriteScopes
  | "v1" :: "handoffs" :: _ => if read then locksReadScopes else locksWriteScopes
  | "v1" :: "claims" :: _ => if read then locksReadScopes else locksWriteScopes
  | "v1" :: "tasks" :: _ => if read then requestsReadScopes else requestsWriteScopes
  | "v1" :: "effects" :: _ => if read then requestsReadScopes else requestsWriteScopes
  | "v1" :: "decisions" :: _ => if read then requestsReadScopes else requestsWriteScopes
  | "v1" :: "budgets" :: _ => if read then rateLimitReadScopes else rateLimitWriteScopes
  | _ => if read then adminReadScopes else adminWriteScopes

/-- A granted scope covers a required one: the same, or `prefix:*` over
`prefix:...`. -/
def scopeMatches (granted required : String) : Bool :=
  if granted = required then true
  else
    match stripSuffix granted ":*" with
    | none => false
    | some pre =>
      match stripPrefix required pre with
      | none => false
      | some rest => startsWith rest ":"

/-- Is one of the granted scopes `*` or a match for one of the required ones? -/
def hasAnyScope (identity : VerifiedIdentity) (required : List String) : Bool :=
  identity.scopes.any fun granted =>
    trim granted == "*" || required.any (scopeMatches (trim granted))

/-- `none` where the route is permitted, the required scopes where it is not. -/
def authorizeRoute (identity : Option VerifiedIdentity) (method : Method) (uri : Uri) :
    Option (List String) :=
  let required := requiredScopesForRoute method uri
  if required = [] then none
  else
    match identity with
    | none => some required
    | some identity => if hasAnyScope identity required then none else some required

def insufficientScopeResponse (env : Env) (method : Method) (uri : Uri)
    (required : List String) : Response :=
  jsonResponse env .forbidden (.ofFields
    [("error", .string "insufficient_scope"),
      ("detail", .string "credential scope does not permit this route"),
      ("method", .string method.name),
      ("path", .string uri.path),
      ("required_scopes", .array (required.map .string))])

/-! ## What the checks mean -/

/-- A segment with every `%2e`, in either case, read as a dot. -/
def readDots : List Char → List Char
  | '%' :: '2' :: 'e' :: rest => '.' :: readDots rest
  | '%' :: '2' :: 'E' :: rest => '.' :: readDots rest
  | c :: rest => c :: readDots rest
  | [] => []

/-- A dot segment: one or two dots, each plain or percent-encoded. -/
def IsDotSegment (segment : List Char) : Prop :=
  readDots segment = ['.'] ∨ readDots segment = ['.', '.']

/-- The path has a dot segment between its slashes. -/
def HasDotSegment (path : String) : Prop :=
  ∃ segment, IsPiece '/' path.toList segment ∧ IsDotSegment segment

theorem toLower_eq_dot {c : Char} : c.toLower = '.' ↔ c = '.' :=
  toLower_eq_iff (fun n h₁ h₂ => by interval_cases n <;> decide) (by decide)

theorem toLower_eq_percent {c : Char} : c.toLower = '%' ↔ c = '%' :=
  toLower_eq_iff (fun n h₁ h₂ => by interval_cases n <;> decide) (by decide)

theorem toLower_eq_two {c : Char} : c.toLower = '2' ↔ c = '2' :=
  toLower_eq_iff (fun n h₁ h₂ => by interval_cases n <;> decide) (by decide)

theorem toLower_eq_e {c : Char} : c.toLower = 'e' ↔ c = 'e' ∨ c = 'E' := by
  constructor
  · intro h
    rcases toLower_cases c with hc | ⟨h₁, h₂, hc⟩
    · exact Or.inl (hc.symm.trans h)
    · right
      rw [h] at hc
      rw [← Char.ofNat_toNat c]
      revert hc
      interval_cases c.toNat <;> decide
  · rintro (rfl | rfl) <;> decide

theorem readDots_eq_nil {l : List Char} : readDots l = [] ↔ l = [] := by
  fun_cases readDots l <;> simp

theorem readDots_eq_dot_cons {l rest : List Char} :
    readDots l = '.' :: rest ↔ ∃ l', readDots l' = rest ∧
      (l = '.' :: l' ∨ l = '%' :: '2' :: 'e' :: l' ∨ l = '%' :: '2' :: 'E' :: l') := by
  constructor
  · intro h
    fun_cases readDots l with
    | case1 l' => exact ⟨l', (List.cons.inj h).2, by simp⟩
    | case2 l' => exact ⟨l', (List.cons.inj h).2, by simp⟩
    | case3 c l' h₁ h₂ =>
      rw [readDots.eq_3 _ _ h₁ h₂] at h
      obtain ⟨hc, hrest⟩ := List.cons.inj h
      exact ⟨l', hrest, by simp [hc]⟩
    | case4 => exact absurd h (by simp [readDots])
  · rintro ⟨l', rfl, rfl | rfl | rfl⟩ <;> simp [readDots]

/-- The spellings the check looks for are those of the dot segments. -/
theorem isDotSegment_iff (segment : String) :
    IsDotSegment segment.toList ↔ toAsciiLowercase segment ∈
      [".", "%2e", "..", ".%2e", "%2e.", "%2e%2e"] := by
  have hlower : ∀ s : String, toAsciiLowercase segment = s ↔
      segment.toList.map Char.toLower = s.toList := by
    intro s
    rw [toAsciiLowercase, ← String.toList_inj, String.toList_ofList]
  generalize segment.toList = l at hlower
  simp only [List.mem_cons, List.not_mem_nil, or_false, hlower, IsDotSegment,
    readDots_eq_dot_cons, readDots_eq_nil]
  constructor
  · rintro (⟨_, rfl, rfl | rfl | rfl⟩ | ⟨_, ⟨_, rfl, rfl | rfl | rfl⟩, rfl | rfl | rfl⟩) <;> decide
  · simp only [String.reduceToList, List.map_eq_cons_iff, List.map_eq_nil_iff, toLower_eq_dot,
      toLower_eq_percent, toLower_eq_two, toLower_eq_e, ↓existsAndEq, and_true, true_and]
    rintro (rfl | ⟨_, rfl, rfl | rfl⟩ | rfl | ⟨_, rfl, rfl | rfl⟩ | ⟨_, rfl, rfl | rfl⟩ |
      ⟨_, _, rfl, rfl | rfl, rfl | rfl⟩) <;> simp

/-- **The dot-segment check** finds exactly the dot segments between slashes. -/
theorem pathHasDotSegment_iff (path : String) :
    pathHasDotSegment path = true ↔ HasDotSegment path := by
  rw [pathHasDotSegment, List.any_eq_true]
  constructor
  · rintro ⟨segment, hmem, hdot⟩
    exact ⟨segment.toList, mem_split_iff.1 hmem, (isDotSegment_iff segment).2 (by simpa using hdot)⟩
  · rintro ⟨segment, hpiece, hdot⟩
    rw [← String.toList_ofList (l := segment)] at hpiece hdot
    exact ⟨String.ofList segment, mem_split_iff.2 hpiece, by
      simpa using (isDotSegment_iff _).1 hdot⟩

/-- Only the two health routes ask for no scope. -/
theorem requiredScopesForRoute_eq_nil (method : Method) (uri : Uri) :
    requiredScopesForRoute method uri = [] ↔
      segments uri.path = ["healthz"] ∨ segments uri.path = ["readyz"] := by
  constructor
  · intro h
    rw [requiredScopesForRoute] at h
    split at h
    · exact Or.inl ‹_›
    · exact Or.inr ‹_›
    all_goals first | exact absurd h (by decide) | (split at h <;> exact absurd h (by decide))
  · rintro (h | h) <;> simp [requiredScopesForRoute, h, publicScopes]

/-- A request is authorized for a route: the route is public, or an identity is
present that holds `*` or a match for one of the route's scopes. -/
def Authorized (identity : Option VerifiedIdentity) (method : Method) (uri : Uri) : Prop :=
  (segments uri.path = ["healthz"] ∨ segments uri.path = ["readyz"]) ∨
    ∃ id, identity = some id ∧ ∃ granted ∈ id.scopes, trim granted = "*" ∨
      ∃ required ∈ requiredScopesForRoute method uri, scopeMatches (trim granted) required = true

/-- **A route passes** exactly when the request is authorized for it. -/
theorem authorizeRoute_ok_iff (identity : Option VerifiedIdentity) (method : Method) (uri : Uri) :
    authorizeRoute identity method uri = none ↔ Authorized identity method uri := by
  rw [Authorized, ← requiredScopesForRoute_eq_nil method uri]
  unfold authorizeRoute
  by_cases hpublic : requiredScopesForRoute method uri = []
  · simp [hpublic]
  · rw [if_neg hpublic, or_iff_right hpublic]
    cases identity with
    | none => simp
    | some id => simp [hasAnyScope, or_iff_not_imp_left]

end Proxy

end LoadBalance
