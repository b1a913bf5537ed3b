import FiduciaLoadBalance.Json.Text

/-!
# HTTP messages

The values an HTTP server and client hand around: methods, statuses, header maps,
request targets, bodies and responses.  Each type carries as a field what its
constructor checks — a method is a token, a header value has no control
characters but tabs, a request target has no blanks — so what the code leans on
("no NUL in a method, a target or a header") is a fact about the types:
`Method.nul_notMem`, `Uri.nul_notMem_target`, `HeaderValue.nul_notMem_toStr`.
-/

namespace Http

open Text

/-- A string of bytes. -/
abbrev Bytes : Type := List UInt8

/-! ## Methods -/

/-- The characters of a token. -/
def isTokenChar (c : Char) : Bool :=
  c.isAlphanum || "!#$%&'*+-.^_`|~".toList.contains c

/-- A request method: any nonempty token. -/
structure Method where
  name : String
  token : name ≠ "" ∧ name.toList.all isTokenChar = true
deriving DecidableEq

namespace Method

/-- The method of this name, if it is a token. -/
def fromBytes (name : String) : Option Method :=
  if h : name ≠ "" ∧ name.toList.all isTokenChar = true then some ⟨name, h⟩ else none

def get : Method := ⟨"GET", by decide⟩

def head : Method := ⟨"HEAD", by decide⟩

def options : Method := ⟨"OPTIONS", by decide⟩

def post : Method := ⟨"POST", by decide⟩

def put : Method := ⟨"PUT", by decide⟩

def patch : Method := ⟨"PATCH", by decide⟩

def delete : Method := ⟨"DELETE", by decide⟩

@[simp] theorem fromBytes_name (m : Method) : fromBytes m.name = some m := by
  rw [fromBytes, dif_pos m.token]

theorem nul_notMem (m : Method) : Char.ofNat 0 ∉ m.name.toList := fun h =>
  absurd (List.all_eq_true.1 m.token.2 _ h) (by decide)

end Method

/-! ## Statuses -/

/-- A status code: three digits. -/
structure StatusCode where
  code : ℕ
  valid : 100 ≤ code ∧ code < 1000
deriving DecidableEq

namespace StatusCode

def fromU16 (code : ℕ) : Option StatusCode :=
  if h : 100 ≤ code ∧ code < 1000 then some ⟨code, h⟩ else none

def isSuccess (s : StatusCode) : Bool := 200 ≤ s.code ∧ s.code < 300

def isServerError (s : StatusCode) : Bool := 500 ≤ s.code ∧ s.code < 600

def ok : StatusCode := ⟨200, by decide⟩

def temporaryRedirect : StatusCode := ⟨307, by decide⟩

def badRequest : StatusCode := ⟨400, by decide⟩

def unauthorized : StatusCode := ⟨401, by decide⟩

def forbidden : StatusCode := ⟨403, by decide⟩

def requestTimeout : StatusCode := ⟨408, by decide⟩

def conflict : StatusCode := ⟨409, by decide⟩

def misdirectedRequest : StatusCode := ⟨421, by decide⟩

def tooManyRequests : StatusCode := ⟨429, by decide⟩

def badGateway : StatusCode := ⟨502, by decide⟩

def serviceUnavailable : StatusCode := ⟨503, by decide⟩

@[simp] theorem fromU16_code (s : StatusCode) : fromU16 s.code = some s := by
  rw [fromU16, dif_pos s.valid]

end StatusCode

/-! ## Headers -/

/-- The bytes a header value may hold. -/
def isHeaderByte (b : UInt8) : Bool := (32 ≤ b.toNat ∧ b.toNat ≠ 127) ∨ b.toNat = 9

/-- The bytes a header value read as text may hold. -/
def isVisibleAscii (b : UInt8) : Bool := (32 ≤ b.toNat ∧ b.toNat < 127) ∨ b.toNat = 9

/-- The value of a header. -/
structure HeaderValue where
  bytes : Bytes
  valid : bytes.all isHeaderByte = true
deriving DecidableEq

namespace HeaderValue

def fromBytes (bytes : Bytes) : Option HeaderValue :=
  if h : bytes.all isHeaderByte = true then some ⟨bytes, h⟩ else none

def fromStr (s : String) : Option HeaderValue := fromBytes (utf8 s)

/-- The text of a value that is visible ASCII. -/
def toStr (v : HeaderValue) : Option String :=
  if v.bytes.all isVisibleAscii then
    some (String.ofList (v.bytes.map fun b => Char.ofNat b.toNat))
  else none

@[simp] theorem fromBytes_bytes (v : HeaderValue) : fromBytes v.bytes = some v := by
  rw [fromBytes, dif_pos v.valid]

theorem isVisibleAscii_lt {b : UInt8} (h : isVisibleAscii b = true) : b.toNat < 127 := by
  have : (32 ≤ b.toNat ∧ b.toNat < 127) ∨ b.toNat = 9 := by simpa [isVisibleAscii] using h
  omega

/-- The text of a value spells its bytes. -/
theorem utf8_of_toStr {v : HeaderValue} {s : String} (h : v.toStr = some s) :
    utf8 s = v.bytes := by
  rw [toStr] at h
  split at h
  · rename_i hall
    rw [← Option.some.inj h]
    exact utf8_map_ofNat fun b hb =>
      lt_trans (isVisibleAscii_lt (List.all_eq_true.1 hall b hb)) (by omega)
  · exact absurd h (by simp)

/-- Text that is visible ASCII. -/
def VisibleText (s : String) : Prop :=
  ∀ c ∈ s.toList, (32 ≤ c.toNat ∧ c.toNat < 127) ∨ c.toNat = 9

/-- Text is visible ASCII when its bytes are. -/
theorem visibleText_iff {s : String} : VisibleText s ↔ (utf8 s).all isVisibleAscii = true := by
  have hval : ∀ b : UInt8, (Char.ofNat b.toNat).toNat = b.toNat := fun b => by
    rw [Char.toNat_ofNat, if_pos (Or.inl (lt_trans (UInt8.toNat_lt b) (by decide)))]
  have hsame : (utf8 s).map (fun b => Char.ofNat b.toNat) = s.toList →
      (VisibleText s ↔ (utf8 s).all isVisibleAscii = true) := by
    intro hmap
    rw [VisibleText, ← hmap, List.forall_mem_map, List.all_eq_true]
    simp [hval, isVisibleAscii]
  constructor
  · intro h
    refine (hsame (map_utf8_of_ascii fun c hc => ?_)).1 h
    rcases h c hc with h | h <;> omega
  · intro h
    have hlt : ∀ b ∈ utf8 s, b.toNat < 128 := fun b hb =>
      lt_trans (isVisibleAscii_lt (List.all_eq_true.1 h b hb)) (by omega)
    refine (hsame ?_).2 h
    rw [← utf8_injective (utf8_map_ofNat hlt), String.toList_ofList, utf8_map_ofNat hlt]

/-- **The text of a value**: what spells its bytes, if it is visible. -/
theorem toStr_eq_some_iff {v : HeaderValue} {s : String} :
    v.toStr = some s ↔ v.bytes = utf8 s ∧ VisibleText s := by
  constructor
  · intro h
    have hbytes := utf8_of_toStr h
    refine ⟨hbytes.symm, visibleText_iff.2 ?_⟩
    rw [hbytes]
    rw [toStr] at h
    split at h
    · assumption
    · exact absurd h (by simp)
  · rintro ⟨hbytes, hvisible⟩
    have hall : v.bytes.all isVisibleAscii = true := hbytes ▸ visibleText_iff.1 hvisible
    obtain ⟨t, ht⟩ : ∃ t, v.toStr = some t := ⟨_, by rw [toStr, if_pos hall]⟩
    rw [ht, utf8_injective ((utf8_of_toStr ht).trans hbytes)]

theorem bytes_of_fromStr {v : HeaderValue} {s : String} (h : fromStr s = some v) :
    v.bytes = utf8 s := by
  rw [fromStr, fromBytes] at h
  split at h
  · rw [← Option.some.inj h]
  · exact absurd h (by simp)

/-- Visible text is the text of a value. -/
theorem exists_fromStr {s : String} (h : VisibleText s) : ∃ v, fromStr s = some v := by
  have hall : (utf8 s).all isHeaderByte = true := by
    refine List.all_eq_true.2 fun b hb => ?_
    have hvisible := List.all_eq_true.1 (visibleText_iff.1 h) b hb
    simp only [isVisibleAscii, isHeaderByte, decide_eq_true_eq] at hvisible ⊢
    omega
  exact ⟨_, by rw [fromStr, fromBytes, dif_pos hall]⟩

/-- A value read as text and written back is the same value. -/
theorem fromStr_of_toStr {v : HeaderValue} {s : String} (h : v.toStr = some s) :
    fromStr s = some v := by
  rw [fromStr, utf8_of_toStr h, fromBytes_bytes]

theorem nul_notMem_toStr {v : HeaderValue} {s : String} (h : v.toStr = some s) :
    (0 : UInt8) ∉ utf8 s := by
  rw [utf8_of_toStr h]
  exact fun hb => absurd (List.all_eq_true.1 v.valid 0 hb) (by decide)

end HeaderValue

/-- Headers in order, their names in lower case. -/
structure HeaderMap where
  entries : List (String × HeaderValue)
deriving DecidableEq

namespace HeaderMap

def empty : HeaderMap := ⟨[]⟩

/-- The first value of a header. -/
def get (headers : HeaderMap) (name : String) : Option HeaderValue :=
  headers.entries.lookup name

/-- All values of a header, in order. -/
def getAll (headers : HeaderMap) (name : String) : List HeaderValue :=
  (headers.entries.filter (·.1 == name)).map Prod.snd

/-- Set a header to one value. -/
def insert (headers : HeaderMap) (name : String) (value : HeaderValue) : HeaderMap :=
  ⟨headers.entries.filter (·.1 != name) ++ [(name, value)]⟩

/-- Add a value to a header. -/
def append (headers : HeaderMap) (name : String) (value : HeaderValue) : HeaderMap :=
  ⟨headers.entries ++ [(name, value)]⟩

theorem lookup_filter_ne {α : Type} (entries : List (String × α)) {name other : String}
    (h : other ≠ name) :
    (entries.filter (·.1 != name)).lookup other = entries.lookup other := by
  induction entries with
  | nil => rfl
  | cons e entries ih =>
    obtain ⟨k, v⟩ := e
    by_cases hk : k = name
    · rw [List.filter_cons_of_neg (by simp [hk]), ih, List.lookup_cons,
        beq_false_of_ne (by rw [hk]; exact h)]
    · rw [List.filter_cons_of_pos (by simpa using hk), List.lookup_cons, List.lookup_cons, ih]

theorem lookup_filter_self {α : Type} (entries : List (String × α)) (name : String) :
    (entries.filter (·.1 != name)).lookup name = none := by
  rw [List.lookup_eq_none_iff]
  intro e he
  exact bne_iff_ne.2 (bne_iff_ne.1 (List.mem_filter.1 he).2).symm

@[simp] theorem get_insert_self (headers : HeaderMap) (name : String) (value : HeaderValue) :
    (headers.insert name value).get name = some value := by
  simp [get, insert, List.lookup_append, lookup_filter_self, List.lookup]

theorem get_insert_of_ne (headers : HeaderMap) {name other : String} (value : HeaderValue)
    (h : other ≠ name) : (headers.insert name value).get other = headers.get other := by
  rw [get, insert, List.lookup_append, lookup_filter_ne _ h, get]
  simp [List.lookup, beq_false_of_ne h]

/-- The first value is the first of all values. -/
theorem get_eq_head? (headers : HeaderMap) (name : String) :
    headers.get name = (headers.getAll name).head? := by
  obtain ⟨entries⟩ := headers
  unfold get getAll
  induction entries with
  | nil => rfl
  | cons e entries ih =>
    rw [List.lookup_cons]
    by_cases h : e.1 = name
    · simp [h]
    · rw [beq_false_of_ne (Ne.symm h), List.filter_cons_of_neg (by simpa using h)]
      exact ih

@[simp] theorem getAll_empty (name : String) : empty.getAll name = [] := rfl

theorem getAll_append (headers : HeaderMap) (other : String) (value : HeaderValue)
    (name : String) : (headers.append other value).getAll name =
      headers.getAll name ++ if other = name then [value] else [] := by
  by_cases h : other = name <;> simp [getAll, append, h]

theorem getAll_insert (headers : HeaderMap) (other : String) (value : HeaderValue)
    (name : String) : (headers.insert other value).getAll name =
      if other = name then [value] else headers.getAll name := by
  unfold getAll insert
  by_cases h : other = name
  · simp [h, List.filter_filter]
  · rw [if_neg h, List.filter_append, List.filter_filter]
    have hkept : ∀ e : String × HeaderValue, (e.1 == name && e.1 != other) = (e.1 == name) := by
      intro e
      by_cases he : e.1 = name
      · simp [he, Ne.symm h]
      · simp [he]
    simp [hkept, h]

/-- A filter on the names keeps all values of a name or none. -/
theorem getAll_filter (entries : List (String × HeaderValue)) (p : String → Bool)
    (name : String) : (⟨entries.filter fun e => p e.1⟩ : HeaderMap).getAll name =
      if p name then (⟨entries⟩ : HeaderMap).getAll name else [] := by
  unfold getAll
  rw [List.filter_filter]
  by_cases h : p name = true
  · rw [if_pos h]
    have hkept : ∀ e : String × HeaderValue, (e.1 == name && p e.1) = (e.1 == name) := by
      intro e
      by_cases he : e.1 = name <;> simp [he, h]
    simp [hkept]
  · rw [if_neg h, List.map_eq_nil_iff, List.filter_eq_nil_iff]
    rintro e - he
    rw [Bool.and_eq_true, beq_iff_eq] at he
    exact h (he.1 ▸ he.2)

theorem getAll_eq_nil_iff {headers : HeaderMap} {name : String} :
    headers.getAll name = [] ↔ ∀ e ∈ headers.entries, e.1 ≠ name := by
  simp [getAll, List.filter_eq_nil_iff]

end HeaderMap

/-! ## Request targets -/

/-- A request target: the text before the query, and the query if there is one. -/
structure Uri where
  scheme : Option String
  authority : Option String
  pathText : String
  query : Option String
  valid : (pathText.toList.all fun c => decide (0x20 < c.toNat) && c != '?' && c != '#') = true ∧
    ((query.getD "").toList.all fun c => decide (0x20 < c.toNat) && c != '#') = true
deriving DecidableEq

namespace Uri

/-- The text of path and query together. -/
def pathAndQueryText (uri : Uri) : String :=
  uri.pathText ++ (match uri.query with | none => "" | some q => "?" ++ q)

/-- The path; the empty path of an absolute target or of a bare query is `/`. -/
def path (uri : Uri) : String :=
  if uri.pathAndQueryText ≠ "" ∨ uri.scheme.isSome then
    if uri.pathText = "" then "/" else uri.pathText
  else ""

/-- Path and query; a target that is an authority alone has none. -/
def pathAndQuery (uri : Uri) : Option String :=
  if uri.scheme.isSome ∨ uri.authority.isNone then
    some (if uri.pathAndQueryText = "" then "/" else uri.pathAndQueryText)
  else none

/-- The target of a request, as the code that logs or hashes it reads it. -/
def target (uri : Uri) : String := uri.pathAndQuery.getD uri.path

/-- The target `text` without scheme and authority; the part after the first `?`
is the query. -/
def ofOriginForm (text : String) : Option Uri :=
  let pathText := String.ofList (text.toList.takeWhile (· ≠ '?'))
  let query := (splitOnce '?' text).map Prod.snd
  if h : (pathText.toList.all fun c => decide (0x20 < c.toNat) && c != '?' && c != '#') = true ∧
      ((query.getD "").toList.all fun c => decide (0x20 < c.toNat) && c != '#') = true then
    some ⟨none, none, pathText, query, h⟩
  else none

theorem nul_notMem_pathAndQueryText (uri : Uri) :
    Char.ofNat 0 ∉ uri.pathAndQueryText.toList := by
  have hp : Char.ofNat 0 ∉ uri.pathText.toList := fun h =>
    absurd (List.all_eq_true.1 uri.valid.1 _ h) (by decide)
  have hq : Char.ofNat 0 ∉ (uri.query.getD "").toList := fun h =>
    absurd (List.all_eq_true.1 uri.valid.2 _ h) (by decide)
  rw [pathAndQueryText, String.toList_append, List.mem_append]
  rintro (h | h)
  · exact hp h
  · cases hquery : uri.query with
    | none => simp [hquery] at h
    | some q =>
      rw [hquery] at hq h
      rw [String.toList_append, List.mem_append] at h
      exact h.elim (by decide) hq

/-- No request target holds a NUL. -/
theorem nul_notMem_target (uri : Uri) : Char.ofNat 0 ∉ uri.target.toList := by
  have htext := uri.nul_notMem_pathAndQueryText
  have hpath : Char.ofNat 0 ∉ uri.pathText.toList := fun h =>
    htext (by rw [pathAndQueryText, String.toList_append]; exact List.mem_append_left _ h)
  have hslash : Char.ofNat 0 ∉ "/".toList := by decide
  have hempty : Char.ofNat 0 ∉ "".toList := by decide
  rw [target, pathAndQuery, path]
  split_ifs
  all_goals first | exact htext | exact hpath | exact hslash | exact hempty

end Uri

/-! ## Bodies and responses -/

/-- How a body that arrives in chunks ends. -/
inductive Ending : Type
  | eof
  | error
deriving DecidableEq

/-- A response body: bytes in memory, or chunks still to arrive. -/
inductive Body : Type
  | full (bytes : Bytes)
  | stream (chunks : List Bytes) (ending : Ending)
deriving DecidableEq

/-- The bytes of a body. -/
def Body.bytes : Body → Bytes
  | .full bytes => bytes
  | .stream chunks _ => chunks.flatten

/-- The chunks appended to `acc`, if they end well and the total stays within
`limit`. -/
def collectChunks (limit : ℕ) : Bytes → List Bytes → Ending → Option Bytes
  | acc, [], .eof => some acc
  | _, [], .error => none
  | acc, chunk :: chunks, ending =>
    if acc.length + chunk.length ≤ limit then collectChunks limit (acc ++ chunk) chunks ending
    else none

/-- Read a body to its end, at most `limit` bytes of it. -/
def toBytes (limit : ℕ) : Body → Option Bytes
  | .full bytes => if bytes.length ≤ limit then some bytes else none
  | .stream chunks ending => collectChunks limit [] chunks ending

/-- A response. -/
structure Response where
  status : StatusCode
  headers : HeaderMap
  body : Body
deriving DecidableEq

namespace Response

/-- The response with one more header set. -/
def withHeader (r : Response) (name : String) (value : HeaderValue) : Response :=
  { r with headers := r.headers.insert name value }

@[simp] theorem withHeader_status (r : Response) (name : String) (value : HeaderValue) :
    (r.withHeader name value).status = r.status := rfl

@[simp] theorem withHeader_body (r : Response) (name : String) (value : HeaderValue) :
    (r.withHeader name value).body = r.body := rfl

@[simp] theorem withHeader_headers (r : Response) (name : String) (value : HeaderValue) :
    (r.withHeader name value).headers = r.headers.insert name value := rfl

end Response

end Http
