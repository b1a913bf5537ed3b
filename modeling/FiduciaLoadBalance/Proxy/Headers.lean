import FiduciaLoadBalance.Proxy.Draining
import FiduciaLoadBalance.Proxy.Route

/-!
# Headers on the way to a node and back

What an attempt passes on of the headers it was given: of the client's on the way to the
node, and of the node's on the way back.

* `getAll_prepare` — the values a name has in the request that is sent;
* `hygienic_iff` — when nothing a client sent goes out under a reserved name;
* `readResponse_served` — what is handed back of a node's response;
* `transparent_iff` — when a response is handed back as it came.
-/

namespace LoadBalance

open Http Text

namespace Proxy

/-! ## To the node -/

/-- What every header of the trusted hop starts with. -/
def trustedPrefix : String := "x-fiducia-"

/-- Is the name one of the trusted hop, in any case? -/
def isTrusted (name : String) : Bool := startsWith (toAsciiLowercase name) trustedPrefix

/-- The names under which nothing a client sent may reach a node. -/
def Reserved (name : String) : Prop :=
  toAsciiLowercase name ∈ ["authorization", "x-api-key", "cookie", idempotencyKeyHeader] ∨
    isHopByHop name = true ∨ isTrusted name = true

/-- The values the balancer itself adds under a name. -/
def injected (env : Env) (identity : Option VerifiedIdentity) (name : String) :
    List HeaderValue :=
  (trustedHeaders env identity).filterMap fun header =>
    if header.1 = name then HeaderValue.fromStr header.2 else none

/-- Of the reserved names the request has what the balancer adds and no more, those of the
trusted hop at most once; of all other names it has what the client sent. -/
structure Hygienic (env : Env) (a : Attempt) (request : WireRequest) : Prop where
  reserved : ∀ name, Reserved name →
    request.headers.getAll name = injected env a.identity name
  once : ∀ name, isTrusted name = true → (request.headers.getAll name).length ≤ 1
  forwarded : ∀ name, ¬Reserved name →
    request.headers.getAll name = a.headers.getAll name

section

variable {env : Env} {identity : Option VerifiedIdentity} {name : String}

/-- The names the balancer adds, each at most once. -/
theorem map_fst_trustedHeaders : ((trustedHeaders env identity).map Prod.fst).Sublist
    ["x-fiducia-auth-kind", "x-fiducia-org-id", "x-fiducia-scopes", "x-fiducia-key-id",
      internalAuthHeader] := by
  unfold trustedHeaders identityHeaders
  cases identity with
  | none => cases env.internalSecret <;> simp
  | some identity =>
    dsimp only
    cases identity.keyId with
    | none => cases env.internalSecret <;> simp
    | some keyId => cases env.internalSecret <;> simp

theorem isTrusted_of_mem_trustedHeaders {header : String × String}
    (h : header ∈ trustedHeaders env identity) : isTrusted header.1 = true := by
  have hmem := map_fst_trustedHeaders.subset (List.mem_map_of_mem h)
  revert hmem
  generalize header.1 = name
  intro hmem
  fin_cases hmem <;> decide

theorem injected_eq_nil (h : ∀ header ∈ trustedHeaders env identity, header.1 ≠ name) :
    injected env identity name = [] := by
  rw [injected, List.filterMap_eq_nil_iff]
  exact fun header hheader => if_neg (h header hheader)

theorem injected_of_not_reserved (h : ¬Reserved name) : injected env identity name = [] := by
  refine injected_eq_nil fun header hheader hname => h (Or.inr (Or.inr ?_))
  rw [← hname]
  exact isTrusted_of_mem_trustedHeaders hheader

/-- Under any name the balancer adds at most one value. -/
theorem length_injected_le : (injected env identity name).length ≤ 1 := by
  have hnodup : ((trustedHeaders env identity).map Prod.fst).Nodup :=
    map_fst_trustedHeaders.nodup (by decide)
  unfold injected
  generalize trustedHeaders env identity = headers at hnodup
  induction headers with
  | nil => simp
  | cons header headers ih =>
    obtain ⟨hnot, hnodup⟩ := List.nodup_cons.1 hnodup
    by_cases h : header.1 = name
    · have hrest : headers.filterMap (fun header =>
          if header.1 = name then HeaderValue.fromStr header.2 else none) = [] := by
        rw [List.filterMap_eq_nil_iff]
        intro other hother
        refine if_neg fun hother' => hnot ?_
        rw [h, ← hother']
        exact List.mem_map_of_mem hother
      rw [List.filterMap_cons]
      cases if header.1 = name then HeaderValue.fromStr header.2 else none <;> simp [hrest]
    · rw [List.filterMap_cons, if_neg h]
      exact ih hnodup

theorem getAll_appendHeaders {added : List (String × String)} {headers result : HeaderMap}
    (h : appendHeaders headers added = some result) :
    result.getAll name = headers.getAll name ++ added.filterMap fun header =>
      if header.1 = name then HeaderValue.fromStr header.2 else none := by
  induction added generalizing headers with
  | nil =>
    obtain rfl := Option.some.inj h
    simp
  | cons header added ih =>
    rw [appendHeaders] at h
    obtain ⟨value, hvalue, hrest⟩ := Option.bind_eq_some_iff.1 h
    rw [ih hrest, HeaderMap.getAll_append, List.append_assoc, List.filterMap_cons, hvalue]
    by_cases hname : header.1 = name <;> simp [hname]

/-- Is a client's header of this name passed on? -/
def isForwarded (name : String) : Bool :=
  !(isHopByHop name || shouldStripClientAuthHeader name ||
    eqIgnoreAsciiCase name idempotencyKeyHeader)

/-- What is sent, of what was prepared. -/
theorem appendHeaders_of_prepare {a : Attempt} {request : WireRequest}
    (h : prepare env a = .send request) :
    appendHeaders (forwardedHeaders a.headers) (trustedHeaders env a.identity) =
      some request.headers := by
  unfold prepare at h
  cases hurl : upstreamUrl env a.nodeUrl a.uri with
  | none => simp [hurl] at h
  | some url =>
    rw [hurl, Method.fromBytes_name] at h
    cases hheaders : appendHeaders (forwardedHeaders a.headers) (trustedHeaders env a.identity) with
    | none => simp [hheaders] at h
    | some headers =>
      simp only [hheaders, Prepared.send.injEq] at h
      rw [← h]

/-- **The values of a name in the request that is sent**: the client's, if the name is
passed on, and the balancer's. -/
theorem getAll_prepare {a : Attempt} {request : WireRequest}
    (h : prepare env a = .send request) (name : String) :
    request.headers.getAll name =
      (if isForwarded name then a.headers.getAll name else []) ++ injected env a.identity name := by
  rw [getAll_appendHeaders (appendHeaders_of_prepare h)]
  exact congrArg (· ++ _) (HeaderMap.getAll_filter a.headers.entries isForwarded name)

/-! ### Which names are passed on -/

theorem isForwarded_of_not_reserved (h : ¬Reserved name) : isForwarded name = true := by
  unfold Reserved at h
  push Not at h
  obtain ⟨hclient, hhop, htrusted⟩ := h
  have hstrip : shouldStripClientAuthHeader name = false := by
    rw [← Bool.not_eq_true, shouldStripClientAuthHeader, List.contains_iff_mem]
    intro hmem
    unfold isTrusted at htrusted
    revert hclient htrusted hmem
    generalize toAsciiLowercase name = lower
    intro hclient htrusted hmem
    fin_cases hmem
    all_goals first | exact hclient (by decide) | exact htrusted (by decide)
  have hkey : eqIgnoreAsciiCase name idempotencyKeyHeader = false := by
    rw [← Bool.not_eq_true, eqIgnoreAsciiCase, beq_iff_eq]
    intro heq
    rw [heq] at hclient
    exact hclient (by decide)
  rw [isForwarded, hstrip, hkey, Bool.eq_false_iff.2 hhop]
  rfl

/-- A reserved name is passed on only if it is of the trusted hop and not in the list of
those that are stripped. -/
theorem isForwarded_of_reserved (h : Reserved name) : isForwarded name = true ↔
    isTrusted name = true ∧ shouldStripClientAuthHeader name = false := by
  have hlist : toAsciiLowercase name ∈
      ["authorization", "x-api-key", "cookie", idempotencyKeyHeader] →
      shouldStripClientAuthHeader name = true ∨
        eqIgnoreAsciiCase name idempotencyKeyHeader = true := by
    unfold shouldStripClientAuthHeader eqIgnoreAsciiCase
    generalize toAsciiLowercase name = lower
    intro hmem
    fin_cases hmem <;> decide
  have htrusted : isTrusted name = true →
      isHopByHop name = false ∧ eqIgnoreAsciiCase name idempotencyKeyHeader = false := by
    unfold isTrusted isHopByHop eqIgnoreAsciiCase
    generalize toAsciiLowercase name = lower
    intro hpre
    rw [← Bool.not_eq_true, ← Bool.not_eq_true, List.contains_iff_mem, beq_iff_eq]
    refine ⟨fun hmem => ?_, ?_⟩
    · fin_cases hmem <;> exact absurd hpre (by decide)
    · rintro rfl
      exact absurd hpre (by decide)
  unfold isForwarded
  rw [Bool.not_eq_true', Bool.or_eq_false_iff, Bool.or_eq_false_iff]
  constructor
  · rintro ⟨⟨hhop, hstrip⟩, hkey⟩
    refine ⟨?_, hstrip⟩
    rcases h with hclient | hhop' | htrusted'
    · rcases hlist hclient with h' | h'
      · exact absurd h' (by simp [hstrip])
      · exact absurd h' (by simp [hkey])
    · exact absurd hhop' (by simp [hhop])
    · exact htrusted'
  · rintro ⟨h', hstrip⟩
    exact ⟨⟨(htrusted h').1, hstrip⟩, (htrusted h').2⟩

end

/-- **When nothing a client sent goes out under a reserved name.**  The request of an
attempt has of the reserved names exactly what the balancer adds, and all else the client
sent, if and only if every header of the client that starts with `x-fiducia-` is in the list
of those that are stripped. -/
theorem hygienic_iff {env : Env} {a : Attempt} {request : WireRequest}
    (h : prepare env a = .send request) :
    Hygienic env a request ↔ ∀ header ∈ a.headers.entries, isTrusted header.1 = true →
      shouldStripClientAuthHeader header.1 = true := by
  constructor
  · intro hclean header hheader htrusted
    by_contra hstrip
    have hreserved : Reserved header.1 := Or.inr (Or.inr htrusted)
    have hforwarded := (isForwarded_of_reserved hreserved).2
      ⟨htrusted, Bool.eq_false_iff.2 hstrip⟩
    have hvalues := hclean.reserved header.1 hreserved
    rw [getAll_prepare h, if_pos hforwarded, List.append_left_eq_self] at hvalues
    exact HeaderMap.getAll_eq_nil_iff.1 hvalues header hheader rfl
  · intro hstrip
    have hreserved : ∀ name, Reserved name →
        request.headers.getAll name = injected env a.identity name := by
      intro name hname
      rw [getAll_prepare h, List.append_left_eq_self]
      split
      · rename_i hforwarded
        obtain ⟨htrusted, hkept⟩ := (isForwarded_of_reserved hname).1 hforwarded
        refine HeaderMap.getAll_eq_nil_iff.2 fun header hheader heq => ?_
        rw [← heq] at htrusted hkept
        exact absurd (hstrip header hheader htrusted) (by simp [hkept])
      · rfl
    refine ⟨hreserved, fun name htrusted => ?_, fun name hname => ?_⟩
    · rw [hreserved name (Or.inr (Or.inr htrusted))]
      exact length_injected_le
    · rw [getAll_prepare h, if_pos (isForwarded_of_not_reserved hname),
        injected_of_not_reserved hname, List.append_nil]

namespace Sample

/-- An attempt of a read with this header. -/
def read (name : String) : Attempt :=
  { nodeUrl := "http://a:1", identity := some identity, method := .get, uri
    headers := ⟨[(name, key)]⟩, body := [] }

/-- What it sends, with these headers of its own. -/
def readRequest (own : List (String × HeaderValue)) : WireRequest :=
  { method := .get, url := "http://a:1/v1/kv/a", body := [], streaming := false
    headers := ⟨own ++ [("x-fiducia-auth-kind", ⟨utf8 "api_key", by decide⟩),
      ("x-fiducia-org-id", ⟨utf8 "o", by decide⟩), ("x-fiducia-scopes", ⟨utf8 "*", by decide⟩),
      (internalAuthHeader, ⟨utf8 "internal", by decide⟩)]⟩ }

end Sample

/-- A forged identity does not go out. -/
theorem hygienic_forged :
    Hygienic Reference.env (Sample.read "x-fiducia-org-id") (Sample.readRequest []) :=
  (hygienic_iff (by decide +kernel)).2 (by decide +kernel)

/-- **A client's `x-fiducia-` header goes out** if its name is not in the list. -/
theorem not_hygienic :
    prepare Reference.env (Sample.read "x-fiducia-region") =
        .send (Sample.readRequest [("x-fiducia-region", Sample.key)]) ∧
      ¬Hygienic Reference.env (Sample.read "x-fiducia-region")
        (Sample.readRequest [("x-fiducia-region", Sample.key)]) := by
  refine ⟨by decide +kernel, fun hclean => ?_⟩
  have hvalues := hclean.reserved "x-fiducia-region" (Or.inr (Or.inr (by decide)))
  exact absurd hvalues (by decide +kernel)

/-! ## And back -/

/-- A response as it came: the status, the bytes of the body, and all values of every
header that is not hop-by-hop. -/
structure Transparent (status : StatusCode) (headers : HeaderMap) (chunks : List Bytes)
    (response : Response) : Prop where
  status : response.status = status
  body : response.body.bytes = chunks.flatten
  headers : ∀ name, isHopByHop name = false →
    response.headers.getAll name = headers.getAll name

section

variable {env : Env} {status : StatusCode} {headers : HeaderMap} {chunks : List Bytes}
  {ending : Ending} {response : Response}

/-- The first copy keeps the last value of a name. -/
theorem getAll_responseHeaders (headers : HeaderMap) (name : String) :
    (responseHeaders headers).getAll name =
      if isHopByHop name then [] else (headers.getAll name).getLast?.toList := by
  obtain ⟨entries⟩ := headers
  unfold responseHeaders
  induction entries using List.reverseRecOn with
  | nil => cases isHopByHop name <;> rfl
  | append_singleton entries e ih =>
    have hlast : (⟨entries ++ [e]⟩ : HeaderMap).getAll name =
        (⟨entries⟩ : HeaderMap).getAll name ++ if e.1 = name then [e.2] else [] :=
      HeaderMap.getAll_append ⟨entries⟩ e.1 e.2 name
    rw [List.foldl_append, hlast]
    dsimp only [List.foldl_cons, List.foldl_nil]
    by_cases hname : e.1 = name
    · by_cases hhop : isHopByHop e.1 = true
      · rw [if_pos hhop, ih, ← hname, if_pos hhop, if_pos hhop]
      · rw [if_neg hhop, HeaderMap.getAll_insert, if_pos hname, ← hname, if_neg hhop]
        simp
    · by_cases hhop : isHopByHop e.1 = true
      · rw [if_pos hhop, ih, if_neg hname, List.append_nil]
      · rw [if_neg hhop, HeaderMap.getAll_insert, if_neg hname, ih, if_neg hname,
          List.append_nil]

/-- The second copy keeps the first value of a name. -/
theorem getAll_firstValues (headers : HeaderMap) (name : String) :
    (firstValues headers).getAll name = (headers.getAll name).head?.toList := by
  obtain ⟨entries⟩ := headers
  unfold firstValues
  induction entries using List.reverseRecOn with
  | nil => rfl
  | append_singleton entries e ih =>
    have hlast : (⟨entries ++ [e]⟩ : HeaderMap).getAll name =
        (⟨entries⟩ : HeaderMap).getAll name ++ if e.1 = name then [e.2] else [] :=
      HeaderMap.getAll_append ⟨entries⟩ e.1 e.2 name
    rw [List.foldl_append, hlast]
    dsimp only [List.foldl_cons, List.foldl_nil]
    by_cases hname : e.1 = name
    · rw [HeaderMap.get_eq_head?, hname, ih, if_pos rfl]
      cases hvalues : (⟨entries⟩ : HeaderMap).getAll name with
      | nil => simp [HeaderMap.getAll_insert]
      | cons value values => simp [ih, hvalues]
    · rw [if_neg hname, List.append_nil, ← ih]
      split
      · rfl
      · rw [HeaderMap.getAll_insert, if_neg hname]

theorem classifyUpstreamResponse_served {body : Bytes}
    (h : classifyUpstreamResponse env status headers body = .served response) :
    response = { status, headers := firstValues headers, body := .full body } := by
  unfold classifyUpstreamResponse at h
  dsimp only at h
  split at h
  · exact absurd h (by simp)
  · cases hleader : jsonNotLeader env body with
    | some leader => exact absurd h (by simp [hleader])
    | none =>
      rw [hleader] at h
      exact (Upstream.served.inj h).symm

/-- **What is handed back**: the status and the bytes as they came, and of each header that
is not hop-by-hop the last value. -/
theorem readResponse_served (h : readResponse env status headers chunks ending =
    .served response) : response.status = status ∧ response.body.bytes = chunks.flatten ∧
      ∀ name, isHopByHop name = false →
        response.headers.getAll name = (headers.getAll name).getLast?.toList := by
  have hkept : ∀ name, isHopByHop name = false → (responseHeaders headers).getAll name =
      (headers.getAll name).getLast?.toList := by
    intro name hhop
    rw [getAll_responseHeaders, hhop]
    rfl
  rw [readResponse] at h
  split at h
  · obtain rfl := Upstream.served.inj h
    exact ⟨rfl, rfl, hkept⟩
  · cases hdrain : drainUpstreamBody [] chunks ending with
    | error upstream =>
      rw [hdrain] at h
      have hserved : upstream = .served response := h
      exact absurd (hserved ▸ hdrain) drainUpstreamBody_ne_served
    | ok body =>
      rw [hdrain] at h
      obtain rfl := classifyUpstreamResponse_served h
      refine ⟨rfl, drainUpstreamBody_ok hdrain, fun name hhop => ?_⟩
      rw [getAll_firstValues, hkept name hhop]
      cases (headers.getAll name).getLast? <;> rfl

end

/-- **When a response is handed back as it came**: if and only if no header that is not
hop-by-hop is repeated. -/
theorem transparent_iff {env : Env} {a : Attempt} {status : StatusCode} {headers : HeaderMap}
    {chunks : List Bytes} {ending : Ending} {response : Response}
    (h : outcome env a (.response status headers chunks ending) = .served response) :
    Transparent status headers chunks response ↔
      ∀ name, isHopByHop name = false → (headers.getAll name).length ≤ 1 := by
  have hserved : readResponse env status headers chunks ending = .served response := by
    unfold outcome at h
    split at h
    · exact absurd h (by simp)
    · exact absurd h (by simp)
    · exact h
  obtain ⟨hstatus, hbody, hheaders⟩ := readResponse_served hserved
  constructor
  · intro hsame name hhop
    rw [← hsame.headers name hhop, hheaders name hhop]
    cases (headers.getAll name).getLast? <;> simp
  · intro hsingle
    refine ⟨hstatus, hbody, fun name hhop => ?_⟩
    rw [hheaders name hhop]
    match hvalues : headers.getAll name with
    | [] => rfl
    | [value] => rfl
    | value :: value' :: values =>
      exact absurd (hsingle name hhop) (by simp [hvalues])

namespace Sample

/-- Two values for one header. -/
def cookies : HeaderMap :=
  ⟨[("set-cookie", ⟨utf8 "a=1", by decide⟩), ("set-cookie", ⟨utf8 "b=2", by decide⟩)]⟩

/-- A response with the second of them. -/
def lastCookie : Response :=
  { status := .ok, headers := ⟨[("set-cookie", ⟨utf8 "b=2", by decide⟩)]⟩
    body := .full (utf8 "done") }

end Sample

/-- A response with one value for its only header. -/
theorem transparent_single : Transparent .ok ⟨[("etag", Sample.key)]⟩ [utf8 "done"]
    { status := .ok, headers := ⟨[("etag", Sample.key)]⟩, body := .full (utf8 "done") } := by
  have hserved : outcome Reference.env (Sample.read "accept")
      (.response .ok ⟨[("etag", Sample.key)]⟩ [utf8 "done"] .eof) = .served
        { status := .ok, headers := ⟨[("etag", Sample.key)]⟩, body := .full (utf8 "done") } := by
    decide +kernel
  refine (transparent_iff hserved).2 fun name _ => ?_
  exact (List.length_map _).trans_le (List.length_filter_le _ _)

/-- **Of a repeated header only the last value comes back.** -/
theorem not_transparent :
    outcome Reference.env (Sample.read "accept")
        (.response .ok Sample.cookies [utf8 "done"] .eof) = .served Sample.lastCookie ∧
      ¬Transparent .ok Sample.cookies [utf8 "done"] Sample.lastCookie := by
  refine ⟨by decide +kernel, fun hsame => ?_⟩
  exact absurd (hsame.headers "set-cookie" (by decide)) (by decide +kernel)

end Proxy

end LoadBalance
