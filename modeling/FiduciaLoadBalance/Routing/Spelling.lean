import FiduciaLoadBalance.Reference
import FiduciaLoadBalance.Routing.Endpoints
import FiduciaLoadBalance.Routing.Query

/-!
# The shard does not depend on how a key is spelled

A key may be written in many ways: any byte of it may be escaped, with digits of either
case, and in a query a space may be a `+`.

* `percentDecodeQuery_spelling`, `percentDecodePath_spelling` — every spelling of a key
  decodes to the key.
* `Carries` — a request target carries a key: spelled in its query, or spelled as the
  identifying segment of its path.
* `Carries.routedKey` — the key that it names at that endpoint is the key itself.
* `spelling_irrelevant` — so two spellings of one key give one routing key.
-/

namespace LoadBalance

open Http Text

/-! ## Spellings of a key -/

/-- A spelling in a query value: `%`, `+` and `&` are escaped, a space may be a `+`. -/
def QuerySpelling (spelled key : String) : Prop :=
  Spelling [0x25, 0x2B, 0x26] true (utf8 spelled) (utf8 key)

/-- A spelling in a path segment: `%`, `/` and `?` are escaped. -/
def PathSpelling (spelled key : String) : Prop :=
  Spelling [0x25, 0x2F, 0x3F] false (utf8 spelled) (utf8 key)

/-- **Every spelling in a query** decodes to the key, -/
theorem percentDecodeQuery_spelling {spelled key : String} (h : QuerySpelling spelled key) :
    percentDecodeQuery spelled = key := by
  rw [percentDecodeQuery, percentDecode, percentDecodeBytes_eq,
    unescape_of_spelling (by decide) (by decide) h, fromUtf8Lossy_utf8]

/-- **and every spelling in a path.** -/
theorem percentDecodePath_spelling {spelled key : String} (h : PathSpelling spelled key) :
    percentDecodePath spelled = key := by
  rw [percentDecodePath, percentDecode, percentDecodeBytes_eq,
    unescape_of_spelling (by decide) (by decide) h, fromUtf8Lossy_utf8]

/-- A literal plus is decoded to a space in queries only. -/
theorem percentDecodeBytes_plus (plusAsSpace : Bool) (front rest : Bytes) :
    percentDecodeBytes plusAsSpace (front ++ 0x2B :: rest) =
      percentDecodeBytes plusAsSpace front ++
        (if plusAsSpace then 0x20 else 0x2B) :: percentDecodeBytes plusAsSpace rest := by
  have hplus : readPlus plusAsSpace 0x2B = if plusAsSpace then 0x20 else 0x2B := by
    cases plusAsSpace <;> rfl
  have hinert : Inert (if plusAsSpace then 0x20 else 0x2B) := by
    cases plusAsSpace
    · exact inert_plus
    · exact inert_space
  rw [percentDecodeBytes_eq, percentDecodeBytes_eq, percentDecodeBytes_eq, List.map_append,
    List.map_cons, hplus, unescape_append_cons hinert]

/-! ## Separators -/

/-- An ASCII character of a text is a byte of its encoding. -/
theorem byte_mem_utf8 {c : Char} {s : String} (hc : c.toNat < 128) (h : c ∈ s.toList) :
    UInt8.ofNat c.toNat ∈ utf8 s := by
  have hle : c.val.toNat ≤ 0x7f := Nat.le_of_lt_succ hc
  refine List.mem_flatMap.2 ⟨c, h, ?_⟩
  rw [String.utf8EncodeChar, if_pos hle, List.mem_singleton]
  rfl

theorem QuerySpelling.notMem_amp {spelled key : String} (h : QuerySpelling spelled key) :
    '&' ∉ spelled.toList := by
  intro hmem
  have hbyte : (0x26 : UInt8) ∈ utf8 spelled := byte_mem_utf8 (by decide) hmem
  exact notMem_of_spelling (by decide) ⟨by decide, by decide⟩ (by decide) h hbyte

theorem PathSpelling.notMem_slash {spelled key : String} (h : PathSpelling spelled key) :
    '/' ∉ spelled.toList := by
  intro hmem
  have hbyte : (0x2F : UInt8) ∈ utf8 spelled := byte_mem_utf8 (by decide) hmem
  exact notMem_of_spelling (by decide) ⟨by decide, by decide⟩ (by decide) h hbyte

/-- Only the empty key is spelled by the empty text. -/
theorem PathSpelling.ne_empty {spelled key : String} (h : PathSpelling spelled key)
    (hkey : key ≠ "") : spelled ≠ "" := by
  rintro rfl
  rw [PathSpelling, utf8_empty] at h
  have hnil : utf8 key = utf8 "" := by
    cases hbytes : utf8 key with
    | nil => rfl
    | cons b bytes =>
      rw [hbytes] at h
      cases h
  exact hkey (utf8_injective hnil)

/-- A text without slashes is one segment. -/
theorem segments_single {s : String} (hne : s ≠ "") (hslash : '/' ∉ s.toList) :
    segments s = [s] := by
  rw [segments, split, List.splitOn_eq_singleton hslash, List.map_singleton,
    String.ofList_toList, List.filter_cons_of_pos (by simpa using hne), List.filter_nil]

/-- What follows a key: nothing, or more behind a separator. -/
def Ends (separator rest : String) : Prop := rest = "" ∨ ∃ more, rest = separator ++ more

theorem segments_spelled {spelled rest : String} (hne : spelled ≠ "")
    (hslash : '/' ∉ spelled.toList) (hrest : Ends "/" rest) :
    segments (spelled ++ rest) = spelled :: segments rest := by
  rcases hrest with rfl | ⟨more, rfl⟩
  · have hempty : segments "" = [] := rfl
    rw [String.append_empty, segments_single hne hslash, hempty]
  · have hmore : segments ("/" ++ more) = segments more := by
      have h := segments_append "" more
      rwa [String.empty_append, show segments "" = [] from rfl, List.nil_append] at h
    rw [← String.append_assoc, segments_append, segments_single hne hslash, hmore,
      List.singleton_append]

/-- The first parameter of a query. -/
theorem queryParam_first {uri : Uri} {name value rest : String} (hname : '=' ∉ name.toList)
    (hamp : '&' ∉ (name ++ "=" ++ value).toList) (hrest : Ends "&" rest)
    (hquery : uri.query = some (name ++ "=" ++ value ++ rest)) :
    queryParam uri name = some (percentDecodeQuery value) := by
  rcases hrest with rfl | ⟨more, rfl⟩
  · rw [String.append_empty] at hquery
    exact queryParam_single hname hamp hquery
  · have hsplit : split '&' (name ++ "=" ++ value ++ ("&" ++ more)) =
        (name ++ "=" ++ value) :: split '&' more := by
      have h := split_append '&' (name ++ "=" ++ value) more
      have hone : split '&' (name ++ "=" ++ value) = [name ++ "=" ++ value] := by
        rw [split, List.splitOn_eq_singleton hamp, List.map_singleton, String.ofList_toList]
      rw [← String.append_assoc]
      rwa [hone, List.singleton_append] at h
    rw [queryParam, hquery, Option.bind_some, hsplit, List.findSome?_cons, pairValue_self hname]

/-! ## Where a request target carries a key -/

/-- The texts in front of an identifying segment. -/
inductive Identifies : String → List String → Prop
  | rateLimit {tenant : String} (hne : tenant ≠ "") (hslash : '/' ∉ tenant.toList) :
      Identifies ("/v1/rate-limit" ++ "/" ++ tenant) ["v1", "rate-limit", tenant]
  | ratelimit {tenant : String} (hne : tenant ≠ "") (hslash : '/' ∉ tenant.toList) :
      Identifies ("/v1/ratelimit" ++ "/" ++ tenant) ["v1", "ratelimit", tenant]
  | cron : Identifies "/v1/cron/schedules" ["v1", "cron", "schedules"]
  | elections : Identifies "/v1/elections" ["v1", "elections"]

/-- A request target carries a key: spelled as `key=` in the query of `/v1/kv` or
`/v1/idempotency`, or spelled as the identifying segment of a path. -/
inductive Carries (uri : Uri) (key : String) : Prop
  | query {spelled rest : String} (hspelled : QuerySpelling spelled key) (hrest : Ends "&" rest)
      (hpath : uri.path = "/v1/kv" ∨ uri.path = "/v1/idempotency")
      (hquery : uri.query = some ("key=" ++ spelled ++ rest))
  | path {pre spelled rest : String} {before : List String} (hspelled : PathSpelling spelled key)
      (hrest : Ends "/" rest) (hpre : Identifies pre before)
      (hpath : uri.path = pre ++ "/" ++ spelled ++ rest)

theorem Identifies.segments_eq {pre : String} {before : List String} (h : Identifies pre before) :
    segments pre = before := by
  cases h with
  | rateLimit hne hslash =>
    have hfront : segments "/v1/rate-limit" = ["v1", "rate-limit"] := by decide +kernel
    rw [segments_append, segments_single hne hslash, hfront]
    rfl
  | ratelimit hne hslash =>
    have hfront : segments "/v1/ratelimit" = ["v1", "ratelimit"] := by decide +kernel
    rw [segments_append, segments_single hne hslash, hfront]
    rfl
  | cron => decide +kernel
  | elections => decide +kernel

theorem Identifies.endpoint {pre : String} {before : List String} (h : Identifies pre before) :
    PathEndpoint before := by
  cases h with
  | rateLimit => exact .rateLimit _
  | ratelimit => exact .ratelimit _
  | cron => exact .cron
  | elections => exact .elections

/-- **The key a request carries is the key it names**, however it is spelled. -/
theorem Carries.routedKey {env : Env} {uri : Uri} {key : String} (hkey : key ≠ "")
    (h : Carries uri key) (body : Bytes) : RoutedKey env uri body key := by
  cases h with
  | @query spelled rest hspelled hrest hpath hquery =>
    have hkv : segments "/v1/kv" = ["v1", "kv"] := by decide +kernel
    have hidempotency : segments "/v1/idempotency" = ["v1", "idempotency"] := by decide +kernel
    have hamp : '&' ∉ ("key" ++ "=" ++ spelled).toList := by
      rw [String.toList_append, List.mem_append, not_or]
      exact ⟨by decide, hspelled.notMem_amp⟩
    have hparam : queryParam uri "key" = some key := by
      rw [queryParam_first (by decide) hamp hrest hquery, percentDecodeQuery_spelling hspelled]
    rcases hpath with hpath | hpath
    · exact .query .kv (hpath ▸ hkv) hparam
    · exact .query .idempotency (hpath ▸ hidempotency) hparam
  | @path pre spelled rest before hspelled hrest hpre hpath =>
    have hsegments : segments uri.path = before ++ spelled :: segments rest := by
      rw [hpath, String.append_assoc, segments_append, hpre.segments_eq,
        segments_spelled (hspelled.ne_empty hkey) hspelled.notMem_slash hrest]
    rw [← percentDecodePath_spelling hspelled]
    exact .path hpre.endpoint hsegments

/-! ## Routing keys -/

/-- **The shard does not depend on how a key is spelled.**  Every spelling decodes to the
key; a literal plus is decoded to a space in queries only; and requests that carry one
key, however and wherever they spell it, have one routing key in every org. -/
theorem spelling_irrelevant :
    (∀ spelled key, QuerySpelling spelled key → percentDecodeQuery spelled = key) ∧
    (∀ spelled key, PathSpelling spelled key → percentDecodePath spelled = key) ∧
    (∀ front rest : Bytes,
      percentDecodeBytes true (front ++ 0x2B :: rest) =
        percentDecodeBytes true front ++ 0x20 :: percentDecodeBytes true rest ∧
      percentDecodeBytes false (front ++ 0x2B :: rest) =
        percentDecodeBytes false front ++ 0x2B :: percentDecodeBytes false rest) ∧
    ∀ (env : Env) (org : Option String) (key : String) (uri uri' : Uri) (body body' : Bytes),
      key ≠ "" → Carries uri key → Carries uri' key →
        routingKeyWithBody env uri body org = some (scopedKey env org key) ∧
        routingKeyWithBody env uri' body' org = routingKeyWithBody env uri body org := by
  refine ⟨?_, ?_, ?_, ?_⟩
  · intro spelled key h
    exact percentDecodeQuery_spelling h
  · intro spelled key h
    exact percentDecodePath_spelling h
  · intro front rest
    exact ⟨percentDecodeBytes_plus true front rest, percentDecodeBytes_plus false front rest⟩
  · intro env org key uri uri' body body' hkey h h'
    have hone : RoutedKey env uri body key := h.routedKey hkey body
    have hother : RoutedKey env uri' body' key := h'.routedKey hkey body'
    refine ⟨routingKeyWithBody_of_routedKey hone org, ?_⟩
    rw [routingKeyWithBody_of_routedKey hother, routingKeyWithBody_of_routedKey hone]

namespace Reference

/-- `/v1/elections/%61%20b/campaign`. -/
def electionUri : Uri := ⟨none, none, "/v1/elections/%61%20b/campaign", none, by decide⟩

theorem carries_kv : Carries (kvUri "key=a+b" (by decide)) "a b" := by
  have hspelled : utf8 "a+b" = [0x61, 0x2B, 0x62] := by decide +kernel
  have hkey : utf8 "a b" = [0x61, 0x20, 0x62] := by decide +kernel
  have hspelling : QuerySpelling "a+b" "a b" := by
    rw [QuerySpelling, hspelled, hkey]
    exact .raw (by decide) (.plus rfl (.raw (by decide) .nil))
  exact .query hspelling (Or.inl rfl) (Or.inl (by decide +kernel)) (by decide +kernel)

theorem carries_election : Carries electionUri "a b" := by
  have hspelled : utf8 "%61%20b" = [0x25, 0x36, 0x31, 0x25, 0x32, 0x30, 0x62] := by
    decide +kernel
  have hkey : utf8 "a b" = [0x61, 0x20, 0x62] := by decide +kernel
  have hspelling : PathSpelling "%61%20b" "a b" := by
    rw [PathSpelling, hspelled, hkey]
    exact .escaped (by decide) (.escaped (by decide) (.raw (by decide) .nil))
  exact .path hspelling (Or.inr ⟨"campaign", rfl⟩) .elections (by decide +kernel)

end Reference

theorem spelling_irrelevant_election :
    routingKeyWithBody Reference.env Reference.electionUri [] (some "o") =
      routingKeyWithBody Reference.env (Reference.kvUri "key=a+b" (by decide)) [] (some "o") :=
  (spelling_irrelevant.2.2.2 Reference.env (some "o") "a b" _ _ [] [] (by decide)
    Reference.carries_kv Reference.carries_election).2

end LoadBalance
