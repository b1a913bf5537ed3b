import FiduciaLoadBalance.Auth.Authenticate
import FiduciaLoadBalance.Text.Number

/-!
# How authentication is configured

Everything is read from the variables of the process, and everything has a default.  What is
read amiss is taken as if it were not there.

* `Settings.fromEnv` — what is read;
* `Settings.WellFormed` — what can come of it;
* `Settings.toVars` — the variables that say it again;
* `fromEnv_range_iff` — these are all settings there are, and no others.
-/

namespace LoadBalance

open Text

/-- The variables of the process that are text. -/
abbrev Variables : Type := String → Option String

/-- A process is handed its variables as strings that end at the first NUL. -/
def Variables.NulFree (vars : Variables) : Prop :=
  ∀ name value, vars name = some value → Char.ofNat 0 ∉ value.toList

/-! ## Reading variables -/

/-- What a variable holds, unless it is blank. -/
def envValue (vars : Variables) (name : String) : Option String :=
  ((vars name).map trim).filter (· ≠ "")

def envBoolOpt (vars : Variables) (name : String) : Option Bool :=
  (envValue vars name).bind fun value =>
    if value ∈ ["1", "true", "TRUE", "yes", "YES", "on", "ON"] then some true
    else if value ∈ ["0", "false", "FALSE", "no", "NO", "off", "OFF"] then some false
    else none

def envBool (vars : Variables) (name : String) (default : Bool) : Bool :=
  (envBoolOpt vars name).getD default

/-- An unsigned number, if a variable holds one that fits. -/
def uintEnv (width : ℕ) (vars : Variables) (name : String) (default : ℕ) : ℕ :=
  ((envValue vars name).bind (parseUint width)).getD default

def u64Env : Variables → String → ℕ → ℕ := uintEnv 64

def usizeEnv : Variables → String → ℕ → ℕ := uintEnv 64

/-- `Duration::from_secs`, in nanoseconds. -/
def fromSecs (secs : ℕ) : ℕ := secs * 1000000000

/-- `Duration::from_millis`, in nanoseconds. -/
def fromMillis (millis : ℕ) : ℕ := millis * 1000000

def durationEnv (vars : Variables) (name : String) (defaultSecs : ℕ) : ℕ :=
  fromSecs (u64Env vars name defaultSecs)

def normalizeUrl (url : String) : String := trimEndMatches (· == '/') (trim url)

namespace Auth

/-! ## The settings -/

def defaultAuthUrl : String := "http://fiducia-auth.fiducia.svc.cluster.local:8097"

def defaultRevocationCheckUrl : String :=
  "http://fiducia-revocation-admin.fiducia.svc.cluster.local:8098/v1/revocations/check"

def defaultCacheTtlSecs : ℕ := 60

def defaultNegativeCacheTtlSecs : ℕ := 5

def defaultJwksTtlSecs : ℕ := 10 * 60

def defaultHttpTimeoutSecs : ℕ := 2

def defaultRevocationFreshnessSecs : ℕ := 30

def defaultRevocationCapacity : ℕ := 65536

def defaultRevocationTimeoutMillis : ℕ := 2000

def defaultJwtIssuer : String := "fiducia-auth"

def defaultJwtAudience : String := "fiducia-api"

def minReaderSecretBytes : ℕ := 32

/-- The whole of the configuration: what the decisions depend on, and where to ask. -/
structure Settings extends AuthConfig where
  introspectUrl : String
  introspectSecret : Option String
  jwksUrl : String
  jwksTtl : ℕ
  httpTimeout : ℕ
  revocationCheckUrl : String
  revocationReaderSecret : Option String
  revocationFreshnessSecs : ℕ
  revocationCapacity : ℕ
  revocationRefreshTimeout : ℕ

def authRequiredDecision (explicit : Option Bool) (isDebugBuild : Bool) : Bool :=
  explicit.getD !isDebugBuild

/-- Is this long enough, and without blanks? -/
def validReaderSecret (secret : String) : Bool :=
  minReaderSecretBytes ≤ (utf8 secret).length &&
    !(secret.toList.any fun c => isControl c || isWhitespace c)

def Settings.fromEnv (vars : Variables) (debugAssertions : Bool) : Settings :=
  let authUrl := normalizeUrl ((envValue vars "FIDUCIA_AUTH_URL").getD defaultAuthUrl)
  { required := authRequiredDecision (envBoolOpt vars "FIDUCIA_AUTH_REQUIRED") debugAssertions
    allowApiKeys := envBool vars "FIDUCIA_AUTH_ALLOW_API_KEYS" true
    allowJwts := envBool vars "FIDUCIA_AUTH_ALLOW_JWTS" true
    introspectUrl :=
      (envValue vars "FIDUCIA_AUTH_INTROSPECT_URL").getD (authUrl ++ "/v1/introspect")
    introspectSecret := envValue vars "FIDUCIA_INTROSPECT_SECRET"
    jwksUrl := (envValue vars "FIDUCIA_AUTH_JWKS_URL").getD (authUrl ++ "/.well-known/jwks.json")
    jwtIssuer := (envValue vars "FIDUCIA_JWT_ISSUER").getD defaultJwtIssuer
    jwtAudience := (envValue vars "FIDUCIA_JWT_AUDIENCE").getD defaultJwtAudience
    cacheTtl := durationEnv vars "FIDUCIA_AUTH_CACHE_TTL_SECS" defaultCacheTtlSecs
    negativeCacheTtl :=
      durationEnv vars "FIDUCIA_AUTH_NEGATIVE_CACHE_TTL_SECS" defaultNegativeCacheTtlSecs
    jwksTtl := durationEnv vars "FIDUCIA_AUTH_JWKS_TTL_SECS" defaultJwksTtlSecs
    httpTimeout := durationEnv vars "FIDUCIA_AUTH_HTTP_TIMEOUT_SECS" defaultHttpTimeoutSecs
    revocationCheckUrl :=
      (envValue vars "FIDUCIA_REVOCATION_CHECK_URL").getD defaultRevocationCheckUrl
    revocationReaderSecret :=
      (envValue vars "FIDUCIA_REVOCATION_READER_SECRET").filter validReaderSecret
    revocationFreshnessSecs := max
      (u64Env vars "FIDUCIA_REVOCATION_CACHE_FRESHNESS_SECS" defaultRevocationFreshnessSecs) 1
    revocationCapacity :=
      max (usizeEnv vars "FIDUCIA_REVOCATION_CACHE_CAPACITY" defaultRevocationCapacity) 1
    revocationRefreshTimeout := fromMillis (max
      (u64Env vars "FIDUCIA_REVOCATION_TIMEOUT_MILLIS" defaultRevocationTimeoutMillis) 1) }

end Auth

/-! ## What variables can say -/

/-- What can be read from a variable. -/
def IsValue (value : String) : Prop :=
  trim value = value ∧ value ≠ "" ∧ Char.ofNat 0 ∉ value.toList

instance (value : String) : Decidable (IsValue value) :=
  inferInstanceAs (Decidable (_ ∧ _ ∧ _))

section

variable {vars : Variables} {name value : String}

theorem isValue_of_envValue (hvars : vars.NulFree) (h : envValue vars name = some value) :
    IsValue value := by
  obtain ⟨hvalue, hne⟩ := Option.filter_eq_some_iff.1 h
  obtain ⟨raw, hraw, rfl⟩ := Option.map_eq_some_iff.1 hvalue
  exact ⟨trimMatches_idem _ _, by simpa using hne,
    fun hnul => hvars name raw hraw (mem_of_mem_trimMatches hnul)⟩

theorem envValue_of_isValue (h : vars name = some value) (hvalue : IsValue value) :
    envValue vars name = some value := by
  rw [envValue, h, Option.map_some, hvalue.1]
  simp [hvalue.2.1]

theorem envValue_of_none (h : vars name = none) : envValue vars name = none := by
  rw [envValue, h]
  rfl

theorem isValue_getD (hvars : vars.NulFree) {default : String} (hdefault : IsValue default) :
    IsValue ((envValue vars name).getD default) := by
  cases h : envValue vars name with
  | none => exact hdefault
  | some value => exact isValue_of_envValue hvars h

theorem isValue_toString (n : ℕ) : IsValue (toString n) := by
  refine ⟨trim_toString n, fun hempty => ?_, fun hnul => ?_⟩
  · have hdigits := digitsOf_toString n
    rw [hempty] at hdigits
    exact Nat.toDigits_ne_nil hdigits.symm
  · exact absurd (isDigit_of_mem_toString hnul) (by decide)

theorem uintEnv_lt (width : ℕ) {default : ℕ} (hdefault : default < 2 ^ width) :
    uintEnv width vars name default < 2 ^ width := by
  unfold uintEnv
  cases h : (envValue vars name).bind (parseUint width) with
  | none => exact hdefault
  | some n =>
    obtain ⟨value, -, hvalue⟩ := Option.bind_eq_some_iff.1 h
    exact parseUint_lt hvalue

/-- A number that fits is read from the variable that says it. -/
theorem uintEnv_toString {width n : ℕ} (h : vars name = some (toString n)) (hn : n < 2 ^ width)
    (default : ℕ) : uintEnv width vars name default = n := by
  rw [uintEnv, envValue_of_isValue h (isValue_toString n), Option.bind_some,
    parseUint_toString hn, Option.getD_some]

/-- And so is a truth value. -/
theorem envBoolOpt_toString {b : Bool} (h : vars name = some (toString b)) :
    envBoolOpt vars name = some b := by
  cases b with
  | true =>
    rw [envBoolOpt, envValue_of_isValue h (by decide)]
    rfl
  | false =>
    rw [envBoolOpt, envValue_of_isValue h (by decide)]
    rfl

end

/-! ## Base addresses -/

/-- Nothing is trimmed where both ends are no white space. -/
theorem trim_of_ends {s : String} (hhead : ∀ c, s.toList.head? = some c → isWhitespace c = false)
    (hlast : ∀ c, s.toList.getLast? = some c → isWhitespace c = false) : trim s = s := by
  have hstart : s.toList.dropWhile isWhitespace = s.toList := by
    cases hl : s.toList with
    | nil => rfl
    | cons c l => exact List.dropWhile_cons_of_neg (by simp [hhead c (by rw [hl]; rfl)])
  have hend : s.toList.rdropWhile isWhitespace = s.toList :=
    List.rdropWhile_eq_self_iff.2 fun hne => by
      simp [hlast _ (List.getLast?_eq_some_getLast hne)]
  refine String.toList_injective ?_
  rw [trim, toList_trimMatches, hstart, hend]

/-- A base address does not start with white space. -/
theorem head_normalizeUrl {url : String} {c : Char}
    (h : (normalizeUrl url).toList.head? = some c) : isWhitespace c = false := by
  have hpre : (normalizeUrl url).toList <+: url.toList.dropWhile isWhitespace := by
    refine List.IsPrefix.trans ?_ (List.rdropWhile_prefix isWhitespace _)
    rw [normalizeUrl, trimEndMatches, trim, toList_trimMatches, String.toList_ofList]
    exact List.rdropWhile_prefix (· == '/') _
  obtain ⟨rest, hrest⟩ := hpre
  obtain ⟨l, hl⟩ : ∃ l, (normalizeUrl url).toList = c :: l := List.head?_eq_some_iff.1 h
  have hne : url.toList.dropWhile isWhitespace ≠ [] := by simp [← hrest, hl]
  have hhead := List.head_dropWhile_not isWhitespace hne
  simpa [← hrest, hl] using hhead

theorem mem_of_mem_normalizeUrl {url : String} {c : Char} (h : c ∈ (normalizeUrl url).toList) :
    c ∈ url.toList := by
  rw [normalizeUrl, trimEndMatches, String.toList_ofList] at h
  exact mem_of_mem_trimMatches ((List.rdropWhile_prefix (· == '/') _).subset h)

theorem isValue_normalizeUrl_append {url path : String} (hurl : IsValue url) (hpath : IsValue path)
    (hhead : ∀ c, path.toList.head? = some c → isWhitespace c = false)
    (hlast : ∀ c, path.toList.getLast? = some c → isWhitespace c = false) :
    IsValue (normalizeUrl url ++ path) := by
  have hne : path.toList ≠ [] := mt String.toList_eq_nil_iff.1 hpath.2.1
  refine ⟨trim_of_ends (fun c hc => ?_) fun c hc => ?_, ?_, ?_⟩
  · rw [String.toList_append, List.head?_append] at hc
    rcases Option.or_eq_some_iff.1 hc with hc | ⟨-, hc⟩
    · exact head_normalizeUrl hc
    · exact hhead c hc
  · rw [String.toList_append, List.getLast?_append_of_ne_nil _ hne] at hc
    exact hlast c hc
  · intro hempty
    exact hne (List.append_eq_nil_iff.1 (by rw [← String.toList_append, hempty]; rfl)).2
  · intro hnul
    rw [String.toList_append, List.mem_append] at hnul
    rcases hnul with hnul | hnul
    · exact hurl.2.2 (mem_of_mem_normalizeUrl hnul)
    · exact hpath.2.2 hnul

/-! ## What settings there are -/

namespace Auth

/-- A secret that is asked under has neither white space nor control characters in it. -/
theorem isValue_of_validReaderSecret {secret : String} (h : validReaderSecret secret = true) :
    IsValue secret := by
  obtain ⟨hlength, hnone⟩ := Bool.and_eq_true_iff.1 h
  have hclear : ∀ c ∈ secret.toList, isWhitespace c = false := by
    intro c hc
    by_contra hspace
    have hany : (secret.toList.any fun c => isControl c || isWhitespace c) = true :=
      List.any_eq_true.2 ⟨c, hc, by simp [hspace]⟩
    rw [hany] at hnone
    exact absurd hnone (by decide)
  refine ⟨trimMatches_of_forall_not hclear, ?_, ?_⟩
  · rintro rfl
    exact absurd hlength (by decide)
  · intro hnul
    have hany : (secret.toList.any fun c => isControl c || isWhitespace c) = true :=
      List.any_eq_true.2 ⟨_, hnul, by decide⟩
    rw [hany] at hnone
    exact absurd hnone (by decide)

namespace Settings

/-- Addresses and names are such as are read from variables; numbers fit, and a window, a cache
or a time limit is never nothing at all; and a secret to ask the authority under is a good
one. -/
structure WellFormed (s : Settings) : Prop where
  introspectUrl : IsValue s.introspectUrl
  introspectSecret : ∀ secret, s.introspectSecret = some secret → IsValue secret
  jwksUrl : IsValue s.jwksUrl
  jwtIssuer : IsValue s.jwtIssuer
  jwtAudience : IsValue s.jwtAudience
  cacheTtl : ∃ secs < 2 ^ 64, s.cacheTtl = fromSecs secs
  negativeCacheTtl : ∃ secs < 2 ^ 64, s.negativeCacheTtl = fromSecs secs
  jwksTtl : ∃ secs < 2 ^ 64, s.jwksTtl = fromSecs secs
  httpTimeout : ∃ secs < 2 ^ 64, s.httpTimeout = fromSecs secs
  revocationCheckUrl : IsValue s.revocationCheckUrl
  revocationReaderSecret :
    ∀ secret, s.revocationReaderSecret = some secret → validReaderSecret secret = true
  revocationFreshnessSecs : 1 ≤ s.revocationFreshnessSecs ∧ s.revocationFreshnessSecs < 2 ^ 64
  revocationCapacity : 1 ≤ s.revocationCapacity ∧ s.revocationCapacity < 2 ^ 64
  revocationRefreshTimeout :
    ∃ millis, 1 ≤ millis ∧ millis < 2 ^ 64 ∧ s.revocationRefreshTimeout = fromMillis millis

theorem one_le_revocationFreshnessSecs (vars : Variables) (debugAssertions : Bool) :
    1 ≤ (fromEnv vars debugAssertions).revocationFreshnessSecs :=
  le_max_right _ _

/-- Whatever a process is told, the settings are well formed. -/
theorem wellFormed_fromEnv {vars : Variables} (hvars : vars.NulFree) (debugAssertions : Bool) :
    (fromEnv vars debugAssertions).WellFormed where
  introspectUrl := isValue_getD hvars (isValue_normalizeUrl_append
    (isValue_getD hvars (by decide)) (by decide)
    (by intro c hc; cases hc; rfl) (by intro c hc; cases hc; rfl))
  introspectSecret _ h := isValue_of_envValue hvars h
  jwksUrl := isValue_getD hvars (isValue_normalizeUrl_append
    (isValue_getD hvars (by decide)) (by decide)
    (by intro c hc; cases hc; rfl) (by intro c hc; cases hc; rfl))
  jwtIssuer := isValue_getD hvars (by decide)
  jwtAudience := isValue_getD hvars (by decide)
  cacheTtl := ⟨_, uintEnv_lt 64 (by decide), rfl⟩
  negativeCacheTtl := ⟨_, uintEnv_lt 64 (by decide), rfl⟩
  jwksTtl := ⟨_, uintEnv_lt 64 (by decide), rfl⟩
  httpTimeout := ⟨_, uintEnv_lt 64 (by decide), rfl⟩
  revocationCheckUrl := isValue_getD hvars (by decide)
  revocationReaderSecret _ h := (Option.filter_eq_some_iff.1 h).2
  revocationFreshnessSecs :=
    ⟨one_le_revocationFreshnessSecs _ _, max_lt (uintEnv_lt 64 (by decide)) (by decide)⟩
  revocationCapacity := ⟨le_max_right _ _, max_lt (uintEnv_lt 64 (by decide)) (by decide)⟩
  revocationRefreshTimeout :=
    ⟨_, le_max_right _ _, max_lt (uintEnv_lt 64 (by decide)) (by decide), rfl⟩

/-- What each variable has to say for these settings. -/
def entries (s : Settings) : List (String × Option String) :=
  [("FIDUCIA_AUTH_REQUIRED", some (toString s.required)),
    ("FIDUCIA_AUTH_ALLOW_API_KEYS", some (toString s.allowApiKeys)),
    ("FIDUCIA_AUTH_ALLOW_JWTS", some (toString s.allowJwts)),
    ("FIDUCIA_AUTH_INTROSPECT_URL", some s.introspectUrl),
    ("FIDUCIA_INTROSPECT_SECRET", s.introspectSecret),
    ("FIDUCIA_AUTH_JWKS_URL", some s.jwksUrl),
    ("FIDUCIA_JWT_ISSUER", some s.jwtIssuer),
    ("FIDUCIA_JWT_AUDIENCE", some s.jwtAudience),
    ("FIDUCIA_AUTH_CACHE_TTL_SECS", some (toString (s.cacheTtl / 1000000000))),
    ("FIDUCIA_AUTH_NEGATIVE_CACHE_TTL_SECS", some (toString (s.negativeCacheTtl / 1000000000))),
    ("FIDUCIA_AUTH_JWKS_TTL_SECS", some (toString (s.jwksTtl / 1000000000))),
    ("FIDUCIA_AUTH_HTTP_TIMEOUT_SECS", some (toString (s.httpTimeout / 1000000000))),
    ("FIDUCIA_REVOCATION_CHECK_URL", some s.revocationCheckUrl),
    ("FIDUCIA_REVOCATION_READER_SECRET", s.revocationReaderSecret),
    ("FIDUCIA_REVOCATION_CACHE_FRESHNESS_SECS", some (toString s.revocationFreshnessSecs)),
    ("FIDUCIA_REVOCATION_CACHE_CAPACITY", some (toString s.revocationCapacity)),
    ("FIDUCIA_REVOCATION_TIMEOUT_MILLIS",
      some (toString (s.revocationRefreshTimeout / 1000000)))]

/-- The variables that say these settings. -/
def toVars (s : Settings) : Variables := fun name => (s.entries.lookup name).join

section

variable {vars : Variables} {name : String} {s : Settings}

theorem durationEnv_eq {duration : ℕ} (h : vars name = some (toString (duration / 1000000000)))
    (hduration : ∃ secs < 2 ^ 64, duration = fromSecs secs) (default : ℕ) :
    durationEnv vars name default = duration := by
  obtain ⟨secs, hsecs, rfl⟩ := hduration
  rw [fromSecs, Nat.mul_div_cancel secs (by decide)] at h
  rw [durationEnv, u64Env, uintEnv_toString h hsecs]

theorem getD_envValue {value : String} (h : vars name = some value) (hvalue : IsValue value)
    (default : String) : (envValue vars name).getD default = value := by
  rw [envValue_of_isValue h hvalue, Option.getD_some]

theorem envValue_eq {value : Option String} (h : vars name = value)
    (hvalue : ∀ text, value = some text → IsValue text) : envValue vars name = value := by
  cases hv : value with
  | none => exact envValue_of_none (h.trans hv)
  | some text => exact envValue_of_isValue (h.trans hv) (hvalue text hv)

/-- Well-formed settings are read back from the variables that say them. -/
theorem fromEnv_toVars (hs : s.WellFormed) (debugAssertions : Bool) :
    fromEnv s.toVars debugAssertions = s := by
  obtain ⟨millis, hpos, hlt, hmillis⟩ := hs.revocationRefreshTimeout
  have hrequired : envBoolOpt s.toVars "FIDUCIA_AUTH_REQUIRED" = some s.required :=
    envBoolOpt_toString rfl
  have hapiKeys : envBoolOpt s.toVars "FIDUCIA_AUTH_ALLOW_API_KEYS" = some s.allowApiKeys :=
    envBoolOpt_toString rfl
  have hjwts : envBoolOpt s.toVars "FIDUCIA_AUTH_ALLOW_JWTS" = some s.allowJwts :=
    envBoolOpt_toString rfl
  have hsecret : envValue s.toVars "FIDUCIA_INTROSPECT_SECRET" = s.introspectSecret :=
    envValue_eq rfl hs.introspectSecret
  have hreader : (envValue s.toVars "FIDUCIA_REVOCATION_READER_SECRET").filter validReaderSecret =
      s.revocationReaderSecret := by
    have hread : envValue s.toVars "FIDUCIA_REVOCATION_READER_SECRET" = s.revocationReaderSecret :=
      envValue_eq rfl fun secret h =>
        isValue_of_validReaderSecret (hs.revocationReaderSecret secret h)
    rw [hread]
    cases hs' : s.revocationReaderSecret with
    | none => rfl
    | some secret => exact Option.filter_some_pos (hs.revocationReaderSecret secret hs')
  have hintrospect : ∀ url, (envValue s.toVars "FIDUCIA_AUTH_INTROSPECT_URL").getD url =
      s.introspectUrl := getD_envValue rfl hs.introspectUrl
  have hjwks : ∀ url, (envValue s.toVars "FIDUCIA_AUTH_JWKS_URL").getD url = s.jwksUrl :=
    getD_envValue rfl hs.jwksUrl
  have hissuer : (envValue s.toVars "FIDUCIA_JWT_ISSUER").getD defaultJwtIssuer = s.jwtIssuer :=
    getD_envValue rfl hs.jwtIssuer _
  have haudience : (envValue s.toVars "FIDUCIA_JWT_AUDIENCE").getD defaultJwtAudience =
      s.jwtAudience := getD_envValue rfl hs.jwtAudience _
  have hcheck : (envValue s.toVars "FIDUCIA_REVOCATION_CHECK_URL").getD defaultRevocationCheckUrl =
      s.revocationCheckUrl := getD_envValue rfl hs.revocationCheckUrl _
  have hcache : durationEnv s.toVars "FIDUCIA_AUTH_CACHE_TTL_SECS" defaultCacheTtlSecs =
      s.cacheTtl := durationEnv_eq rfl hs.cacheTtl _
  have hnegative : durationEnv s.toVars "FIDUCIA_AUTH_NEGATIVE_CACHE_TTL_SECS"
      defaultNegativeCacheTtlSecs = s.negativeCacheTtl := durationEnv_eq rfl hs.negativeCacheTtl _
  have hkeys : durationEnv s.toVars "FIDUCIA_AUTH_JWKS_TTL_SECS" defaultJwksTtlSecs = s.jwksTtl :=
    durationEnv_eq rfl hs.jwksTtl _
  have hhttp : durationEnv s.toVars "FIDUCIA_AUTH_HTTP_TIMEOUT_SECS" defaultHttpTimeoutSecs =
      s.httpTimeout := durationEnv_eq rfl hs.httpTimeout _
  have hfreshness : u64Env s.toVars "FIDUCIA_REVOCATION_CACHE_FRESHNESS_SECS"
      defaultRevocationFreshnessSecs = s.revocationFreshnessSecs :=
    uintEnv_toString rfl hs.revocationFreshnessSecs.2 _
  have hcapacity : usizeEnv s.toVars "FIDUCIA_REVOCATION_CACHE_CAPACITY"
      defaultRevocationCapacity = s.revocationCapacity :=
    uintEnv_toString rfl hs.revocationCapacity.2 _
  have hrefresh : u64Env s.toVars "FIDUCIA_REVOCATION_TIMEOUT_MILLIS"
      defaultRevocationTimeoutMillis = millis := by
    refine uintEnv_toString ?_ hlt _
    show some (toString (s.revocationRefreshTimeout / 1000000)) = _
    rw [hmillis, fromMillis, Nat.mul_div_cancel millis (by decide)]
  unfold fromEnv envBool
  simp only [hrequired, hapiKeys, hjwts, hsecret, hreader, hintrospect, hjwks, hissuer, haudience,
    hcheck, hcache, hnegative, hkeys, hhttp, hfreshness, hcapacity, hrefresh,
    max_eq_left hs.revocationFreshnessSecs.1, max_eq_left hs.revocationCapacity.1,
    max_eq_left hpos, ← hmillis]
  rfl

end

/-- The variables that say well-formed settings are such as a process can be handed. -/
theorem nulFree_toVars {s : Settings} (hs : s.WellFormed) : s.toVars.NulFree := by
  have hentries : ∀ entry ∈ s.entries, ∀ value, entry.2 = some value → IsValue value := by
    have hbool : ∀ b : Bool, IsValue (toString b) := by decide
    simp only [entries, List.forall_mem_cons, List.not_mem_nil, false_imp_iff, implies_true,
      Option.some.injEq, forall_eq', hbool, isValue_toString, true_and, and_true]
    exact ⟨hs.introspectUrl, hs.introspectSecret, hs.jwksUrl, hs.jwtIssuer, hs.jwtAudience,
      hs.revocationCheckUrl, fun secret h =>
        isValue_of_validReaderSecret (hs.revocationReaderSecret secret h)⟩
  intro name value h
  obtain ⟨before, after, hsplit, -⟩ := List.lookup_eq_some_iff.1 (Option.join_eq_some_iff.1 h)
  have hentry : (name, some value) ∈ s.entries := by
    rw [hsplit]
    exact List.mem_append_right _ List.mem_cons_self
  exact (hentries _ hentry value rfl).2.2

/-- **These are the settings there are.**  What a process can be told by its variables, in
either build, are exactly the well-formed settings, and these variables tell it so; so no
variable can make a window, a cache or a time limit empty, a number overflow, an address or
a name blank, or the authority be asked under a bad secret. -/
theorem fromEnv_range_iff (s : Settings) (debugAssertions : Bool) :
    ((∃ vars : Variables, vars.NulFree ∧ fromEnv vars debugAssertions = s) ↔ s.WellFormed) ∧
      (s.toVars.NulFree ∧ fromEnv s.toVars debugAssertions = s ↔ s.WellFormed) := by
  have hforth : ∀ vars : Variables, vars.NulFree ∧ fromEnv vars debugAssertions = s →
      s.WellFormed := by
    rintro vars ⟨hvars, rfl⟩
    exact wellFormed_fromEnv hvars debugAssertions
  have hback (hs : s.WellFormed) :
      s.toVars.NulFree ∧ fromEnv s.toVars debugAssertions = s :=
    ⟨nulFree_toVars hs, fromEnv_toVars hs debugAssertions⟩
  refine ⟨⟨?_, fun hs => ⟨s.toVars, hback hs⟩⟩, hforth s.toVars, hback⟩
  rintro ⟨vars, h⟩
  exact hforth vars h

end Settings

end Auth

end LoadBalance
