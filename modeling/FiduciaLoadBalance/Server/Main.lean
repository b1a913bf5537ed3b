import FiduciaLoadBalance.Auth.Settings
import FiduciaLoadBalance.Server.System

/-!
# A balancer as it is started

The process reads what it is to do from its variables, once, and then serves; what it was told
amiss must not open anything.

* `tlsSettings`, `main` — what is started, or why nothing is;
* `Opened` — what lets a caller in, and what the variables have to say for it;
* `opened_as_configured` — so nothing reaches a node but for callers the variables allow.
-/

namespace LoadBalance

open Http Text Conc Machine

namespace Server

/-! ## Starting -/

structure TlsSettings where
  certPath : String
  keyPath : String
  port : ℕ

/-- TLS needs both its files; with one of them the process does not start. -/
def tlsSettings (vars : Variables) : Except String (Option TlsSettings) :=
  match vars "FIDUCIA_TLS_CERT_PATH", vars "FIDUCIA_TLS_KEY_PATH" with
  | some certPath, some keyPath =>
    .ok (some { certPath, keyPath, port := ((vars "TLS_PORT").bind (parseUint 16)).getD 8443 })
  | none, none => .ok none
  | _, _ => .error "set both FIDUCIA_TLS_CERT_PATH and FIDUCIA_TLS_KEY_PATH, or neither"

/-- There is always a shard. -/
def shardCountFromEnvValue (value : Option String) : ℕ :=
  max (((value.map trim).bind (parseUint 32)).getD 16) 1

/-- The nodes that are known of before the brain is asked. -/
def seedNodes (vars : Variables) : List String :=
  ((vars "FIDUCIA_NODES").map fun s => (split ',' s).filter (· ≠ "")).getD []

def internalSecret (vars : Variables) : Option String := envValue vars "FIDUCIA_INTERNAL_SECRET"

/-- What a balancer runs on, whatever its variables say. -/
structure Platform (N : Type) where
  env : Env
  tokens : Auth.Tokens
  envelope : Bytes → Option Revocation.WireDecision
  upstreams : Proxy.Upstreams N
  nodes : N
  debugAssertions : Bool

/-- What is served, and where. -/
structure Launch (N : Type) where
  deployment : Deployment N
  port : ℕ
  tls : Option TlsSettings
  brainUrl : String

variable {N : Type}

/-- The state that `main` shares between the handlers. -/
def appState (platform : Platform N) (vars : Variables) (tls : Option TlsSettings) :
    Deployment N :=
  let settings := Auth.Settings.fromEnv vars platform.debugAssertions
  { env := { platform.env with internalSecret := internalSecret vars }
    tokens := platform.tokens
    config := settings.toAuthConfig
    jwksTtl := settings.jwksTtl
    authority := ⟨settings.revocationReaderSecret, platform.envelope⟩
    freshnessBudgetSecs := settings.revocationFreshnessSecs
    capacity := settings.revocationCapacity
    shardCount := shardCountFromEnvValue (vars "FIDUCIA_SHARD_COUNT")
    seeds := seedNodes vars
    upstreams := platform.upstreams
    nodes := platform.nodes
    tls := tls.isSome }

def main (platform : Platform N) (vars : Variables) : Except String (Launch N) := do
  let tls ← tlsSettings vars
  return {
    deployment := appState platform vars tls
    port := ((vars "PORT").bind (parseUint 16)).getD 8088
    tls
    brainUrl := (vars "FIDUCIA_BRAIN_URL").getD "http://localhost:8095" }

section

variable {platform : Platform N} {vars : Variables} {launch : Launch N}

theorem isSome_of_tlsSettings {tls : Option TlsSettings} (h : tlsSettings vars = .ok tls) :
    (vars "FIDUCIA_TLS_CERT_PATH").isSome = tls.isSome ∧
      (vars "FIDUCIA_TLS_KEY_PATH").isSome = tls.isSome := by
  unfold tlsSettings at h
  cases hcert : vars "FIDUCIA_TLS_CERT_PATH" with
  | none =>
    cases hkey : vars "FIDUCIA_TLS_KEY_PATH" with
    | none =>
      rw [hcert, hkey] at h
      obtain rfl := Except.ok.inj h
      exact ⟨rfl, rfl⟩
    | some keyPath =>
      rw [hcert, hkey] at h
      exact absurd h (by simp)
  | some certPath =>
    cases hkey : vars "FIDUCIA_TLS_KEY_PATH" with
    | none =>
      rw [hcert, hkey] at h
      exact absurd h (by simp)
    | some keyPath =>
      rw [hcert, hkey] at h
      obtain rfl := Except.ok.inj h
      exact ⟨rfl, rfl⟩

/-- What is started: everything as the variables say, and TLS where they speak of it. -/
theorem main_ok (h : main platform vars = .ok launch) : ∃ tls,
    launch.deployment = appState platform vars tls ∧
    (vars "FIDUCIA_TLS_CERT_PATH").isSome = tls.isSome ∧
      (vars "FIDUCIA_TLS_KEY_PATH").isSome = tls.isSome := by
  unfold main at h
  cases htls : tlsSettings vars with
  | error message =>
    rw [htls] at h
    exact absurd h (by simp [bind, Except.bind])
  | ok tls =>
    rw [htls] at h
    obtain rfl := Except.ok.inj h
    exact ⟨tls, rfl, isSome_of_tlsSettings htls⟩

/-- A credential that decides is the request's own, and of a kind that is allowed. -/
theorem allowed_of_credentialOf {config : Auth.AuthConfig} {headers : HeaderMap}
    {secret : Option String} {credential : Auth.Credential}
    (h : Auth.credentialOf config headers secret = some credential) :
    ∃ text, Auth.extractCredential headers = some text ∧
      (credential = .apiKey text ∧ config.allowApiKeys = true ∨
        credential = .jwt text ∧ config.allowJwts = true) := by
  unfold Auth.credentialOf at h
  split at h
  · exact absurd h (by simp)
  · obtain ⟨text, htext, hkind⟩ := Option.bind_eq_some_iff.1 h
    refine ⟨text, htext, ?_⟩
    split at hkind
    · split at hkind
      · exact Or.inl ⟨(Option.some.inj hkind).symm, ‹_›⟩
      · exact absurd hkind (by simp)
    · split at hkind
      · split at hkind
        · exact Or.inr ⟨(Option.some.inj hkind).symm, ‹_›⟩
        · exact absurd hkind (by simp)
      · exact absurd hkind (by simp)

theorem ne_false_of_envBool {name : String} {default : Bool}
    (h : envBool vars name default = true) : envBoolOpt vars name ≠ some false := by
  intro hfalse
  rw [envBool, hfalse, Option.getD_some] at h
  exact absurd h (by decide)

theorem of_authRequiredDecision {explicit : Option Bool} {isDebugBuild : Bool}
    (h : Auth.authRequiredDecision explicit isDebugBuild = false) :
    explicit = some false ∨ explicit = none ∧ isDebugBuild = true := by
  cases explicit with
  | none => exact Or.inr ⟨rfl, by simpa [Auth.authRequiredDecision] using h⟩
  | some required => exact Or.inl (congrArg some h)

end

/-! ## What the variables open -/

/-- What lets a caller in, and what the variables have to say for it. -/
inductive Opened (platform : Platform N) (vars : Variables) {D : Deployment N} (s : AppState D)
    (i : ℕ) (incoming : Incoming) : Option VerifiedIdentity → Prop
  /-- Nobody at all, where the variables, or else the build, ask for nobody; and then only to
  a path of the probes. -/
  | anonymous
      (hrequired : envBoolOpt vars "FIDUCIA_AUTH_REQUIRED" = some false ∨
        envBoolOpt vars "FIDUCIA_AUTH_REQUIRED" = none ∧ platform.debugAssertions = true)
      (hprobe : segments incoming.uri.path = ["healthz"] ∨
        segments incoming.uri.path = ["readyz"]) : Opened platform vars s i incoming none
  /-- A caller an edge vouches for, with the secret the variables give. -/
  | edge {caller : VerifiedIdentity} {secret : String}
      (hsecret : envValue vars "FIDUCIA_INTERNAL_SECRET" = some secret)
      (hvouched : Vouched incoming.headers (some secret) caller) :
      Opened platform vars s i incoming (some caller)
  /-- The holder of an API key, unless these are switched off. -/
  | apiKey {caller : VerifiedIdentity} {text : String}
      (hallowed : envBoolOpt vars "FIDUCIA_AUTH_ALLOW_API_KEYS" ≠ some false)
      (hcredential : Auth.extractCredential incoming.headers = some text)
      (hintrospected : Auth.Introspected D.env D.tokens D.config
        (s.auth.history.map (.map Auth.Caches.toShared)) i text caller) :
      Opened platform vars s i incoming (some caller)
  /-- The bearer of a token, unless these are switched off, if there is a good secret to ask the
  authority under and the authority has cleared the token. -/
  | jwt {claims : Revocation.Claims} {text secret : String} {second : ℕ}
      (hallowed : envBoolOpt vars "FIDUCIA_AUTH_ALLOW_JWTS" ≠ some false)
      (hsecret : envValue vars "FIDUCIA_REVOCATION_READER_SECRET" = some secret)
      (hvalid : Auth.validReaderSecret secret = true)
      (hcredential : Auth.extractCredential incoming.headers = some text)
      (hshown : Auth.Shown D.tokens D.config D.jwksTtl s.auth.history i text claims)
      (hasked : ⟨.authorizeRevocation claims second, .allowed⟩ ∈ own i s.auth.history)
      (hcleared : Revocation.OnWire D.env D.authority D.freshnessBudgetSecs s.gate.history claims
        second .allow) :
      Opened platform vars s i incoming (some (Auth.identityFromClaims claims))

section

variable {platform : Platform N} {vars : Variables} {launch : Launch N}

/-- What a caller's identity stands on, the variables allow. -/
theorem opened_of_vetted {tls : Option TlsSettings} {s : AppState (appState platform vars tls)}
    {i : ℕ} {incoming : Incoming} {identity : Option VerifiedIdentity}
    (hvetted : Vetted s i incoming identity)
    (hpermitted : Proxy.Permitted (incoming.request identity)) :
    Opened platform vars s i incoming identity := by
  have hstanding := hvetted.standing
  cases hstanding with
  | anonymous hedge hnone hrequired =>
    refine .anonymous (of_authRequiredDecision hrequired) ?_
    rcases hpermitted.2 with hprobe | ⟨caller, hcaller, -⟩
    · exact hprobe
    · exact absurd hcaller (by simp [Incoming.request])
  | edge hvouched =>
    obtain ⟨secret, hsecret, hproof⟩ := hvouched.proof
    have hread : envValue vars "FIDUCIA_INTERNAL_SECRET" = some secret := hsecret
    exact .edge hread (hsecret ▸ hvouched)
  | apiKey hcredential hintrospected =>
    obtain ⟨text, htext, ⟨heq, hallowed⟩ | ⟨heq, -⟩⟩ := allowed_of_credentialOf hcredential
    · obtain rfl := Auth.Credential.apiKey.inj heq
      exact .apiKey (ne_false_of_envBool hallowed) htext hintrospected
    · exact absurd heq (by simp)
  | jwt hcredential hshown hallowed =>
    obtain ⟨text, htext, ⟨heq, -⟩ | ⟨heq, hjwts⟩⟩ := allowed_of_credentialOf hcredential
    · exact absurd heq (by simp)
    · obtain rfl := Auth.Credential.jwt.inj heq
      have hcleared := hvetted.onWire hallowed
      obtain ⟨secret, hsecret⟩ := Option.isSome_iff_exists.1 hcleared.1
      obtain ⟨hread, hvalid⟩ := Option.filter_eq_some_iff.1 hsecret
      refine .jwt (ne_false_of_envBool hjwts) hread hvalid htext hshown hallowed ?_
      have hbudget : (Revocation.RevocationCache.new
          (appState platform vars tls).freshnessBudgetSecs
          (appState platform vars tls).capacity).freshnessBudgetSecs =
            (appState platform vars tls).freshnessBudgetSecs :=
        max_eq_left (Auth.Settings.one_le_revocationFreshnessSecs vars platform.debugAssertions)
      exact hbudget ▸ hcleared

/-- **A balancer is as open as it is told to be**, whatever comes in and whatever anybody
answers, in everything that a started process can come to.  What reaches a node was sent for
one request; that came over TLS, if the variables speak of TLS at all; and it was let in under
an identity for which the variables have something to say: without any only where they, or
else a debug build, ask for none, and to a path of the probes; by an edge only with the secret
they give; with an API key or a token only where they do not switch these off; and with a token
only where they give a good secret to ask the authority under, and the authority, asked under
it no longer ago than they allow, has cleared the token. -/
theorem opened_as_configured (hmain : main platform vars = .ok launch)
    (hinj : platform.env.CollisionFree) {s : AppState launch.deployment}
    (hreach : Reachable launch.deployment s) {j : ℕ} {a : Proxy.Attempt} (ha : Attempting s j a) :
    ∃ i incoming identity, s.forwarded i = some j ∧ (∀ i', s.forwarded i' = some j → i' = i) ∧
      s.incoming i = some incoming ∧
      ((vars "FIDUCIA_TLS_CERT_PATH").isSome ∨ (vars "FIDUCIA_TLS_KEY_PATH").isSome →
        incoming.tls = true) ∧
      a.identity = identity ∧ Opened platform vars s i incoming identity := by
  obtain ⟨tls, hdeployment, hcert, hkey⟩ := main_ok hmain
  obtain ⟨deployment, port, settings, brainUrl⟩ := launch
  obtain rfl : deployment = appState platform vars tls := hdeployment
  have hinv := hreach.inv
  obtain ⟨p, hst⟩ := started_of_attempting ha
  obtain ⟨i, hij⟩ := hinv.task hst
  obtain ⟨incoming, identity, hincoming, hendpoint, hresult, hst⟩ := hinv.forwarded hij
  obtain ⟨hpermitted, hform⟩ := mediated_of_attempting hst ha
  refine ⟨i, incoming, identity, hij, fun i' hi' => hinv.once hi' hij, hincoming, fun hspoken => ?_,
    ?_, opened_of_vetted (hinv.vetted hinj hincoming hresult) hpermitted⟩
  · refine tls_of_authenticates (hinv.request hincoming).1 ?_
    rcases hspoken with hspoken | hspoken
    · exact hcert.symm.trans hspoken
    · exact hkey.symm.trans hspoken
  · rcases hform with ⟨hidentity, -⟩ | hsame
    · exact hidentity
    · rw [hsame]
      rfl

/-! ## Playing a balancer -/

/-- A request that is let in at once is on its way. -/
theorem reachable_forwarded {D : Deployment N} {incoming : Incoming}
    {identity : Option VerifiedIdentity} (hendpoint : dispatch D.tls incoming = .proxyFallback)
    (hdone : D.requestIdentity incoming.headers = .done (.ok identity)) :
    ∃ s : AppState D, Reachable D s ∧ s.forwarded 0 = some 0 ∧ s.proxy.config = ⟨D.world,
      Function.update (fun _ => none) 0
        (some (Proxy.route D.env D.shardCount (incoming.request identity))), 1⟩ := by
  have haccepted := Relation.ReflTransGen.single
    (Step.accept (s := AppState.new D) incoming (Or.inr (Or.inr hendpoint)))
  refine ⟨_, haccepted.tail (.forward (i := 0) rfl hendpoint ?_ rfl), rfl, rfl⟩
  rw [Config.result_eq_some]
  show some (D.requestIdentity incoming.headers) = _
  rw [hdone]

end

namespace Site

/-- The variables of a balancer before one node, behind TLS, that an edge sends to. -/
def vars : Variables := fun name =>
  [("FIDUCIA_NODES", "http://a:1,"), ("FIDUCIA_SHARD_COUNT", "1"),
    ("FIDUCIA_INTERNAL_SECRET", " internal "), ("FIDUCIA_TLS_CERT_PATH", "/tls/crt"),
    ("FIDUCIA_TLS_KEY_PATH", "/tls/key")].lookup name

def platform : Platform Proxy.Nodes where
  env := Reference.env
  tokens := Auth.Sample.tokens
  envelope := Revocation.Sample.service.envelope
  upstreams := Proxy.upstreams Reference.env false
  nodes := .empty
  debugAssertions := false

def tls : TlsSettings := ⟨"/tls/crt", "/tls/key", 8443⟩

theorem main_vars : main platform vars = .ok
    ⟨appState platform vars (some tls), 8088, some tls, "http://localhost:8095"⟩ := rfl

/-- The tasks of this balancer, driven. -/
def mainDriver : Machine.Driver (appState platform vars (some tls)).balancer :=
  Proxy.simulation (appState platform vars (some tls)).env false
    (appState platform vars (some tls)).shardCount fun _ => True

end Site

/-- The mutation of the edge is on its way, and the edge had the secret. -/
theorem opened_as_configured_put : ∃ launch, main Site.platform Site.vars = .ok launch ∧
    ∃ s : AppState launch.deployment, Reachable launch.deployment s ∧ ∃ a, Attempting s 0 a ∧
      ∃ i incoming identity, s.forwarded i = some 0 ∧ incoming.tls = true ∧
        Opened Site.platform Site.vars s i incoming identity := by
  have hendpoint : dispatch (appState Site.platform Site.vars (some Site.tls)).tls Site.put =
      .proxyFallback := by decide +kernel
  have hdone : (appState Site.platform Site.vars (some Site.tls)).requestIdentity Site.put.headers =
      .done (.ok (some Proxy.Sample.identity)) := by
    have hedge : trustedEdgeIdentity Site.edgeHeaders (internalSecret Site.vars) =
        some Proxy.Sample.identity := by decide +kernel
    show Auth.requestIdentityWithSecret _ Auth.Sample.tokens _ Site.edgeHeaders
      (internalSecret Site.vars) = _
    rw [Auth.requestIdentityWithSecret, hedge]
    rfl
  obtain ⟨s, hreach, hforwarded, hconfig⟩ := reachable_forwarded hendpoint hdone
  have hplays : (Site.mainDriver.play ([(0, .table 0), (0, .table 0)].map fun p => .answer p.1 p.2)
      ⟨(appState Site.platform Site.vars (some Site.tls)).world, Function.update (fun _ => none) 0
        (some (Proxy.route (appState Site.platform Site.vars (some Site.tls)).env
          (appState Site.platform Site.vars (some Site.tls)).shardCount
            (Site.put.request (some Proxy.Sample.identity)))), 1⟩).any
          (fun q => (Site.attempting (q.2.waiting 0)).isSome) = true := by decide +kernel
  obtain ⟨⟨h, c⟩, hplay, hwaits⟩ := (Option.any_eq_true _ _).1 hplays
  obtain ⟨a, ha⟩ := Option.isSome_iff_exists.1 hwaits
  rw [← hconfig] at hplay
  obtain ⟨s', hs, rfl⟩ := hreach.play Site.mainDriver hplay
  have hattempting : Attempting s' 0 a := Or.inr (Site.eq_of_attempting ha)
  obtain ⟨i, incoming, identity, hi, -, -, htls, -, hopened⟩ :=
    opened_as_configured Site.main_vars Reference.collisionFree hs hattempting
  exact ⟨_, Site.main_vars, s', hs, a, hattempting, i, incoming, identity, hi,
    htls (Or.inl rfl), hopened⟩

end Server

end LoadBalance
