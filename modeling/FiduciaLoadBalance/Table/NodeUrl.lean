import FiduciaLoadBalance.Table.Basic

/-!
# Node URLs in normal form

What `normalizeNodeUrl` makes of an address is the spelling of an HTTP origin, and
its own normal form.
-/

namespace LoadBalance

open Text

/-- A parsed URL that a node may have: an HTTP origin and nothing else. -/
def Url.IsOrigin (url : Url) : Prop :=
  (url.scheme = "http" ∨ url.scheme = "https") ∧ url.host.isSome ∧ url.username = "" ∧
    url.password = none ∧ url.query = none ∧ url.fragment = none ∧ url.path = "/"

/-- What a normal form is: the spelling of an origin, without its final slash. -/
theorem normalizeNodeUrl_eq_some {env : Env} {address url : String}
    (h : normalizeNodeUrl env address = some url) :
    ∃ text parsed, env.parseUrl text = some parsed ∧ parsed.IsOrigin ∧
      url = trimEndMatches (· == '/') parsed.asStr := by
  rw [normalizeNodeUrl] at h
  dsimp only at h
  split at h
  · exact absurd h (by simp)
  · obtain ⟨parsed, hparsed, hbind⟩ := Option.bind_eq_some_iff.1 h
    split at hbind
    · exact absurd hbind (by simp)
    · rename_i hplain
      simp only [not_or, not_and_or, not_not, Bool.not_eq_true, Option.isSome_eq_false_iff,
        Option.isNone_iff_eq_none] at hplain
      obtain ⟨hscheme, hhost, huser, hpass, hquery, hfrag, hpath⟩ := hplain
      exact ⟨_, parsed, hparsed, ⟨hscheme, by simpa [Option.isSome_iff_ne_none] using hhost, huser,
        hpass, hquery, hfrag, hpath⟩, (Option.some.inj hbind).symm⟩

/-- And what has one: a text with a scheme, without white space, that is an origin. -/
theorem normalizeNodeUrl_of_origin {env : Env} {url : String} {parsed : Url}
    (hspace : ∀ c ∈ url.toList, isWhitespace c = false)
    (hhttp : (startsWith url "http://" || startsWith url "https://") = true)
    (hparse : env.parseUrl url = some parsed) (horigin : parsed.IsOrigin) :
    normalizeNodeUrl env url = some (trimEndMatches (· == '/') parsed.asStr) := by
  obtain ⟨hscheme, hhost, huser, hpass, hquery, hfrag, hpath⟩ := horigin
  have hne : url ≠ "" := by
    intro hnil
    rw [hnil] at hhttp
    exact absurd hhttp (by decide)
  have hplain : ¬((parsed.scheme ≠ "http" ∧ parsed.scheme ≠ "https") ∨ parsed.host.isNone ∨
      parsed.username ≠ "" ∨ parsed.password.isSome ∨ parsed.query.isSome ∨
      parsed.fragment.isSome ∨ parsed.path ≠ "/") := by
    rcases hscheme with hs | hs <;>
      simp [hs, Option.ne_none_iff_isSome.2 hhost, huser, hpass, hquery, hfrag, hpath]
  rw [normalizeNodeUrl]
  dsimp only
  rw [trim, trimMatches_of_forall_not hspace, if_neg hne, if_pos hhttp, hparse, Option.bind_some,
    if_neg hplain]

/-- **Normal forms are fixed points**: the normal form of a node URL is its own. -/
theorem normalizeNodeUrl_idem {env : Env} (hurls : env.SpellsOrigins) {address url : String}
    (h : normalizeNodeUrl env address = some url) : normalizeNodeUrl env url = some url := by
  obtain ⟨text, parsed, hparsed, horigin, hurl⟩ := normalizeNodeUrl_eq_some h
  obtain ⟨hscheme, hhost, -, -, hquery, hfrag, hpath⟩ := id horigin
  obtain ⟨authority, hauth, hchars, hspell, hparse⟩ :=
    hurls _ _ hparsed hscheme hhost hpath hquery hfrag
  have htrim : trimEndMatches (· == '/') parsed.asStr = parsed.scheme ++ "://" ++ authority := by
    rw [hspell]
    exact trimEndMatches_append_singleton (c := '/') rfl hauth fun c hc =>
      beq_eq_false_iff_ne.2 (hchars c hc).1
  rw [htrim] at hurl
  have hspace : ∀ c ∈ url.toList, isWhitespace c = false := by
    intro c hc
    rw [hurl, String.toList_append, List.mem_append] at hc
    rcases hc with hc | hc
    · have hall : (parsed.scheme ++ "://").toList.all fun c => !isWhitespace c := by
        rcases hscheme with hs | hs <;>
        · rw [hs]
          decide
      simpa using List.all_eq_true.1 hall c hc
    · exact (hchars c hc).2
  have hhttp : (startsWith url "http://" || startsWith url "https://") = true := by
    rw [Bool.or_eq_true, startsWith_iff, startsWith_iff, hurl]
    exact hscheme.imp (fun hs => ⟨authority, by rw [hs]; rfl⟩) fun hs => ⟨authority, by rw [hs]; rfl⟩
  rw [← hurl] at hparse htrim
  rw [normalizeNodeUrl_of_origin hspace hhttp hparse horigin, htrim]

namespace RouteTable

/-- Among nodes in normal form, the known node of a hint is its normal form. -/
theorem knownNode_eq_some {env : Env} {t : RouteTable}
    (hnormal : ∀ url ∈ t.nodes, normalizeNodeUrl env url = some url) {hint known : String} :
    t.knownNode env hint = some known ↔
      known ∈ t.nodes ∧ normalizeNodeUrl env hint = some known := by
  rw [knownNode, Option.bind_eq_some_iff]
  constructor
  · rintro ⟨normalized, hhint, hfind⟩
    have hmem := List.mem_of_find?_eq_some hfind
    have hsome := List.find?_some hfind
    rw [hnormal known hmem, beq_iff_eq, Option.some.injEq] at hsome
    exact ⟨hmem, hsome ▸ hhint⟩
  · rintro ⟨hmem, hhint⟩
    refine ⟨known, hhint, ?_⟩
    obtain ⟨found, hfound⟩ : ∃ found, t.nodes.find?
        (fun node => normalizeNodeUrl env node == some known) = some found :=
      Option.isSome_iff_exists.1 (List.find?_isSome.2 ⟨known, hmem, by simp [hnormal known hmem]⟩)
    have hsome := List.find?_some hfound
    rw [hnormal found (List.mem_of_find?_eq_some hfound), beq_iff_eq, Option.some.injEq] at hsome
    rw [hfound, hsome]

/-- A hint that is not a member's changes nothing. -/
theorem hint_ignored {env : Env} {t : RouteTable}
    (hnormal : ∀ url ∈ t.nodes, normalizeNodeUrl env url = some url) {hint : String}
    (hhint : ∀ url, normalizeNodeUrl env hint = some url → url ∉ t.nodes) (shard : ShardId)
    (now : Instant) :
    t.acceptLeaderHint env shard hint now = (none, t) ∧ t.validateNodeHint env hint = none := by
  have hnone : t.knownNode env hint = none := Option.eq_none_iff_forall_ne_some.2 fun known h =>
    hhint known ((knownNode_eq_some hnormal).1 h).2 ((knownNode_eq_some hnormal).1 h).1
  exact ⟨by rw [acceptLeaderHint, hnone], hnone⟩

end RouteTable

end LoadBalance
