import FiduciaLoadBalance.Env
import FiduciaLoadBalance.Json.Text

/-!
# An environment to compute with

A concrete `Env` on which the model runs: the JSON text of `Json.Text`, a parser for
plain HTTP URLs, a digest without collisions, and simple stand-ins for the shared
crates.  It satisfies every hypothesis the results make about an environment, so none
of them is vacuous.
-/

namespace LoadBalance

namespace Reference

open Http Text

/-- The characters of a URL that needs no normalization. -/
def isPlain (c : Char) : Bool := c.isLower || c.isDigit || c == '-' || c == ':' || c == '/'

/-- Read a plain HTTP URL: an authority, and a path if there is one. -/
def parseUrl (text : String) : Option Url :=
  (stripPrefix text "http://").bind fun rest =>
    let authority := String.ofList (rest.toList.takeWhile (· != '/'))
    let path := String.ofList (rest.toList.dropWhile (· != '/'))
    if authority = "" ∨ !rest.toList.all isPlain then none
    else
      let path := if path = "" then "/" else path
      some
        { scheme := "http", username := "", password := none, host := some authority, path
          query := none, fragment := none, asStr := "http://" ++ authority ++ path }

/-- Read the error payload of a node that is not the leader. -/
def proposeError (value : Json.Value) : Option ProposeError :=
  if (value.get? "reason").bind (·.asStr) = some "not_leader" then
    some { reason := .notLeader, leader := (value.get? "leader").bind (·.asStr) }
  else none

def env : Env where
  parseUrl := parseUrl
  parseUri := Uri.ofOriginForm
  toVec := Json.toVec
  fromSlice := Json.fromSlice
  proposeError := proposeError
  sha256 := id
  shardFor key n := key.length % n
  orgScopedKey org key := org ++ "/" ++ key
  lockCoordinationKey := "locks"
  serviceDiscoveryKey := "services"
  internalSecret := some "internal"

theorem jsonRoundTrips : env.JsonRoundTrips := fun _ h => Json.fromSlice_toVec h

theorem collisionFree : env.CollisionFree := Function.injective_id

theorem shardsInRange : env.ShardsInRange := fun _ _ hn => Nat.mod_lt _ hn

/-- What a text is whose URL is an origin. -/
theorem parseUrl_origin {text : String} {url : Url} (h : parseUrl text = some url)
    (hpath : url.path = "/") :
    ∃ authority : String, authority ≠ "" ∧
      (∀ c ∈ authority.toList, c ≠ '/' ∧ isPlain c = true) ∧
      url = { scheme := "http", username := "", password := none, host := some authority
              path := "/", query := none, fragment := none
              asStr := "http://" ++ authority ++ "/" } := by
  obtain ⟨rest, -, hrest⟩ := Option.bind_eq_some_iff.1 h
  dsimp only at hrest
  split at hrest
  · exact absurd hrest (by simp)
  · rename_i hplain
    rw [not_or, Bool.not_eq_true, Bool.not_eq_false'] at hplain
    refine ⟨_, hplain.1, fun c hc => ?_, ?_⟩
    · rw [String.toList_ofList] at hc
      exact ⟨by simpa using List.mem_takeWhile_imp hc,
        List.all_eq_true.1 hplain.2 c (List.takeWhile_sublist _ |>.subset hc)⟩
    · rw [← Option.some.inj hrest] at hpath ⊢
      dsimp only at hpath
      rw [hpath]

theorem parseUrl_of_authority {authority : String} (hne : authority ≠ "")
    (hchars : ∀ c ∈ authority.toList, c ≠ '/' ∧ isPlain c = true) :
    parseUrl ("http://" ++ authority) =
      some { scheme := "http", username := "", password := none, host := some authority
             path := "/", query := none, fragment := none
             asStr := "http://" ++ authority ++ "/" } := by
  have hslash : ∀ c ∈ authority.toList, (c != '/') = true := fun c hc => by
    simpa using (hchars c hc).1
  have htake : authority.toList.takeWhile (· != '/') = authority.toList :=
    List.takeWhile_eq_self_iff.2 hslash
  have hdrop : authority.toList.dropWhile (· != '/') = [] :=
    List.dropWhile_eq_nil_iff.2 hslash
  have hall : authority.toList.all isPlain = true :=
    List.all_eq_true.2 fun c hc => (hchars c hc).2
  rw [parseUrl, strip_prefix_eq_some.2 rfl, Option.bind_some]
  dsimp only
  rw [htake, hdrop, String.ofList_toList, if_neg (by simp [hne, hall])]
  rfl

theorem isWhitespace_of_isPlain {c : Char} (h : isPlain c = true) : isWhitespace c = false := by
  have hrange : 0x20 < c.toNat ∧ c.toNat < 0x80 := by
    simp only [isPlain, Char.isLower, Char.isDigit, Bool.or_eq_true, Bool.and_eq_true,
      decide_eq_true_eq, beq_iff_eq, UInt32.le_iff_toNat_le, ← Char.toNat_val] at h ⊢
    rcases h with (((h | h) | rfl) | rfl) | rfl
    · exact ⟨lt_of_lt_of_le (by decide) h.1, lt_of_le_of_lt h.2 (by decide)⟩
    · exact ⟨lt_of_lt_of_le (by decide) h.1, lt_of_le_of_lt h.2 (by decide)⟩
    all_goals decide
  rw [isWhitespace, decide_eq_false_iff_not]
  omega

theorem spellsOrigins : env.SpellsOrigins := by
  intro text url hparse _ _ hpath _ _
  obtain ⟨authority, hne, hchars, rfl⟩ := parseUrl_origin hparse hpath
  exact ⟨authority, hne, fun c hc => ⟨(hchars c hc).1, isWhitespace_of_isPlain (hchars c hc).2⟩,
    rfl, parseUrl_of_authority hne hchars⟩

end Reference

end LoadBalance
