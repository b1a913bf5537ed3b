import FiduciaLoadBalance.Proxy.Idempotency
import FiduciaLoadBalance.Reference

/-!
# What a stored response is replayed as

A record may hold any stored response: any 16-bit status, any content type, any text
for a body.

* `hexToBytes_eq_some_iff` — a body decodes to exactly the bytes it spells.
* `replay_faithful_iff` — a stored response is turned down or replayed with its own
  status and body, unless its status is no status code: that one is replaced by 200.
-/

namespace LoadBalance

open Http Text

namespace Proxy

/-! ## Bodies -/

/-- This text spells these bytes in hexadecimal, in either case. -/
def HexSpelling (text : String) (bytes : Bytes) : Prop := toAsciiLowercase text = toHex bytes

theorem HexSpelling.unique {text : String} {bytes bytes' : Bytes} (h : HexSpelling text bytes)
    (h' : HexSpelling text bytes') : bytes' = bytes :=
  toHex_injective (h'.symm.trans h)

theorem hexSpelling_iff {text : String} {bytes : Bytes} :
    HexSpelling text bytes ↔ bytesOfHex text.toList = some bytes := by
  rw [bytesOfHex_eq_some_iff, HexSpelling, toAsciiLowercase, ← String.toList_inj,
    String.toList_ofList, toList_toHex]

/-- **A stored body decodes to the bytes it spells**, and to none if it spells none: it
is read byte by byte, and a byte that is not a character of its own is no digit. -/
theorem hexToBytes_eq_some_iff {text : String} {bytes : Bytes} :
    hexToBytes text = some bytes ↔ HexSpelling text bytes := by
  rw [hexSpelling_iff, hexToBytes]
  constructor
  · intro h
    have hlower := bytesOfHex_eq_some_iff.1 h
    have hlt : ∀ b ∈ utf8 text, b.toNat < 128 := by
      intro b hb
      have hmem : (Char.ofNat b.toNat).toLower ∈ bytes.flatMap hexOfByte := by
        rw [← hlower]
        exact List.mem_map_of_mem (List.mem_map_of_mem hb)
      rw [← toList_toHex] at hmem
      obtain ⟨n, hn, hdigit⟩ := mem_toHex hmem
      have hascii := (toDigit_lt (toDigit_eq_some_iff.2 ⟨hn, hdigit⟩)).1
      rwa [Char.toNat_ofNat, if_pos (Or.inl (lt_trans (UInt8.toNat_lt b) (by decide)))] at hascii
    have htext : String.ofList ((utf8 text).map fun b => Char.ofNat b.toNat) = text :=
      utf8_injective (utf8_map_ofNat hlt)
    rwa [← htext, String.toList_ofList]
  · intro h
    have hascii : ∀ c ∈ text.toList, c.toNat < 128 := by
      intro c hc
      have hmem : c.toLower ∈ (toHex bytes).toList := by
        rw [toList_toHex, ← bytesOfHex_eq_some_iff.1 h]
        exact List.mem_map_of_mem hc
      obtain ⟨n, hn, hdigit⟩ := mem_toHex hmem
      exact (toDigit_lt (toDigit_eq_some_iff.2 ⟨hn, hdigit⟩)).1
    rwa [map_utf8_of_ascii hascii]

/-! ## Replays -/

/-- The replay is refused as unavailable, or it is the stored response: its status, and
the one body that it spells. -/
def ReplaysFaithfully (env : Env) (stored : StoredIdempotencyResponse) : Prop :=
  (∃ detail, stored.intoReplayResponse env = idempotencyReplayUnavailable env detail) ∨
  ((stored.intoReplayResponse env).status.code = stored.status.toNat ∧
    ∃ body, (stored.intoReplayResponse env).body = .full body ∧
      HexSpelling stored.bodyHex body ∧ ∀ body', HexSpelling stored.bodyHex body' → body' = body)

/-- What is neither truncated nor corrupt is replayed, whatever its status. -/
theorem intoReplayResponse_spelled (env : Env) {stored : StoredIdempotencyResponse} {body : Bytes}
    (hwhole : stored.truncated = false) (hbody : HexSpelling stored.bodyHex body) :
    (stored.intoReplayResponse env).status =
        (StatusCode.fromU16 stored.status.toNat).getD .ok ∧
      (stored.intoReplayResponse env).body = .full body := by
  rw [StoredIdempotencyResponse.intoReplayResponse, hwhole, if_neg (by simp)]
  dsimp only
  rw [hexToBytes_eq_some_iff.2 hbody]
  exact ⟨rfl, rfl⟩

theorem intoReplayResponse_truncated (env : Env) {stored : StoredIdempotencyResponse}
    (h : stored.truncated = true) :
    stored.intoReplayResponse env =
      idempotencyReplayUnavailable env "stored response exceeded the replay body limit" := by
  rw [StoredIdempotencyResponse.intoReplayResponse, if_pos h]

theorem intoReplayResponse_corrupt (env : Env) {stored : StoredIdempotencyResponse}
    (hwhole : stored.truncated = false) (h : ¬∃ body, HexSpelling stored.bodyHex body) :
    stored.intoReplayResponse env =
      idempotencyReplayUnavailable env "stored response body failed to decode" := by
  have hnone : hexToBytes stored.bodyHex = none := by
    rw [Option.eq_none_iff_forall_ne_some]
    intro body hbody
    exact h ⟨body, hexToBytes_eq_some_iff.1 hbody⟩
  rw [StoredIdempotencyResponse.intoReplayResponse, hwhole, if_neg (by simp)]
  dsimp only
  rw [hnone]

/-- **When a stored response is replayed faithfully or not at all**: it is truncated, its
body spells no bytes, or its status is a status code.  A status below 100 or above 999
is replayed as 200. -/
theorem replay_faithful_iff (env : Env) (stored : StoredIdempotencyResponse) :
    ReplaysFaithfully env stored ↔
      stored.truncated = true ∨ (¬∃ body, HexSpelling stored.bodyHex body) ∨
        (100 ≤ stored.status.toNat ∧ stored.status.toNat < 1000) := by
  by_cases htruncated : stored.truncated = true
  · have hrefused := intoReplayResponse_truncated env htruncated
    exact iff_of_true (Or.inl ⟨_, hrefused⟩) (Or.inl htruncated)
  have hwhole : stored.truncated = false := Bool.eq_false_iff.2 htruncated
  by_cases hspelled : ∃ body, HexSpelling stored.bodyHex body
  · obtain ⟨body, hbody⟩ := hspelled
    obtain ⟨hstatus, hfull⟩ := intoReplayResponse_spelled env hwhole hbody
    constructor
    · intro h
      refine Or.inr (Or.inr ?_)
      by_contra hrange
      have hok : (stored.intoReplayResponse env).status = .ok := by
        rw [hstatus, StatusCode.fromU16, dif_neg hrange, Option.getD_none]
      rcases h with ⟨detail, hrefused⟩ | ⟨hcode, -⟩
      · rw [hrefused, idempotencyReplayUnavailable, jsonResponse_status] at hok
        exact absurd hok (by decide)
      · rw [hok] at hcode
        exact hrange (by rw [← hcode]; decide)
    · intro h
      have hrange : 100 ≤ stored.status.toNat ∧ stored.status.toNat < 1000 := by
        rcases h with h | h | h
        · exact absurd h htruncated
        · exact absurd ⟨body, hbody⟩ h
        · exact h
      refine Or.inr ⟨?_, body, hfull, hbody, ?_⟩
      · rw [hstatus, StatusCode.fromU16, dif_pos hrange, Option.getD_some]
      · intro body' hbody'
        exact hbody.unique hbody'
  · have hrefused := intoReplayResponse_corrupt env hwhole hspelled
    exact iff_of_true (Or.inl ⟨_, hrefused⟩) (Or.inr (Or.inl hspelled))

namespace Sample

/-- A record with a status of four digits. -/
def corrupt : StoredIdempotencyResponse where
  fingerprint := "f"
  status := 5000
  contentType := none
  bodyHex := "6F6b"
  truncated := false

end Sample

/-- **A response that was never sent is replayed**: status 5000 comes back as 200. -/
theorem not_replay_faithful :
    ¬ReplaysFaithfully Reference.env Sample.corrupt ∧
      (Sample.corrupt.intoReplayResponse Reference.env).status = .ok ∧
      (Sample.corrupt.intoReplayResponse Reference.env).body = .full (utf8 "ok") := by
  have hok : (Sample.corrupt.intoReplayResponse Reference.env).status = .ok := by decide +kernel
  refine ⟨?_, hok, by decide +kernel⟩
  rintro (⟨detail, hrefused⟩ | ⟨hcode, -⟩)
  · rw [hrefused, idempotencyReplayUnavailable, jsonResponse_status] at hok
    exact absurd hok (by decide)
  · rw [hok] at hcode
    exact absurd hcode (by decide)

end Proxy

end LoadBalance
