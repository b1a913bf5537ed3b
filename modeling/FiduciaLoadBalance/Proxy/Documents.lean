import FiduciaLoadBalance.Proxy.Route

/-!
# Customer idempotency: the documents read back

What the node finds in the documents the balancer sends it, and the balancer in the
stored response it gets back: each field is the value it was written from, and a
stored response survives its journey through JSON.
-/

namespace LoadBalance

open Http Text Json

namespace Proxy

/-! ## Values that are read back -/

theorem regular_metadata (idempotency : CustomerIdempotency) :
    idempotency.metadata.Regular := by
  refine Value.regular_ofFields fun f hf => ?_
  simp only [List.mem_cons, List.not_mem_nil, or_false] at hf
  rcases hf with rfl | rfl | rfl | rfl | rfl | rfl <;> exact .string _

theorem regular_stored (stored : StoredIdempotencyResponse) : stored.toValue.Regular := by
  refine Value.regular_ofFields fun f hf => ?_
  simp only [List.mem_cons, List.not_mem_nil, or_false] at hf
  rcases hf with rfl | rfl | rfl | rfl | rfl
  · exact .string _
  · exact .posInt _
  · cases stored.contentType with
    | none => exact .null
    | some contentType => exact .string _
  · exact .string _
  · exact .bool _

theorem regular_claimBody (idempotency : CustomerIdempotency) :
    (claimBody idempotency).Regular := by
  refine Value.regular_ofFields fun f hf => ?_
  simp only [List.mem_cons, List.not_mem_nil, or_false] at hf
  rcases hf with rfl | rfl | rfl | rfl | rfl
  · exact .string _
  · exact .string _
  · exact .posInt _
  · exact .posInt _
  · exact regular_metadata idempotency

theorem regular_completeBody (idempotency : CustomerIdempotency) (fencingToken : UInt64)
    (stored : StoredIdempotencyResponse) :
    (completeBody idempotency fencingToken stored).Regular := by
  refine Value.regular_ofFields fun f hf => ?_
  simp only [List.mem_cons, List.not_mem_nil, or_false] at hf
  rcases hf with rfl | rfl | rfl | rfl
  · exact .string _
  · exact .string _
  · exact .posInt _
  · exact regular_stored stored

theorem regular_abandonBody (idempotency : CustomerIdempotency) (fencingToken : UInt64) :
    (abandonBody idempotency fencingToken).Regular := by
  refine Value.regular_ofFields fun f hf => ?_
  simp only [List.mem_cons, List.not_mem_nil, or_false] at hf
  rcases hf with rfl | rfl | rfl
  · exact .string _
  · exact .string _
  · exact .posInt _

/-! ## Fields -/

section

variable (idempotency : CustomerIdempotency) (fencingToken : UInt64)
  (stored : StoredIdempotencyResponse)

@[simp] theorem claimBody_key :
    (claimBody idempotency).get? "key" = some (.string idempotency.internalKey) := by
  simp [claimBody, lookup_cons_eq]

@[simp] theorem claimBody_owner :
    (claimBody idempotency).get? "owner" = some (.string idempotency.owner) := by
  simp [claimBody, lookup_cons_eq]

@[simp] theorem claimBody_metadata :
    (claimBody idempotency).get? "metadata" = some idempotency.metadata := by
  simp [claimBody]

@[simp] theorem completeBody_key :
    (completeBody idempotency fencingToken stored).get? "key" =
      some (.string idempotency.internalKey) := by
  simp [completeBody, lookup_cons_eq]

@[simp] theorem completeBody_owner :
    (completeBody idempotency fencingToken stored).get? "owner" =
      some (.string idempotency.owner) := by
  simp [completeBody, lookup_cons_eq]

@[simp] theorem completeBody_fencing_token :
    (completeBody idempotency fencingToken stored).get? "fencing_token" =
      some (.number (.posInt fencingToken)) := by
  simp [completeBody, lookup_cons_eq]

@[simp] theorem completeBody_result :
    (completeBody idempotency fencingToken stored).get? "result" = some stored.toValue := by
  simp [completeBody]

@[simp] theorem abandonBody_key :
    (abandonBody idempotency fencingToken).get? "key" =
      some (.string idempotency.internalKey) := by
  simp [abandonBody, lookup_cons_eq]

@[simp] theorem abandonBody_fencing_token :
    (abandonBody idempotency fencingToken).get? "fencing_token" =
      some (.number (.posInt fencingToken)) := by
  simp [abandonBody]

/-- The fingerprint a record was claimed with is that of the request that claimed it. -/
theorem metadata_fingerprint :
    (idempotency.metadata.asObject.bind fun metadata => metadata.lookup "fingerprint").bind
      (·.asStr) = some idempotency.fingerprint := by
  have h : idempotency.metadata.get? "fingerprint" = some (.string idempotency.fingerprint) := by
    simp [CustomerIdempotency.metadata, lookup_cons_eq]
  rw [CustomerIdempotency.metadata, Value.ofFields, Value.get?_object] at h
  rw [CustomerIdempotency.metadata, Value.ofFields, Value.asObject_object, Option.bind_some, h]
  rfl

/-! ## Stored responses -/

theorem u16FromValue_number (n : UInt16) :
    StoredIdempotencyResponse.u16FromValue (.number (.posInt n.toUInt64)) = some n := by
  rw [StoredIdempotencyResponse.u16FromValue, Value.asU64_posInt, Option.bind_some,
    UInt16.toNat_toUInt64, if_pos n.toNat_lt, UInt16.ofNat_toNat]

/-- **A stored response read back from JSON is the one that was written.** -/
theorem fromValue_toValue : StoredIdempotencyResponse.fromValue stored.toValue = some stored := by
  obtain ⟨object, hobject⟩ : ∃ object, stored.toValue = .object object := ⟨_, rfl⟩
  have hfields : ∀ key v, stored.toValue.get? key = some v →
      (Value.object object).get? key = some v := fun key v h => by rwa [hobject] at h
  obtain ⟨content, hcontent, hread⟩ : ∃ v, stored.toValue.get? "content_type" = some v ∧
      StoredIdempotencyResponse.textFromValue v = some stored.contentType := by
    obtain ⟨fingerprint, status, contentType, bodyHex, truncated⟩ := stored
    cases contentType with
    | none => exact ⟨.null, by simp [StoredIdempotencyResponse.toValue, lookup_cons_eq], rfl⟩
    | some text =>
      exact ⟨.string text, by simp [StoredIdempotencyResponse.toValue, lookup_cons_eq], rfl⟩
  rw [hobject, StoredIdempotencyResponse.fromValue,
    hfields "fingerprint" (.string stored.fingerprint)
      (by simp [StoredIdempotencyResponse.toValue, lookup_cons_eq]),
    hfields "status" (.number (.posInt (UInt64.ofNat stored.status.toNat)))
      (by simp [StoredIdempotencyResponse.toValue, lookup_cons_eq]),
    hfields "content_type" content hcontent,
    hfields "body_hex" (.string stored.bodyHex)
      (by simp [StoredIdempotencyResponse.toValue, lookup_cons_eq]),
    hfields "truncated" (.bool stored.truncated) (by simp [StoredIdempotencyResponse.toValue])]
  simp [StoredIdempotencyResponse.fromParts, u16FromValue_number, hread]

end

end Proxy

end LoadBalance
