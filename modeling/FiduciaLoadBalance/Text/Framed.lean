import FiduciaLoadBalance.Text.Utf8

/-!
# Fields framed by their lengths

A list of byte strings written one after the other, each behind its length in a fixed
number of bytes, can be taken apart again (`framed_injective`).
-/

namespace Text

/-- The last `k` bytes of a number, the most significant first. -/
def beBytes : ℕ → ℕ → List UInt8
  | 0, _ => []
  | k + 1, n => beBytes k (n / 256) ++ [UInt8.ofNat n]

@[simp] theorem length_beBytes (k n : ℕ) : (beBytes k n).length = k := by
  induction k generalizing n with
  | zero => rfl
  | succ k ih => simp [beBytes, ih]

/-- A number that fits is told by its bytes. -/
theorem beBytes_injective {k m n : ℕ} (hm : m < 256 ^ k) (hn : n < 256 ^ k)
    (h : beBytes k m = beBytes k n) : m = n := by
  induction k generalizing m n with
  | zero =>
    rw [pow_zero] at hm hn
    omega
  | succ k ih =>
    obtain ⟨hinit, hlast⟩ := List.append_inj' h rfl
    rw [pow_succ] at hm hn
    have hdiv : m / 256 = n / 256 :=
      ih (Nat.div_lt_of_lt_mul (by omega)) (Nat.div_lt_of_lt_mul (by omega)) hinit
    have hmod : m % 256 = n % 256 := by
      have := congrArg UInt8.toNat (List.singleton_inj.1 hlast)
      rwa [UInt8.toNat_ofNat', UInt8.toNat_ofNat'] at this
    omega

/-- Each field behind its length in eight bytes. -/
def framed (fields : List (List UInt8)) : List UInt8 :=
  fields.flatMap fun field => beBytes 8 field.length ++ field

/-- **Framed fields can be taken apart again**, as many as there are. -/
theorem framed_injective {fields fields' : List (List UInt8)}
    (hcount : fields.length = fields'.length) (hfits : ∀ field ∈ fields, field.length < 2 ^ 64)
    (hfits' : ∀ field ∈ fields', field.length < 2 ^ 64) (h : framed fields = framed fields') :
    fields = fields' := by
  induction fields generalizing fields' with
  | nil => exact (List.length_eq_zero_iff.1 hcount.symm).symm
  | cons field fields ih =>
    cases fields' with
    | nil => exact absurd hcount (by simp)
    | cons field' fields' =>
      simp only [framed, List.flatMap_cons, List.append_assoc] at h
      obtain ⟨hlength, h⟩ := List.append_inj h (by simp)
      have hsame : field.length = field'.length :=
        beBytes_injective (hfits field (by simp)) (hfits' field' (by simp)) hlength
      obtain ⟨rfl, hrest⟩ := List.append_inj h hsame
      rw [ih (by simpa using hcount) (fun f hf => hfits f (by simp [hf]))
        (fun f hf => hfits' f (by simp [hf])) hrest]

end Text
