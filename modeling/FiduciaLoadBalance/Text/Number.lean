import FiduciaLoadBalance.Text.Str

/-!
# Numbers as text

How an unsigned number is read: a plus may stand before it, and it has to fit.

* `parseUint` — what is read, if it is a number;
* `parseUint_toString` — a number that fits is read as it is written.
-/

namespace Text

/-- The digits of an unsigned number. -/
def digitsOf (s : String) : List Char :=
  match s.toList with
  | '+' :: digits => digits
  | digits => digits

/-- `str::parse` for an unsigned number of `width` bits. -/
def parseUint (width : ℕ) (s : String) : Option ℕ :=
  if digitsOf s ≠ [] ∧ (digitsOf s).all Char.isDigit ∧ Nat.ofDigitChars 10 (digitsOf s) 0 < 2 ^ width
  then some (Nat.ofDigitChars 10 (digitsOf s) 0)
  else none

theorem parseUint_lt {width n : ℕ} {s : String} (h : parseUint width s = some n) :
    n < 2 ^ width := by
  unfold parseUint at h
  split at h
  · rename_i hnumber
    obtain rfl := Option.some.inj h
    exact hnumber.2.2
  · exact absurd h (by simp)

theorem isDigit_of_mem_toString {n : ℕ} {c : Char} (hc : c ∈ (toString n).toList) :
    c.isDigit = true := by
  rw [Nat.toString_eq_repr, Nat.toList_repr] at hc
  exact Nat.isDigit_of_mem_toDigits (by decide) (by decide) hc

/-- No sign is written before it. -/
theorem digitsOf_toString (n : ℕ) : digitsOf (toString n) = Nat.toDigits 10 n := by
  have htext : (toString n).toList = Nat.toDigits 10 n := by
    rw [Nat.toString_eq_repr, Nat.toList_repr]
  unfold digitsOf
  split
  · rename_i digits hplus
    have hmem : '+' ∈ (toString n).toList := by
      rw [hplus]
      exact List.mem_cons_self
    exact absurd (isDigit_of_mem_toString hmem) (by decide)
  · exact htext

/-- A number that fits is read as it is written. -/
theorem parseUint_toString {width n : ℕ} (hn : n < 2 ^ width) :
    parseUint width (toString n) = some n := by
  have hdigits : (Nat.toDigits 10 n).all Char.isDigit = true :=
    List.all_eq_true.2 fun c hc => Nat.isDigit_of_mem_toDigits (by decide) (by decide) hc
  rw [parseUint, digitsOf_toString, Nat.ofDigitChars_ten_toDigits,
    if_pos ⟨Nat.toDigits_ne_nil, hdigits, hn⟩]

/-- No white space is written around it. -/
theorem trim_toString (n : ℕ) : trim (toString n) = toString n := by
  refine trimMatches_of_forall_not fun c hc => ?_
  have hdigit := Char.isDigit_iff_toNat.1 (isDigit_of_mem_toString hc)
  have h0 : '0'.toNat = 0x30 := rfl
  have h9 : '9'.toNat = 0x39 := rfl
  unfold isWhitespace
  refine decide_eq_false ?_
  omega

end Text
