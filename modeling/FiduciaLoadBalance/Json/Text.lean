import FiduciaLoadBalance.Json.Value
import FiduciaLoadBalance.Text.Str

/-!
# JSON text

A writer of compact JSON — no blanks, ordered objects as they are, the short
escapes where there are any — and a reader of the documents made of `Regular`
values, which also skips blanks, takes object members in any order and knows all
escapes but those of surrogate pairs.

* `read_write` — the reader undoes the writer on regular values.
* `fromSlice_toVec` — and so do the two on bytes.
-/

namespace Json

open Text

/-! ## Writing -/

/-- A character inside a string literal. -/
def escapeChar (c : Char) : List Char :=
  if c = '"' then ['\\', '"']
  else if c = '\\' then ['\\', '\\']
  else if c = '\n' then ['\\', 'n']
  else if c = '\r' then ['\\', 'r']
  else if c = '\t' then ['\\', 't']
  else if c.toNat = 8 then ['\\', 'b']
  else if c.toNat = 12 then ['\\', 'f']
  else if c.toNat < 32 then
    ['\\', 'u', '0', '0', hexDigit (c.toNat / 16), hexDigit (c.toNat % 16)]
  else [c]

def writeString (s : String) : List Char := '"' :: (s.toList.flatMap escapeChar ++ ['"'])

def writeNumber : Number → List Char
  | .posInt n => Nat.toDigits 10 n.toNat
  | .negInt n => '-' :: Nat.toDigits 10 n.toNat
  | .float bits => 'f' :: Nat.toDigits 10 bits.toNat

mutual

/-- The compact text of a value.  A floating-point number has no text here. -/
def write : Value → List Char
  | .null => ['n', 'u', 'l', 'l']
  | .bool true => ['t', 'r', 'u', 'e']
  | .bool false => ['f', 'a', 'l', 's', 'e']
  | .number n => writeNumber n
  | .string s => writeString s
  | .array [] => ['[', ']']
  | .array (x :: xs) => '[' :: (write x ++ writeElements xs)
  | .object [] => ['{', '}']
  | .object ((k, v) :: fs) => '{' :: (writeString k ++ ':' :: (write v ++ writeMembers fs))

/-- The elements after the first, and the closing bracket. -/
def writeElements : List Value → List Char
  | [] => [']']
  | x :: xs => ',' :: (write x ++ writeElements xs)

/-- The members after the first, and the closing brace. -/
def writeMembers : List (String × Value) → List Char
  | [] => ['}']
  | (k, v) :: fs => ',' :: (writeString k ++ ':' :: (write v ++ writeMembers fs))

end

/-! ## Reading -/

def isBlank (c : Char) : Bool := c = ' ' ∨ c = '\n' ∨ c = '\r' ∨ c = '\t'

def skipBlanks (cs : List Char) : List Char := cs.dropWhile isBlank

/-- The character of a one-letter escape. -/
def unescape (c : Char) : Option Char :=
  if c = '"' then some '"'
  else if c = '\\' then some '\\'
  else if c = '/' then some '/'
  else if c = 'n' then some '\n'
  else if c = 'r' then some '\r'
  else if c = 't' then some '\t'
  else if c = 'b' then some (Char.ofNat 8)
  else if c = 'f' then some (Char.ofNat 12)
  else none

/-- The character of a four-digit escape; surrogates are not read. -/
def unescapeHex (a b c d : Char) : Option Char := do
  let a ← toDigit a
  let b ← toDigit b
  let c ← toDigit c
  let d ← toDigit d
  let n := ((a * 16 + b) * 16 + c) * 16 + d
  if 0xD800 ≤ n ∧ n ≤ 0xDFFF then none else some (Char.ofNat n)

/-- Read up to and including the closing quote. -/
def readStringBody : List Char → Option (List Char × List Char)
  | [] => none
  | '"' :: rest => some ([], rest)
  | '\\' :: 'u' :: h₃ :: h₂ :: h₁ :: h₀ :: rest =>
    (unescapeHex h₃ h₂ h₁ h₀).bind fun u => (readStringBody rest).map fun r => (u :: r.1, r.2)
  | '\\' :: e :: rest =>
    (unescape e).bind fun u => (readStringBody rest).map fun r => (u :: r.1, r.2)
  | c :: rest =>
    if c = '\\' ∨ c.toNat < 32 then none
    else (readStringBody rest).map fun r => (c :: r.1, r.2)

/-- Read a string literal. -/
def readString : List Char → Option (String × List Char)
  | '"' :: rest => (readStringBody rest).map fun r => (String.ofList r.1, r.2)
  | _ => none

/-- Read a natural number below `2 ^ 64` without a leading zero. -/
def readNat (cs : List Char) : Option (UInt64 × List Char) :=
  let digits := cs.takeWhile Char.isDigit
  let n := Nat.ofDigitChars 10 digits 0
  if digits = [] ∨ (digits.head? = some '0' ∧ digits ≠ ['0']) ∨ 2 ^ 64 ≤ n then none
  else some (UInt64.ofNat n, cs.dropWhile Char.isDigit)

/-- Expect the character `c` next, blanks apart. -/
def expect (c : Char) (cs : List Char) : Option (List Char) :=
  match skipBlanks cs with
  | d :: rest => if d = c then some rest else none
  | [] => none

mutual

/-- Read one value, with `fuel` at least the length of the text. -/
def readValue : ℕ → List Char → Option (Value × List Char)
  | 0, _ => none
  | fuel + 1, cs =>
    match skipBlanks cs with
    | 'n' :: 'u' :: 'l' :: 'l' :: rest => some (.null, rest)
    | 't' :: 'r' :: 'u' :: 'e' :: rest => some (.bool true, rest)
    | 'f' :: 'a' :: 'l' :: 's' :: 'e' :: rest => some (.bool false, rest)
    | '"' :: rest => (readString ('"' :: rest)).map fun r => (.string r.1, r.2)
    | '[' :: rest =>
      match expect ']' rest with
      | some rest => some (.array [], rest)
      | none => (readElements fuel rest).map fun r => (.array r.1, r.2)
    | '{' :: rest =>
      match expect '}' rest with
      | some rest => some (.object [], rest)
      | none => (readMembers fuel rest).map fun r => (.ofFields r.1, r.2)
    | cs => (readNat cs).map fun r => (.number (.posInt r.1), r.2)

/-- Read the elements of an array and its closing bracket. -/
def readElements : ℕ → List Char → Option (List Value × List Char)
  | 0, _ => none
  | fuel + 1, cs =>
    (readValue fuel cs).bind fun r =>
      match expect ',' r.2 with
      | some rest => (readElements fuel rest).map fun rs => (r.1 :: rs.1, rs.2)
      | none => (expect ']' r.2).map fun rest => ([r.1], rest)

/-- Read the members of an object and its closing brace. -/
def readMembers : ℕ → List Char → Option (List (String × Value) × List Char)
  | 0, _ => none
  | fuel + 1, cs =>
    (readString (skipBlanks cs)).bind fun k =>
      (expect ':' k.2).bind fun rest =>
        (readValue fuel rest).bind fun r =>
          match expect ',' r.2 with
          | some rest => (readMembers fuel rest).map fun rs => ((k.1, r.1) :: rs.1, rs.2)
          | none => (expect '}' r.2).map fun rest => ([(k.1, r.1)], rest)

end

/-- Read a whole document: one value and nothing after it but blanks. -/
def read (cs : List Char) : Option Value :=
  (readValue (cs.length + 1) cs).bind fun r => if skipBlanks r.2 = [] then some r.1 else none

def toVec (v : Value) : List UInt8 := (write v).flatMap String.utf8EncodeChar

def fromSlice (bytes : List UInt8) : Option Value := (charsOfUtf8 bytes).bind read

/-! ## The reader undoes the writer -/

theorem unescapeHex_lt : ∀ n < 32,
    unescapeHex '0' '0' (hexDigit (n / 16)) (hexDigit (n % 16)) = some (Char.ofNat n) := by
  decide

theorem readStringBody_plain {c : Char} {rest : List Char} (h₁ : c ≠ '"') (h₂ : c ≠ '\\')
    (h₃ : 32 ≤ c.toNat) :
    readStringBody (c :: rest) = (readStringBody rest).map fun r => (c :: r.1, r.2) := by
  rw [readStringBody.eq_5 _ _ h₁ (fun _ _ _ _ _ h => absurd h h₂) (fun _ _ h => absurd h h₂)]
  rw [if_neg (not_or.2 ⟨h₂, not_lt.2 h₃⟩)]

/-- Reading one written character. -/
theorem readStringBody_escapeChar (c : Char) (rest : List Char) :
    readStringBody (escapeChar c ++ rest) =
      (readStringBody rest).map fun r => (c :: r.1, r.2) := by
  unfold escapeChar
  split_ifs with h₁ h₂ h₃ h₄ h₅ h₆ h₇ h₈
  · subst h₁; rfl
  · subst h₂; rfl
  · subst h₃; rfl
  · subst h₄; rfl
  · subst h₅; rfl
  · have hc : c = Char.ofNat 8 := by rw [← h₆, Char.ofNat_toNat]
    subst hc; rfl
  · have hc : c = Char.ofNat 12 := by rw [← h₇, Char.ofNat_toNat]
    subst hc; rfl
  · have hc := unescapeHex_lt c.toNat h₈
    rw [Char.ofNat_toNat] at hc
    show ((unescapeHex '0' '0' _ _).bind _ : Option (List Char × List Char)) = _
    rw [hc]
    rfl
  · exact readStringBody_plain h₁ h₂ (by omega)

theorem readStringBody_flatMap (cs rest : List Char) :
    readStringBody (cs.flatMap escapeChar ++ '"' :: rest) = some (cs, rest) := by
  induction cs with
  | nil => rfl
  | cons c cs ih =>
    rw [List.flatMap_cons, List.append_assoc, readStringBody_escapeChar, ih]
    rfl

@[simp] theorem readString_writeString (s : String) (rest : List Char) :
    readString (writeString s ++ rest) = some (s, rest) := by
  have h : writeString s ++ rest = '"' :: (s.toList.flatMap escapeChar ++ '"' :: rest) := by
    simp [writeString]
  rw [h, readString, readStringBody_flatMap]
  simp

/-- The text `cs` does not go on with a digit. -/
def NoDigit (cs : List Char) : Prop := ∀ c ∈ cs.head?, c.isDigit = false

theorem takeWhile_digits {n : ℕ} {rest : List Char} (h : NoDigit rest) :
    (Nat.toDigits 10 n ++ rest).takeWhile Char.isDigit = Nat.toDigits 10 n ∧
      (Nat.toDigits 10 n ++ rest).dropWhile Char.isDigit = rest := by
  have hall : ∀ c ∈ Nat.toDigits 10 n, c.isDigit = true :=
    fun c hc => Nat.isDigit_of_mem_toDigits (by omega) (by omega) hc
  rw [List.takeWhile_append_of_pos hall, List.dropWhile_append_of_pos hall]
  cases rest with
  | nil => simp
  | cons c rest => simp [h c rfl]

theorem head_toDigits {n : ℕ} (h : (Nat.toDigits 10 n).head? = some '0') : n = 0 := by
  induction n using Nat.strong_induction_on with
  | _ n ih =>
    by_cases hn : n < 10
    · rw [Nat.toDigits_of_lt_base hn, List.head?_cons, Option.some.injEq] at h
      exact (show ∀ m < 10, m.digitChar = '0' → m = 0 by decide) n hn h
    · rw [Nat.toDigits_of_base_le (by omega) (by omega),
        List.head?_append_of_ne_nil _ Nat.toDigits_ne_nil] at h
      have := ih (n / 10) (by omega) h
      omega

theorem readNat_toDigits (n : UInt64) {rest : List Char} (h : NoDigit rest) :
    readNat (Nat.toDigits 10 n.toNat ++ rest) = some (n, rest) := by
  obtain ⟨htake, hdrop⟩ := takeWhile_digits (n := n.toNat) h
  have hlt : n.toNat < 2 ^ 64 := n.toNat_lt
  have hzero : ¬((Nat.toDigits 10 n.toNat).head? = some '0' ∧ Nat.toDigits 10 n.toNat ≠ ['0']) := by
    rintro ⟨hhead, hne⟩
    rw [head_toDigits hhead] at hne
    exact hne rfl
  have hguard : ¬(Nat.toDigits 10 n.toNat = [] ∨
      ((Nat.toDigits 10 n.toNat).head? = some '0' ∧ Nat.toDigits 10 n.toNat ≠ ['0']) ∨
      2 ^ 64 ≤ n.toNat) := by
    rintro (h | h | h)
    · exact Nat.toDigits_ne_nil h
    · exact hzero h
    · omega
  simp only [readNat, htake, hdrop, Nat.ofDigitChars_toDigits (b := 10) (by omega) le_rfl]
  rw [if_neg hguard, UInt64.ofNat_toNat]

theorem isDigit_cases {c : Char} (h : c.isDigit = true) :
    c = '0' ∨ c = '1' ∨ c = '2' ∨ c = '3' ∨ c = '4' ∨ c = '5' ∨ c = '6' ∨ c = '7' ∨ c = '8' ∨
      c = '9' := by
  have hrange : 48 ≤ c.val ∧ c.val ≤ 57 := by simpa [Char.isDigit] using h
  rw [← Char.ofNat_toNat c]
  have h₁ : 48 ≤ c.toNat := UInt32.le_iff_toNat_le.1 hrange.1
  have h₂ : c.toNat ≤ 57 := UInt32.le_iff_toNat_le.1 hrange.2
  interval_cases c.toNat <;> decide

/-- How the text of a value begins: with no blank and with no closing bracket. -/
theorem write_head (v : Value) :
    ∃ c cs, write v = c :: cs ∧ isBlank c = false ∧ c ≠ ']' ∧ c ≠ '}' := by
  have hdigits : ∀ n : ℕ, ∃ c cs, Nat.toDigits 10 n = c :: cs ∧ isBlank c = false ∧ c ≠ ']' ∧
      c ≠ '}' := by
    intro n
    obtain ⟨c, cs, hcs⟩ := List.exists_cons_of_ne_nil (Nat.toDigits_ne_nil (n := n) (b := 10))
    have hc : c.isDigit = true :=
      Nat.isDigit_of_mem_toDigits (b := 10) (by omega) le_rfl (hcs ▸ List.mem_cons_self)
    refine ⟨c, cs, hcs, ?_⟩
    rcases isDigit_cases hc with rfl | rfl | rfl | rfl | rfl | rfl | rfl | rfl | rfl | rfl <;>
      decide
  cases v with
  | null => exact ⟨_, _, rfl, by decide⟩
  | bool b => cases b <;> exact ⟨_, _, rfl, by decide⟩
  | number n =>
    cases n with
    | posInt n => exact hdigits n.toNat
    | negInt n => exact ⟨_, _, rfl, by decide⟩
    | float n => exact ⟨_, _, rfl, by decide⟩
  | string s => exact ⟨_, _, rfl, by decide⟩
  | array xs => cases xs <;> exact ⟨_, _, rfl, by decide⟩
  | object fs =>
    cases fs with
    | nil => exact ⟨_, _, rfl, by decide⟩
    | cons f fs => exact ⟨_, _, rfl, by decide⟩

theorem length_write_pos (v : Value) : 0 < (write v).length := by
  obtain ⟨c, cs, h, -⟩ := write_head v
  simp [h]

theorem skipBlanks_write (v : Value) (rest : List Char) :
    skipBlanks (write v ++ rest) = write v ++ rest := by
  obtain ⟨c, cs, h, hc, -⟩ := write_head v
  simp [h, skipBlanks, hc]

theorem expect_cons_self {c : Char} (hc : isBlank c = false) (rest : List Char) :
    expect c (c :: rest) = some rest := by
  simp [expect, skipBlanks, hc]

theorem expect_cons_ne {c d : Char} (hd : isBlank d = false) (hne : d ≠ c) (rest : List Char) :
    expect c (d :: rest) = none := by
  simp [expect, skipBlanks, hd, hne]

theorem noDigit_cons {c : Char} (h : c.isDigit = false) (rest : List Char) :
    NoDigit (c :: rest) := by
  simp [NoDigit, h]

theorem noDigit_writeElements (xs : List Value) (rest : List Char) :
    NoDigit (writeElements xs ++ rest) := by
  cases xs <;> exact noDigit_cons (by decide) _

theorem noDigit_writeMembers (fs : List (String × Value)) (rest : List Char) :
    NoDigit (writeMembers fs ++ rest) := by
  cases fs <;> exact noDigit_cons (by decide) _

/-- Reading a number after the blanks are skipped. -/
theorem readValue_toDigits (fuel : ℕ) (n : UInt64) {rest : List Char} (h : NoDigit rest) :
    readValue (fuel + 1) (Nat.toDigits 10 n.toNat ++ rest) =
      some (.number (.posInt n), rest) := by
  have hskip := skipBlanks_write (.number (.posInt n)) rest
  have hread := readNat_toDigits n h
  rw [write, writeNumber] at hskip
  obtain ⟨c, cs, hcs⟩ :=
    List.exists_cons_of_ne_nil (Nat.toDigits_ne_nil (n := n.toNat) (b := 10))
  have hc : c.isDigit = true :=
    Nat.isDigit_of_mem_toDigits (b := 10) (by omega) le_rfl (hcs ▸ List.mem_cons_self)
  rw [readValue, hskip]
  rw [hcs, List.cons_append] at hread ⊢
  rcases isDigit_cases hc with rfl | rfl | rfl | rfl | rfl | rfl | rfl | rfl | rfl | rfl <;>
    simp [hread]

mutual

/-- Reading what was written, with fuel for its length. -/
theorem readValue_write : ∀ (v : Value) (fuel : ℕ) (rest : List Char), v.Regular →
    (write v).length ≤ fuel → NoDigit rest → readValue fuel (write v ++ rest) = some (v, rest)
  | v, 0, rest, _, hlen, _ => absurd hlen (Nat.not_le.2 (length_write_pos v))
  | .null, fuel + 1, rest, _, _, _ => by
    rw [readValue, skipBlanks_write]
    rfl
  | .bool true, fuel + 1, rest, _, _, _ => by
    rw [readValue, skipBlanks_write]
    rfl
  | .bool false, fuel + 1, rest, _, _, _ => by
    rw [readValue, skipBlanks_write]
    rfl
  | .number (.posInt n), fuel + 1, rest, _, _, hrest => by
    rw [write, writeNumber]
    exact readValue_toDigits fuel n hrest
  | .string s, fuel + 1, rest, _, _, _ => by
    have h := readString_writeString s rest
    rw [readValue, skipBlanks_write]
    rw [write]
    simp only [writeString, List.cons_append] at h ⊢
    rw [h]
    rfl
  | .array [], fuel + 1, rest, _, _, _ => by
    rw [readValue, skipBlanks_write]
    rfl
  | .array (x :: xs), fuel + 1, rest, hreg, hlen, _ => by
    have hall : ∀ v ∈ x :: xs, Value.Regular v := by
      cases hreg with
      | array h => exact h
    have hlen' : (write x).length + (writeElements xs).length ≤ fuel := by
      simpa [write] using hlen
    have hread := readElements_write x xs fuel rest hall hlen'
    obtain ⟨c, cs, hcs, hc, hne, -⟩ := write_head x
    have hclose : expect ']' (write x ++ (writeElements xs ++ rest)) = none := by
      rw [hcs]
      exact expect_cons_ne hc hne _
    rw [readValue, skipBlanks_write]
    simp only [write, List.cons_append, List.append_assoc] at hread ⊢
    rw [hclose, hread]
    rfl
  | .object [], fuel + 1, rest, _, _, _ => by
    rw [readValue, skipBlanks_write]
    rfl
  | .object ((k, v) :: fs), fuel + 1, rest, hreg, hlen, _ => by
    obtain ⟨hord, hall⟩ : Ordered ((k, v) :: fs) ∧ ∀ f ∈ (k, v) :: fs, Value.Regular f.2 := by
      cases hreg with
      | object h h' => exact ⟨h, h'⟩
    have hlen' : (writeString k).length + 1 + (write v).length + (writeMembers fs).length ≤
        fuel := by
      simp only [write, List.length_cons, List.length_append] at hlen
      omega
    have hread := readMembers_write k v fs fuel rest hall hlen'
    have hclose :
        expect '}' (writeString k ++ ':' :: (write v ++ (writeMembers fs ++ rest))) = none :=
      expect_cons_ne (by decide) (by decide) _
    rw [readValue, skipBlanks_write]
    simp only [write, List.cons_append, List.append_assoc] at hread ⊢
    rw [hclose, hread]
    simp [Value.ofFields_of_ordered hord]

theorem readElements_write : ∀ (x : Value) (xs : List Value) (fuel : ℕ) (rest : List Char),
    (∀ v ∈ x :: xs, Value.Regular v) → (write x).length + (writeElements xs).length ≤ fuel →
    readElements fuel (write x ++ writeElements xs ++ rest) = some (x :: xs, rest)
  | x, xs, 0, rest, _, hlen => by
    have := length_write_pos x
    omega
  | x, [], fuel + 1, rest, hall, hlen => by
    have hx := readValue_write x fuel (writeElements [] ++ rest) (hall x (by simp))
      (by simp only [writeElements, List.length_singleton] at hlen; omega)
      (noDigit_writeElements _ _)
    rw [readElements, List.append_assoc, hx]
    simp [writeElements, expect_cons_self (c := ']') (by decide),
      expect_cons_ne (c := ',') (d := ']') (by decide) (by decide)]
  | x, y :: ys, fuel + 1, rest, hall, hlen => by
    simp only [writeElements, List.length_cons, List.length_append] at hlen
    have hx := readValue_write x fuel (writeElements (y :: ys) ++ rest) (hall x (by simp))
      (by omega) (noDigit_writeElements _ _)
    have hys := readElements_write y ys fuel rest (fun v hv => hall v (by simp [hv])) (by omega)
    rw [readElements, List.append_assoc, hx]
    simp only [writeElements, List.cons_append, Option.bind_some,
      expect_cons_self (c := ',') (by decide), hys, Option.map_some]

theorem readMembers_write : ∀ (k : String) (v : Value) (fs : List (String × Value)) (fuel : ℕ)
    (rest : List Char), (∀ f ∈ (k, v) :: fs, Value.Regular f.2) →
    (writeString k).length + 1 + (write v).length + (writeMembers fs).length ≤ fuel →
    readMembers fuel (writeString k ++ ':' :: (write v ++ writeMembers fs ++ rest)) =
      some ((k, v) :: fs, rest)
  | k, v, fs, 0, rest, _, hlen => by omega
  | k, v, [], fuel + 1, rest, hall, hlen => by
    have hv := readValue_write v fuel (writeMembers [] ++ rest) (hall (k, v) (by simp))
      (by simp only [writeMembers, List.length_singleton] at hlen; omega)
      (noDigit_writeMembers _ _)
    have hskip : ∀ tail, skipBlanks (writeString k ++ tail) = writeString k ++ tail := fun _ => rfl
    rw [readMembers, hskip, readString_writeString, List.append_assoc]
    simp only [Option.bind_some, expect_cons_self (c := ':') (by decide), hv]
    simp [writeMembers, expect_cons_self (c := '}') (by decide),
      expect_cons_ne (c := ',') (d := '}') (by decide) (by decide)]
  | k, v, (k', v') :: fs, fuel + 1, rest, hall, hlen => by
    simp only [writeMembers, List.length_cons, List.length_append] at hlen
    have hv := readValue_write v fuel (writeMembers ((k', v') :: fs) ++ rest)
      (hall (k, v) (by simp)) (by omega) (noDigit_writeMembers _ _)
    have hfs := readMembers_write k' v' fs fuel rest (fun f hf => hall f (by simp [hf]))
      (by omega)
    have hskip : ∀ tail, skipBlanks (writeString k ++ tail) = writeString k ++ tail := fun _ => rfl
    rw [readMembers, hskip, readString_writeString, List.append_assoc]
    simp only [Option.bind_some, expect_cons_self (c := ':') (by decide), hv]
    simp only [writeMembers, List.cons_append, List.append_assoc,
      expect_cons_self (c := ',') (by decide)] at hfs ⊢
    rw [hfs]
    rfl

end

/-- **The reader undoes the writer.** -/
theorem read_write {v : Value} (h : v.Regular) : read (write v) = some v := by
  have hread := readValue_write v ((write v).length + 1) [] h (Nat.le_succ _) (by simp [NoDigit])
  rw [List.append_nil] at hread
  rw [read, hread]
  rfl

/-- The two agree on bytes as well. -/
theorem fromSlice_toVec {v : Value} (h : v.Regular) : fromSlice (toVec v) = some v := by
  rw [fromSlice, toVec, charsOfUtf8_flatMap, Option.bind_some, read_write h]

end Json
