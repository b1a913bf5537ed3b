import Mathlib

/-!
# UTF-8: text as bytes and bytes as text

`utf8` is the UTF-8 encoding of a string.  Reading goes through `readChar`, which
takes one character off the front of a byte string or, where none starts there,
skips the longest prefix that could have begun one: that is how the standard
decoders see malformed input.  `fromUtf8` accepts only well-formed input,
`fromUtf8Lossy` puts U+FFFD where something was skipped.

* `utf8_append`, `utf8_injective` — the encoding is an injective homomorphism.
* `fromUtf8_utf8`, `fromUtf8Lossy_utf8` — both decoders undo the encoding.
-/

namespace Text

/-- The UTF-8 encoding of a string. -/
def utf8 (s : String) : List UInt8 := s.toList.flatMap String.utf8EncodeChar

@[simp] theorem utf8_empty : utf8 "" = [] := rfl

@[simp] theorem utf8_append (s t : String) : utf8 (s ++ t) = utf8 s ++ utf8 t := by
  simp [utf8]

theorem utf8_injective : Function.Injective utf8 := by
  intro s t h
  have hbytes : s.toList.utf8Encode = t.toList.utf8Encode := congrArg List.toByteArray h
  rw [String.utf8Encode_toList, String.utf8Encode_toList] at hbytes
  exact String.toByteArray_inj.1 hbytes

/-- The bytes of ASCII text are its characters. -/
theorem map_utf8_of_ascii {s : String} (h : ∀ c ∈ s.toList, c.toNat < 128) :
    (utf8 s).map (fun b => Char.ofNat b.toNat) = s.toList := by
  have hone : ∀ c : Char, c.toNat < 128 →
      (String.utf8EncodeChar c).map (fun b => Char.ofNat b.toNat) = [c] := by
    intro c hc
    have hle : c.val.toNat ≤ 0x7f := Nat.le_of_lt_succ hc
    rw [String.utf8EncodeChar, if_pos hle, List.map_singleton, UInt8.toNat_ofNat',
      Nat.mod_eq_of_lt (by omega)]
    exact congrArg (· :: []) (Char.ofNat_toNat c)
  rw [utf8, List.map_flatMap]
  generalize s.toList = cs at h
  induction cs with
  | nil => rfl
  | cons c cs ih =>
    rw [List.flatMap_cons, hone c (h c (by simp)), ih fun c' hc' => h c' (by simp [hc'])]
    rfl

/-- ASCII bytes are the encoding of the characters of the same numbers. -/
theorem utf8_map_ofNat {bytes : List UInt8} (h : ∀ b ∈ bytes, b.toNat < 128) :
    utf8 (String.ofList (bytes.map fun b => Char.ofNat b.toNat)) = bytes := by
  induction bytes with
  | nil => rfl
  | cons b bytes ih =>
    have hb := h b (by simp)
    have hval : (Char.ofNat b.toNat).val.toNat = b.toNat := by
      have hvalid : b.toNat.isValidChar := Or.inl (by omega)
      rw [Char.ofNat, dif_pos hvalid]
      rfl
    have hone : String.utf8EncodeChar (Char.ofNat b.toNat) = [b] := by
      rw [String.utf8EncodeChar, if_pos (by omega), hval]
      simp
    have htail := ih fun b hb => h b (by simp [hb])
    simp only [utf8, String.toList_ofList] at htail ⊢
    rw [List.map_cons, List.flatMap_cons, hone, htail]
    rfl

/-- Only the NUL character has a NUL byte in its encoding. -/
theorem nul_notMem_utf8 {s : String} (h : Char.ofNat 0 ∉ s.toList) : (0 : UInt8) ∉ utf8 s := by
  intro hmem
  obtain ⟨c, hc, hbyte⟩ := List.mem_flatMap.1 hmem
  have hne : c.val.toNat ≠ 0 := by
    intro hzero
    have : c = Char.ofNat 0 := Char.ext (UInt32.toNat_inj.1 hzero)
    exact h (this ▸ hc)
  have hsmall : ∀ n, n % 256 ≠ 0 → (0 : UInt8) ≠ UInt8.ofNat n := by
    intro n hn heq
    have := congrArg UInt8.toNat heq
    rw [UInt8.toNat_ofNat'] at this
    exact hn this.symm
  rw [String.utf8EncodeChar] at hbyte
  split_ifs at hbyte with h1 h2 h3 <;>
    simp only [List.mem_cons, List.not_mem_nil, or_false] at hbyte
  · exact hsmall _ (by omega) hbyte
  · rcases hbyte with hb | hb
    · exact hsmall _ (by omega) hb
    · exact hsmall _ (by omega) hb
  · rcases hbyte with hb | hb | hb
    · exact hsmall _ (by omega) hb
    · exact hsmall _ (by omega) hb
    · exact hsmall _ (by omega) hb
  · rcases hbyte with hb | hb | hb | hb
    · exact hsmall _ (by omega) hb
    · exact hsmall _ (by omega) hb
    · exact hsmall _ (by omega) hb
    · exact hsmall _ (by omega) hb

/-- A continuation byte, `10xxxxxx`. -/
def isCont (b : UInt8) : Bool := 0x80 ≤ b.toNat ∧ b.toNat ≤ 0xBF

/-- The second bytes that may follow the first byte `b` of a three-byte sequence:
no overlong forms, no surrogates. -/
def isSecondOfThree (b c : UInt8) : Bool :=
  if b.toNat = 0xE0 then 0xA0 ≤ c.toNat ∧ c.toNat ≤ 0xBF
  else if b.toNat = 0xED then 0x80 ≤ c.toNat ∧ c.toNat ≤ 0x9F
  else isCont c

/-- The second bytes that may follow the first byte `b` of a four-byte sequence:
no overlong forms, nothing above U+10FFFF. -/
def isSecondOfFour (b c : UInt8) : Bool :=
  if b.toNat = 0xF0 then 0x90 ≤ c.toNat ∧ c.toNat ≤ 0xBF
  else if b.toNat = 0xF4 then 0x80 ≤ c.toNat ∧ c.toNat ≤ 0x8F
  else isCont c

/-- Read one character off the front of `b :: bs`: the character and what follows
it, or `none` and what follows the longest prefix that could have begun one. -/
def readChar (b : UInt8) (bs : List UInt8) : Option Char × List UInt8 :=
  if b.toNat < 0x80 then (some (Char.ofNat b.toNat), bs)
  else if 0xC2 ≤ b.toNat ∧ b.toNat ≤ 0xDF then
    match bs with
    | c :: rest =>
      if isCont c then (some (Char.ofNat (b.toNat % 0x20 * 0x40 + c.toNat % 0x40)), rest)
      else (none, bs)
    | [] => (none, [])
  else if 0xE0 ≤ b.toNat ∧ b.toNat ≤ 0xEF then
    match bs with
    | c :: rest =>
      if isSecondOfThree b c then
        match rest with
        | d :: rest' =>
          if isCont d then
            (some (Char.ofNat
              (b.toNat % 0x10 * 0x1000 + c.toNat % 0x40 * 0x40 + d.toNat % 0x40)), rest')
          else (none, rest)
        | [] => (none, [])
      else (none, bs)
    | [] => (none, [])
  else if 0xF0 ≤ b.toNat ∧ b.toNat ≤ 0xF4 then
    match bs with
    | c :: rest =>
      if isSecondOfFour b c then
        match rest with
        | d :: rest' =>
          if isCont d then
            match rest' with
            | e :: rest'' =>
              if isCont e then
                (some (Char.ofNat (b.toNat % 8 * 0x40000 + c.toNat % 0x40 * 0x1000 +
                  d.toNat % 0x40 * 0x40 + e.toNat % 0x40)), rest'')
              else (none, rest')
            | [] => (none, [])
          else (none, rest)
        | [] => (none, [])
      else (none, bs)
    | [] => (none, [])
  else (none, bs)

/-- Read a whole byte string, one character or one skipped piece at a time; every
step takes at least one byte, so the length of the input is fuel enough. -/
def readAll : ℕ → List UInt8 → List (Option Char)
  | 0, _ => []
  | _ + 1, [] => []
  | n + 1, b :: bs => (readChar b bs).1 :: readAll n (readChar b bs).2

/-- The characters these bytes encode, if they encode any text. -/
def charsOfUtf8 (bs : List UInt8) : Option (List Char) := (readAll bs.length bs).mapM id

/-- Strict decoding: the text these bytes encode, if they encode one. -/
def fromUtf8 (bs : List UInt8) : Option String := (charsOfUtf8 bs).map String.ofList

/-- Lossy decoding: U+FFFD stands for each piece that is not UTF-8. -/
def fromUtf8Lossy (bs : List UInt8) : String :=
  String.ofList ((readAll bs.length bs).map (·.getD '\uFFFD'))

/-- Reading undoes encoding, one character at a time. -/
theorem readChar_encode (c : Char) (rest : List UInt8) :
    ∃ b bs, String.utf8EncodeChar c = b :: bs ∧ readChar b (bs ++ rest) = (some c, rest) := by
  have hval : c.toNat < 0xD800 ∨ 0xDFFF < c.toNat ∧ c.toNat < 0x110000 := c.valid
  have hc : Char.ofNat c.toNat = c := Char.ofNat_toNat c
  rw [String.utf8EncodeChar, show c.val.toNat = c.toNat from rfl]
  generalize c.toNat = v at hval hc
  by_cases h₁ : v ≤ 0x7f
  · refine ⟨_, _, if_pos h₁, ?_⟩
    have hb : (UInt8.ofNat v).toNat = v := by rw [UInt8.toNat_ofNat']; omega
    simp only [readChar, hb, List.nil_append, hc]
    rw [if_pos (by omega)]
  · simp only [if_neg h₁]
    by_cases h₂ : v ≤ 0x7ff
    · refine ⟨_, _, if_pos h₂, ?_⟩
      have hb : (UInt8.ofNat (v / 64 % 0x20 + 0xc0)).toNat = v / 64 + 0xc0 := by
        rw [UInt8.toNat_ofNat']; omega
      have hb₁ : (UInt8.ofNat (v % 0x40 + 0x80)).toNat = v % 64 + 0x80 := by
        rw [UInt8.toNat_ofNat']; omega
      simp only [readChar, isCont, hb, hb₁, List.cons_append, List.nil_append]
      rw [if_neg (by omega), if_pos (by omega), if_pos (by simp; omega),
        show (v / 64 + 0xc0) % 0x20 * 0x40 + (v % 64 + 0x80) % 0x40 = v by omega, hc]
    · simp only [if_neg h₂]
      by_cases h₃ : v ≤ 0xffff
      · refine ⟨_, _, if_pos h₃, ?_⟩
        have hb : (UInt8.ofNat (v / 4096 % 0x10 + 0xe0)).toNat = v / 4096 + 0xe0 := by
          rw [UInt8.toNat_ofNat']; omega
        have hb₁ : (UInt8.ofNat (v / 64 % 0x40 + 0x80)).toNat = v / 64 % 64 + 0x80 := by
          rw [UInt8.toNat_ofNat']; omega
        have hb₂ : (UInt8.ofNat (v % 0x40 + 0x80)).toNat = v % 64 + 0x80 := by
          rw [UInt8.toNat_ofNat']; omega
        have hsecond : isSecondOfThree (UInt8.ofNat (v / 4096 % 0x10 + 0xe0))
            (UInt8.ofNat (v / 64 % 0x40 + 0x80)) = true := by
          simp only [isSecondOfThree, isCont, hb, hb₁]
          split_ifs <;> simp <;> omega
        simp only [readChar, hsecond, List.cons_append, List.nil_append, if_true]
        simp only [isCont, hb, hb₁, hb₂]
        rw [if_neg (by omega), if_neg (by omega), if_pos (by omega), if_pos (by simp; omega),
          show (v / 4096 + 0xe0) % 0x10 * 0x1000 + (v / 64 % 64 + 0x80) % 0x40 * 0x40 +
            (v % 64 + 0x80) % 0x40 = v by omega, hc]
      · refine ⟨_, _, if_neg h₃, ?_⟩
        have hb : (UInt8.ofNat (v / 262144 % 0x08 + 0xf0)).toNat = v / 262144 + 0xf0 := by
          rw [UInt8.toNat_ofNat']; omega
        have hb₁ : (UInt8.ofNat (v / 4096 % 0x40 + 0x80)).toNat = v / 4096 % 64 + 0x80 := by
          rw [UInt8.toNat_ofNat']; omega
        have hb₂ : (UInt8.ofNat (v / 64 % 0x40 + 0x80)).toNat = v / 64 % 64 + 0x80 := by
          rw [UInt8.toNat_ofNat']; omega
        have hb₃ : (UInt8.ofNat (v % 0x40 + 0x80)).toNat = v % 64 + 0x80 := by
          rw [UInt8.toNat_ofNat']; omega
        have hsecond : isSecondOfFour (UInt8.ofNat (v / 262144 % 0x08 + 0xf0))
            (UInt8.ofNat (v / 4096 % 0x40 + 0x80)) = true := by
          simp only [isSecondOfFour, isCont, hb, hb₁]
          split_ifs <;> simp <;> omega
        simp only [readChar, hsecond, List.cons_append, List.nil_append, if_true]
        simp only [isCont, hb, hb₁, hb₂, hb₃]
        rw [if_neg (by omega), if_neg (by omega), if_neg (by omega), if_pos (by omega),
          if_pos (by simp; omega), if_pos (by simp; omega),
          show (v / 262144 + 0xf0) % 8 * 0x40000 + (v / 4096 % 64 + 0x80) % 0x40 * 0x1000 +
            (v / 64 % 64 + 0x80) % 0x40 * 0x40 + (v % 64 + 0x80) % 0x40 = v by omega, hc]

/-- Reading an encoded string gives its characters. -/
theorem readAll_flatMap (cs : List Char) :
    ∀ n, (cs.flatMap String.utf8EncodeChar).length ≤ n →
      readAll n (cs.flatMap String.utf8EncodeChar) = cs.map some := by
  induction cs with
  | nil => intro n _; cases n <;> rfl
  | cons c cs ih =>
    intro n hn
    obtain ⟨b, bs, henc, hread⟩ := readChar_encode c (cs.flatMap String.utf8EncodeChar)
    rw [List.flatMap_cons, henc, List.cons_append] at hn ⊢
    cases n with
    | zero => simp at hn
    | succ n =>
      simp only [List.length_cons, List.length_append] at hn
      rw [readAll, hread, ih n (by omega), List.map_cons]

theorem readAll_utf8 (s : String) : readAll (utf8 s).length (utf8 s) = s.toList.map some :=
  readAll_flatMap s.toList _ le_rfl

/-- Strict decoding undoes the encoding, of characters -/
@[simp] theorem charsOfUtf8_flatMap (cs : List Char) :
    charsOfUtf8 (cs.flatMap String.utf8EncodeChar) = some cs := by
  have hall (cs : List Char) : (cs.map some).mapM id = some cs := by
    induction cs with
    | nil => rfl
    | cons c cs ih => simp [ih]
  rw [charsOfUtf8, readAll_flatMap cs _ le_rfl, hall]

/-- and of texts. -/
@[simp] theorem fromUtf8_utf8 (s : String) : fromUtf8 (utf8 s) = some s := by
  rw [fromUtf8, utf8, charsOfUtf8_flatMap, Option.map_some, String.ofList_toList]

/-- Lossy decoding undoes the encoding. -/
@[simp] theorem fromUtf8Lossy_utf8 (s : String) : fromUtf8Lossy (utf8 s) = s := by
  rw [fromUtf8Lossy, readAll_utf8, List.map_map]
  simp [Function.comp_def]

end Text
