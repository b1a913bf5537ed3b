import FiduciaLoadBalance.Text.Str

/-!
# Percent-encoding and form data

Bytes may be written as `%` and two hexadecimal digits.  `unescape` reads them back,
and leaves a `%` alone that begins no escape.  Form data are pairs `name=value`
between `&`, in which moreover `+` stands for a space.

* `unescape_of_spelling` — however a text is spelled, with whichever bytes escaped,
  it is read back as the text.
* `unescape_append_cons` — a byte that is neither `%` nor a digit is read as itself
  wherever it stands.
* `formParam_eq` — a parameter is the value of the first piece that names it.
-/

namespace Text

/-! ## Escapes -/

/-- The byte an escape stands for. -/
def escapedByte (b hi lo : UInt8) : Option UInt8 :=
  if b = 0x25 then
    (toDigit (Char.ofNat hi.toNat)).bind fun h =>
      (toDigit (Char.ofNat lo.toNat)).map fun l => UInt8.ofNat (h * 16 + l)
  else none

/-- Read the escapes back. -/
def unescape : List UInt8 → List UInt8
  | b :: hi :: lo :: rest =>
    match escapedByte b hi lo with
    | some byte => byte :: unescape rest
    | none => b :: unescape (hi :: lo :: rest)
  -- too short to begin an escape
  | b :: rest => b :: unescape rest
  | [] => []

theorem escapedByte_of_ne {b : UInt8} (hb : b ≠ 0x25) (hi lo : UInt8) :
    escapedByte b hi lo = none := if_neg hb

theorem unescape_cons_of_ne {b : UInt8} (hb : b ≠ 0x25) (rest : List UInt8) :
    unescape (b :: rest) = b :: unescape rest := by
  match rest with
  | [] => rfl
  | [_] => rfl
  | hi :: lo :: rest => rw [unescape, escapedByte_of_ne hb]

theorem unescape_escape {hi lo byte : UInt8} (h : escapedByte 0x25 hi lo = some byte)
    (rest : List UInt8) : unescape (0x25 :: hi :: lo :: rest) = byte :: unescape rest := by
  rw [unescape, h]

/-- A byte that is no part of an escape. -/
def Inert (b : UInt8) : Prop := b ≠ 0x25 ∧ toDigit (Char.ofNat b.toNat) = none

theorem Inert.escapedByte_first {b : UInt8} (h : Inert b) (c lo : UInt8) :
    escapedByte c b lo = none := by
  rw [escapedByte, h.2]
  split <;> rfl

theorem Inert.escapedByte_second {b : UInt8} (h : Inert b) (c hi : UInt8) :
    escapedByte c hi b = none := by
  rw [escapedByte, h.2]
  split
  · cases toDigit (Char.ofNat hi.toNat) <;> rfl
  · rfl

/-- **A byte that is no part of an escape** is read as itself, and what precedes and
what follows it apart. -/
theorem unescape_append_cons {b : UInt8} (hb : Inert b) (front rest : List UInt8) :
    unescape (front ++ b :: rest) = unescape front ++ b :: unescape rest := by
  induction front using unescape.induct with
  | case1 c hi lo tail byte hbyte ih =>
    rw [List.cons_append, List.cons_append, List.cons_append, unescape, unescape, hbyte]
    dsimp only
    rw [ih, List.cons_append]
  | case2 c hi lo tail hbyte ih =>
    rw [List.cons_append, List.cons_append, List.cons_append, unescape, unescape, hbyte]
    dsimp only
    rw [← List.cons_append, ← List.cons_append, ih, List.cons_append]
  | case3 c tail hshort ih =>
    match tail with
    | [] =>
      show unescape (c :: b :: rest) = [c] ++ b :: unescape rest
      rw [← unescape_cons_of_ne hb.1]
      match rest with
      | [] => rfl
      | lo :: rest => rw [unescape, hb.escapedByte_first]; rfl
    | [hi] =>
      show unescape (c :: hi :: b :: rest) = [c, hi] ++ b :: unescape rest
      have hnext : unescape (hi :: b :: rest) = hi :: b :: unescape rest := ih
      rw [unescape, hb.escapedByte_second]
      dsimp only
      rw [hnext]
      rfl
    | hi :: lo :: tail => exact absurd rfl (hshort hi lo tail)
  | case4 => exact unescape_cons_of_ne hb.1 rest

/-! ## Spellings -/

/-- Where `+` stands for a space, read it as one. -/
def readPlus (plusAsSpace : Bool) (b : UInt8) : UInt8 :=
  if b = 0x2B ∧ plusAsSpace then 0x20 else b

/-- The first list spells the second: every byte stands for itself, unless it is special,
or is escaped with digits of either case; where `+` stands for a space, a space may be
written so. -/
inductive Spelling (special : List UInt8) (plusAsSpace : Bool) : List UInt8 → List UInt8 → Prop
  | nil : Spelling special plusAsSpace [] []
  | raw {b : UInt8} {spelled bytes : List UInt8} (hb : b ∉ special)
      (h : Spelling special plusAsSpace spelled bytes) :
      Spelling special plusAsSpace (b :: spelled) (b :: bytes)
  | plus {spelled bytes : List UInt8} (hplus : plusAsSpace = true)
      (h : Spelling special plusAsSpace spelled bytes) :
      Spelling special plusAsSpace (0x2B :: spelled) (0x20 :: bytes)
  | escaped {hi lo b : UInt8} {spelled bytes : List UInt8} (hb : escapedByte 0x25 hi lo = some b)
      (h : Spelling special plusAsSpace spelled bytes) :
      Spelling special plusAsSpace (0x25 :: hi :: lo :: spelled) (b :: bytes)

theorem inert_plus : Inert 0x2B := ⟨by decide, by decide⟩

theorem inert_space : Inert 0x20 := ⟨by decide, by decide⟩

theorem readPlus_cases (plusAsSpace : Bool) (b : UInt8) :
    readPlus plusAsSpace b = b ∨ (b = 0x2B ∧ readPlus plusAsSpace b = 0x20) := by
  rw [readPlus]
  split
  · rename_i h
    exact Or.inr ⟨h.1, rfl⟩
  · exact Or.inl rfl

/-- Reading `+` as a space makes and breaks no escape. -/
theorem escapedByte_readPlus (plusAsSpace : Bool) (b hi lo : UInt8) :
    escapedByte (readPlus plusAsSpace b) (readPlus plusAsSpace hi) (readPlus plusAsSpace lo) =
      escapedByte b hi lo := by
  rcases readPlus_cases plusAsSpace b with hb | ⟨rfl, hb⟩
  · rcases readPlus_cases plusAsSpace hi with hhi | ⟨rfl, hhi⟩
    · rcases readPlus_cases plusAsSpace lo with hlo | ⟨rfl, hlo⟩
      · rw [hb, hhi, hlo]
      · rw [hlo, inert_space.escapedByte_second, inert_plus.escapedByte_second]
    · rw [hhi, inert_space.escapedByte_first, inert_plus.escapedByte_first]
  · rw [hb, escapedByte_of_ne (by decide), escapedByte_of_ne (by decide)]

/-- **A spelling is read back**, whichever bytes are escaped. -/
theorem unescape_of_spelling {special : List UInt8} {plusAsSpace : Bool}
    (hpercent : 0x25 ∈ special) (hplus : plusAsSpace = true → 0x2B ∈ special)
    {spelled bytes : List UInt8} (h : Spelling special plusAsSpace spelled bytes) :
    unescape (spelled.map (readPlus plusAsSpace)) = bytes := by
  induction h with
  | nil => rfl
  | @raw b spelled bytes hb h ih =>
    have hne : b ≠ 0x25 := by
      intro heq
      exact hb (heq ▸ hpercent)
    have hself : readPlus plusAsSpace b = b := by
      rw [readPlus, if_neg]
      rintro ⟨rfl, hp⟩
      exact hb (hplus hp)
    rw [List.map_cons, hself, unescape_cons_of_ne hne, ih]
  | plus hp h ih =>
    rw [List.map_cons, readPlus, if_pos ⟨rfl, hp⟩, unescape_cons_of_ne (by decide), ih]
  | @escaped hi lo b spelled bytes hb h ih =>
    have hself : readPlus plusAsSpace 0x25 = 0x25 := if_neg fun h => absurd h.1 (by decide)
    rw [← escapedByte_readPlus plusAsSpace, hself] at hb
    rw [List.map_cons, List.map_cons, List.map_cons, hself, unescape_escape hb, ih]

/-- A special byte that begins no escape and is no digit is in no spelling, except a `+`
for a space. -/
theorem notMem_of_spelling {special : List UInt8} {plusAsSpace : Bool} {c : UInt8}
    (hc : c ∈ special) (hinert : Inert c) (hplus : plusAsSpace = true → c ≠ 0x2B)
    {spelled bytes : List UInt8} (h : Spelling special plusAsSpace spelled bytes) :
    c ∉ spelled := by
  induction h with
  | nil => simp
  | raw hb h ih =>
    rw [List.mem_cons, not_or]
    exact ⟨fun heq => hb (heq ▸ hc), ih⟩
  | plus hp h ih =>
    rw [List.mem_cons, not_or]
    exact ⟨hplus hp, ih⟩
  | @escaped hi lo b spelled bytes hb h ih =>
    have hhi : c ≠ hi := by
      rintro rfl
      rw [hinert.escapedByte_first] at hb
      exact absurd hb (by simp)
    have hlo : c ≠ lo := by
      rintro rfl
      rw [hinert.escapedByte_second] at hb
      exact absurd hb (by simp)
    simp only [List.mem_cons, not_or]
    exact ⟨hinert.1, hhi, hlo, ih⟩

/-! ## Form data -/

/-- A name or a value of form data. -/
def formDecode (s : String) : String := fromUtf8Lossy (unescape ((utf8 s).map (readPlus true)))

/-- The name and the value of one piece; a piece without `=` is a name alone. -/
def formPair (piece : String) : String × String :=
  match splitOnce '=' piece with
  | some (name, value) => (formDecode name, formDecode value)
  | none => (formDecode piece, "")

/-- The pairs of form data, in order; empty pieces are none. -/
def formPairs (data : String) : List (String × String) :=
  ((split '&' data).filter (· ≠ "")).map formPair

/-- The value of the first pair of this name. -/
def formParam (data name : String) : Option String :=
  ((formPairs data).find? (·.1 = name)).map (·.2)

/-- The pieces of form data that name a parameter, in whatever spelling. -/
def formNaming (data name : String) : List String :=
  ((split '&' data).filter (· ≠ "")).filter fun piece => (formPair piece).1 = name

/-- A parameter is the value of the first piece that names it. -/
theorem formParam_eq (data name : String) :
    formParam data name = (formNaming data name).head?.map fun piece => (formPair piece).2 := by
  rw [formParam, formPairs, formNaming, List.find?_map, Option.map_map, List.head?_filter]
  rfl

end Text
