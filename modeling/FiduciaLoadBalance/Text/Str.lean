import FiduciaLoadBalance.Text.Utf8
import Mathlib.Data.List.DropRight

/-!
# String operations

The operations on text that header, path and query handling is made of, each as
a function of the characters: trimming, splitting, prefixes and suffixes, ASCII
case folding, and hexadecimal spelling of bytes.

* `mem_split_iff` — the pieces of `split` are exactly the maximal runs between
  separators; `filter_split_trimMatches` — trimming separators first takes away
  empty pieces only.
* `strip_prefix_eq_some`, `strip_suffix_eq_some` — what stripping leaves.
* `bytesOfHex_toHex` — hexadecimal spelling is undone by its reader, so it is
  injective (`toHex_injective`); `bytesOfHex_eq_some_iff` — nothing else is read.
-/

namespace Text

/-! ## Trimming -/

/-- The characters with the Unicode property `White_Space`. -/
def isWhitespace (c : Char) : Bool :=
  let n := c.toNat
  (0x9 ≤ n ∧ n ≤ 0xD) ∨ n = 0x20 ∨ n = 0x85 ∨ n = 0xA0 ∨ n = 0x1680 ∨
    (0x2000 ≤ n ∧ n ≤ 0x200A) ∨ n = 0x2028 ∨ n = 0x2029 ∨ n = 0x202F ∨ n = 0x205F ∨ n = 0x3000

/-- The characters with the Unicode category `Cc`. -/
def isControl (c : Char) : Bool := c.toNat < 0x20 ∨ (0x7F ≤ c.toNat ∧ c.toNat ≤ 0x9F)

/-- Drop the characters satisfying `p` from the front. -/
def trimStartMatches (p : Char → Bool) (s : String) : String :=
  String.ofList (s.toList.dropWhile p)

/-- Drop the characters satisfying `p` from the end. -/
def trimEndMatches (p : Char → Bool) (s : String) : String :=
  String.ofList (s.toList.reverse.dropWhile p).reverse

/-- Drop the characters satisfying `p` from both ends. -/
def trimMatches (p : Char → Bool) (s : String) : String :=
  trimEndMatches p (trimStartMatches p s)

/-- Drop white space from both ends. -/
def trim (s : String) : String := trimMatches isWhitespace s

theorem dropWhile_of_forall_not {p : Char → Bool} {l : List Char} (h : ∀ c ∈ l, p c = false) :
    l.dropWhile p = l := by
  cases l with
  | nil => rfl
  | cons c l => simp [h c]

/-- Nothing is trimmed where nothing satisfies `p`. -/
theorem trimMatches_of_forall_not {p : Char → Bool} {s : String}
    (h : ∀ c ∈ s.toList, p c = false) : trimMatches p s = s := by
  rw [trimMatches, trimStartMatches, dropWhile_of_forall_not h, String.ofList_toList,
    trimEndMatches, dropWhile_of_forall_not fun c hc => h c (List.mem_reverse.1 hc),
    List.reverse_reverse, String.ofList_toList]

/-- What ends in one trimmed character after one that is kept. -/
theorem trimEndMatches_append_singleton {p : Char → Bool} {s t : String} {c : Char}
    (hc : p c = true) (ht : t ≠ "") (h : ∀ c' ∈ t.toList, p c' = false) :
    trimEndMatches p (s ++ t ++ String.singleton c) = s ++ t := by
  obtain ⟨l, b, hl⟩ : ∃ l b, t.toList = l ++ [b] := by
    rcases List.eq_nil_or_concat t.toList with hnil | ⟨l, b, hl⟩
    · exact absurd (String.toList_eq_nil_iff.1 hnil) ht
    · exact ⟨l, b, by rw [hl, List.concat_eq_append]⟩
  have hb : p b = false := h b (by simp [hl])
  refine String.toList_injective ?_
  simp [trimEndMatches, hl, hc, hb]

/-- What ends in a text without trimmed characters is trimmed in front only. -/
theorem trimMatches_append_of_forall_not {p : Char → Bool} {s t : String} (ht : t ≠ "")
    (h : ∀ c ∈ t.toList, p c = false) : trimMatches p (s ++ t) = trimStartMatches p s ++ t := by
  have hstart : (s.toList ++ t.toList).dropWhile p = s.toList.dropWhile p ++ t.toList := by
    rw [List.dropWhile_append, dropWhile_of_forall_not h]
    split
    · rename_i hempty
      rw [List.isEmpty_iff.1 hempty, List.nil_append]
    · rfl
  have hend : (s.toList.dropWhile p ++ t.toList).reverse.dropWhile p =
      (s.toList.dropWhile p ++ t.toList).reverse := by
    rw [List.reverse_append]
    cases hl : t.toList.reverse with
    | nil => exact absurd (String.toList_eq_nil_iff.1 (List.reverse_eq_nil_iff.1 hl)) ht
    | cons c l => simp [h c (List.mem_reverse.1 (by simp [hl]))]
  refine String.toList_injective ?_
  simp only [trimMatches, trimStartMatches, trimEndMatches, String.toList_append,
    String.toList_ofList, hstart, hend, List.reverse_reverse]

theorem toList_trimMatches (p : Char → Bool) (s : String) :
    (trimMatches p s).toList = (s.toList.dropWhile p).rdropWhile p := by
  simp [trimMatches, trimStartMatches, trimEndMatches, List.rdropWhile]

/-- Trimming leaves nothing to trim. -/
theorem trimMatches_idem (p : Char → Bool) (s : String) :
    trimMatches p (trimMatches p s) = trimMatches p s := by
  have hstart : ((s.toList.dropWhile p).rdropWhile p).dropWhile p =
      (s.toList.dropWhile p).rdropWhile p := by
    cases hl : (s.toList.dropWhile p).rdropWhile p with
    | nil => rfl
    | cons c l =>
      obtain ⟨rest, hrest⟩ : c :: l <+: s.toList.dropWhile p := hl ▸ List.rdropWhile_prefix _ _
      have hne : s.toList.dropWhile p ≠ [] := by simp [← hrest]
      have hc := List.head_dropWhile_not p hne
      simp only [← hrest, List.cons_append, List.head_cons] at hc
      exact List.dropWhile_cons_of_neg (by simp [hc])
  refine String.toList_injective ?_
  rw [toList_trimMatches, toList_trimMatches, hstart, List.rdropWhile_idempotent]

/-! ## Prefixes and suffixes -/

def startsWith (s pre : String) : Bool := pre.toList.isPrefixOf s.toList

/-- What follows the prefix `pre`, if `s` starts with it. -/
def stripPrefix (s pre : String) : Option String :=
  if startsWith s pre then some (String.ofList (s.toList.drop pre.toList.length)) else none

/-- What precedes the suffix `suf`, if `s` ends with it. -/
def stripSuffix (s suf : String) : Option String :=
  if suf.toList.isSuffixOf s.toList then
    some (String.ofList (s.toList.take (s.toList.length - suf.toList.length)))
  else none

/-- Trimming adds nothing. -/
theorem mem_of_mem_trimMatches {p : Char → Bool} {s : String} {c : Char}
    (h : c ∈ (trimMatches p s).toList) : c ∈ s.toList := by
  rw [toList_trimMatches] at h
  exact (List.dropWhile_sublist p).subset ((List.rdropWhile_prefix p _).subset h)

/-- Trimming takes away only what it trims. -/
theorem mem_trimMatches_of_not {p : Char → Bool} {s : String} {c : Char} (hc : p c = false)
    (h : c ∈ s.toList) : c ∈ (trimMatches p s).toList := by
  have hdrop : ∀ {l : List Char}, c ∈ l → c ∈ l.dropWhile p := by
    intro l hl
    rw [← List.takeWhile_append_dropWhile (p := p) (l := l), List.mem_append] at hl
    rcases hl with hl | hl
    · exact absurd (List.mem_takeWhile_imp hl) (by simp [hc])
    · exact hl
  rw [toList_trimMatches, List.rdropWhile, List.mem_reverse]
  exact hdrop (List.mem_reverse.2 (hdrop h))

theorem startsWith_iff {s pre : String} : startsWith s pre ↔ ∃ rest, s = pre ++ rest := by
  rw [startsWith, List.isPrefixOf_iff_prefix]
  constructor
  · rintro ⟨rest, h⟩
    exact ⟨String.ofList rest, String.toList_injective (by simp [h])⟩
  · rintro ⟨rest, rfl⟩
    simp

theorem strip_prefix_eq_some {s pre rest : String} :
    stripPrefix s pre = some rest ↔ s = pre ++ rest := by
  constructor
  · intro h
    rw [stripPrefix] at h
    split at h
    · rename_i hs
      obtain ⟨t, rfl⟩ := startsWith_iff.1 hs
      rw [← Option.some.inj h]
      simp
    · exact absurd h (by simp)
  · rintro rfl
    rw [stripPrefix, if_pos (startsWith_iff.2 ⟨rest, rfl⟩)]
    simp

theorem strip_suffix_eq_some {s suf rest : String} :
    stripSuffix s suf = some rest ↔ s = rest ++ suf := by
  constructor
  · intro h
    rw [stripSuffix] at h
    split at h
    · rename_i hs
      obtain ⟨t, ht⟩ := List.isSuffixOf_iff_suffix.1 hs
      rw [← Option.some.inj h]
      refine String.toList_injective ?_
      simp [← ht]
    · exact absurd h (by simp)
  · rintro rfl
    rw [stripSuffix, if_pos (List.isSuffixOf_iff_suffix.2 (by simp))]
    simp

/-! ## Splitting -/

/-- The pieces of `s` between the separators `c`. -/
def split (c : Char) (s : String) : List String := (s.toList.splitOn c).map String.ofList

/-- What precedes and what follows the first `c`. -/
def splitOnce (c : Char) (s : String) : Option (String × String) :=
  match s.toList.dropWhile (· != c) with
  | [] => none
  | _ :: rest => some (String.ofList (s.toList.takeWhile (· != c)), String.ofList rest)

/-- What precedes and what follows the first white space. -/
def splitOnceWhitespace (s : String) : Option (String × String) :=
  match s.toList.dropWhile fun c => !isWhitespace c with
  | [] => none
  | _ :: rest =>
    some (String.ofList (s.toList.takeWhile fun c => !isWhitespace c), String.ofList rest)

/-- The pieces of `s` separated by white space. -/
def splitWhitespace (s : String) : List String :=
  ((s.toList.splitOnP isWhitespace).filter (· ≠ [])).map String.ofList

/-- What is joined by spaces is split again. -/
theorem splitWhitespace_intercalate {pieces : List String}
    (h : ∀ piece ∈ pieces, piece ≠ "" ∧ ∀ c ∈ piece.toList, isWhitespace c = false) :
    splitWhitespace (" ".intercalate pieces) = pieces := by
  induction pieces with
  | nil => simp [splitWhitespace]
  | cons piece pieces ih =>
    obtain ⟨⟨hne, hpiece⟩, hrest⟩ := List.forall_mem_cons.1 h
    have hne' : piece.toList ≠ [] := fun hnil => hne (String.toList_eq_nil_iff.1 hnil)
    cases pieces with
    | nil => simp [splitWhitespace, List.splitOnP_eq_singleton hpiece, hne]
    | cons next pieces =>
      have htext : (" ".intercalate (piece :: next :: pieces)).toList =
          piece.toList ++ ' ' :: (" ".intercalate (next :: pieces)).toList := by
        simp
      have hnext := ih hrest
      unfold splitWhitespace at hnext ⊢
      rw [htext, List.splitOnP_append_cons_of_forall_mem hpiece ' ' (by rfl),
        List.filter_cons_of_pos (by simpa using hne), List.map_cons, hnext, String.ofList_toList]

/-- A piece of a list between separators: it holds none, and each of its ends is an
end of the list or next to a separator. -/
def IsPiece {α : Type} (a : α) (l piece : List α) : Prop :=
  a ∉ piece ∧ ∃ pre post, l = pre ++ piece ++ post ∧
    (pre = [] ∨ ∃ pre', pre = pre' ++ [a]) ∧ (post = [] ∨ ∃ post', post = a :: post')

/-- Two lists cut at their first `a` are equal only piece by piece. -/
theorem append_cons_inj_of_first {α : Type} {a : α} {l l' rest rest' : List α} (h : a ∉ l)
    (h' : a ∉ l') (heq : l ++ a :: rest = l' ++ a :: rest') : l = l' ∧ rest = rest' := by
  induction l generalizing l' with
  | nil =>
    cases l' with
    | nil => exact ⟨rfl, (List.cons.inj heq).2⟩
    | cons b l' => exact absurd (by simp [(List.cons.inj heq).1]) h'
  | cons b l ih =>
    cases l' with
    | nil => exact absurd (by simp [(List.cons.inj heq).1]) h
    | cons b' l' =>
      obtain ⟨rfl, htl⟩ := List.cons.inj heq
      obtain ⟨rfl, hrest⟩ := ih (fun hm => h (by simp [hm])) (fun hm => h' (by simp [hm])) htl
      exact ⟨rfl, hrest⟩

theorem isPiece_of_notMem {α : Type} {a : α} {l piece : List α} (h : a ∉ l) :
    IsPiece a l piece ↔ piece = l := by
  constructor
  · rintro ⟨-, pre, post, rfl, hpre, hpost⟩
    have hpre' : pre = [] := hpre.resolve_right fun ⟨pre', hp⟩ => h (by simp [hp])
    have hpost' : post = [] := hpost.resolve_right fun ⟨post', hp⟩ => h (by simp [hp])
    simp [hpre', hpost']
  · rintro rfl
    exact ⟨h, [], [], by simp, Or.inl rfl, Or.inl rfl⟩

/-- The pieces of a list are what precedes its first separator and the pieces of
what follows it. -/
theorem isPiece_append_cons {α : Type} {a : α} {front rest piece : List α} (h : a ∉ front) :
    IsPiece a (front ++ a :: rest) piece ↔ piece = front ∨ IsPiece a rest piece := by
  constructor
  · rintro ⟨hp, pre, post, heq, hpre, hpost⟩
    rcases hpre with rfl | ⟨pre', rfl⟩
    · rcases hpost with rfl | ⟨post', rfl⟩
      · rw [List.nil_append, List.append_nil] at heq
        exact absurd (by simp [← heq]) hp
      · rw [List.nil_append] at heq
        exact Or.inl (append_cons_inj_of_first h hp heq).1.symm
    · right
      have heq' : front ++ a :: rest = pre' ++ a :: (piece ++ post) := by simpa using heq
      rcases List.append_eq_append_iff.1 heq' with ⟨mid, rfl, hmid⟩ | ⟨mid, rfl, hmid⟩
      · cases mid with
        | nil =>
          obtain ⟨-, rfl⟩ := List.cons.inj hmid
          exact ⟨hp, [], post, by simp, Or.inl rfl, hpost⟩
        | cons b mid =>
          obtain ⟨rfl, rfl⟩ := List.cons.inj hmid
          exact ⟨hp, mid ++ [a], post, by simp, Or.inr ⟨mid, rfl⟩, hpost⟩
      · cases mid with
        | nil =>
          obtain ⟨-, rfl⟩ := List.cons.inj hmid
          exact ⟨hp, [], post, by simp, Or.inl rfl, hpost⟩
        | cons b mid =>
          obtain ⟨rfl, -⟩ := List.cons.inj hmid
          exact absurd (by simp) h
  · rintro (rfl | ⟨hp, pre, post, rfl, hpre, hpost⟩)
    · exact ⟨h, [], a :: rest, by simp, Or.inl rfl, Or.inr ⟨rest, rfl⟩⟩
    · refine ⟨hp, front ++ a :: pre, post, by simp, Or.inr ?_, hpost⟩
      rcases hpre with rfl | ⟨pre', rfl⟩
      · exact ⟨front, rfl⟩
      · exact ⟨front ++ a :: pre', by simp⟩

theorem mem_splitOn_iff {α : Type} [DecidableEq α] {a : α} {l piece : List α} :
    piece ∈ l.splitOn a ↔ IsPiece a l piece := by
  induction hn : l.length using Nat.strong_induction_on generalizing l with
  | _ n ih =>
    by_cases ha : a ∈ l
    · obtain ⟨front, rest, rfl, hfront⟩ := List.eq_append_cons_of_mem ha
      rw [List.splitOn_append_cons_self_of_not_mem hfront, List.mem_cons,
        isPiece_append_cons hfront, ih rest.length (by simp [← hn]; omega) rfl]
    · rw [List.splitOn_eq_singleton ha, List.mem_singleton, isPiece_of_notMem ha]

/-- **The pieces of `split`** are the maximal runs between separators. -/
theorem mem_split_iff {c : Char} {s piece : String} :
    piece ∈ split c s ↔ IsPiece c s.toList piece.toList := by
  rw [split, List.mem_map, ← mem_splitOn_iff]
  constructor
  · rintro ⟨l, hl, rfl⟩
    simpa using hl
  · intro h
    exact ⟨_, h, by simp⟩

/-- The pieces before and after a separator. -/
theorem split_append (c : Char) (s t : String) :
    split c (s ++ String.singleton c ++ t) = split c s ++ split c t := by
  simp [split, List.splitOn_append_cons_self]

theorem filter_splitOn_dropWhile {α : Type} [DecidableEq α] (a : α) (l : List α) :
    ((l.dropWhile (· == a)).splitOn a).filter (· ≠ []) = (l.splitOn a).filter (· ≠ []) := by
  induction l with
  | nil => rfl
  | cons b l ih =>
    by_cases hb : b = a
    · subst hb
      have hsplit := List.splitOn_append_cons_self (a := b) [] l
      rw [List.nil_append] at hsplit
      rw [List.dropWhile_cons_of_pos (by simp), ih, hsplit, List.splitOn_nil,
        List.singleton_append, List.filter_cons_of_neg (by simp)]
    · rw [List.dropWhile_cons_of_neg (by simpa using hb)]

theorem filter_splitOn_rdropWhile {α : Type} [DecidableEq α] (a : α) (l : List α) :
    ((l.rdropWhile (· == a)).splitOn a).filter (· ≠ []) = (l.splitOn a).filter (· ≠ []) := by
  induction l using List.reverseRecOn with
  | nil => rfl
  | append_singleton l b ih =>
    by_cases hb : b = a
    · subst hb
      rw [List.rdropWhile_concat_pos _ _ _ (by simp), ih, List.splitOn_append_cons_self,
        List.splitOn_nil, List.filter_append, List.filter_cons_of_neg (by simp),
        List.filter_nil, List.append_nil]
    · rw [List.rdropWhile_concat_neg _ _ _ (by simpa using hb)]

theorem filter_split (c : Char) (s : String) :
    (split c s).filter (· ≠ "") = ((s.toList.splitOn c).filter (· ≠ [])).map String.ofList := by
  rw [split, List.filter_map]
  congr 2
  funext l
  simp [← String.toList_eq_nil_iff]

/-- Trimming separators takes no piece away but empty ones. -/
theorem filter_split_trimMatches (c : Char) (s : String) :
    (split c (trimMatches (· == c) s)).filter (· ≠ "") = (split c s).filter (· ≠ "") := by
  rw [filter_split, filter_split, toList_trimMatches, filter_splitOn_rdropWhile,
    filter_splitOn_dropWhile]
/-! ## ASCII case -/

/-- Fold the ASCII capitals; other characters stay. -/
def toAsciiLowercase (s : String) : String := String.ofList (s.toList.map Char.toLower)

def eqIgnoreAsciiCase (s t : String) : Bool := toAsciiLowercase s == toAsciiLowercase t

theorem toLower_cases (c : Char) :
    c.toLower = c ∨ (65 ≤ c.toNat ∧ c.toNat ≤ 90 ∧ c.toLower = Char.ofNat (c.toNat + 32)) := by
  by_cases h : c.isUpper
  · have hrange : 65 ≤ c.val ∧ c.val ≤ 90 := by simpa [Char.isUpper] using h
    exact Or.inr ⟨UInt32.le_iff_toNat_le.1 hrange.1, UInt32.le_iff_toNat_le.1 hrange.2,
      Char.toLower_eq_of_isUpper h⟩
  · exact Or.inl (Char.toLower_eq_of_not_isUpper h)

/-- Only a capital changes when case is folded. -/
theorem toLower_eq_iff {c d : Char} (hd : ∀ n, 65 ≤ n → n ≤ 90 → Char.ofNat (n + 32) ≠ d)
    (hself : d.toLower = d) : c.toLower = d ↔ c = d := by
  constructor
  · intro h
    rcases toLower_cases c with hc | ⟨h₁, h₂, hc⟩
    · exact hc.symm.trans h
    · exact absurd (hc.symm.trans h) (hd c.toNat h₁ h₂)
  · rintro rfl
    exact hself

/-! ## Hexadecimal -/

/-- The digit `n < 16`, in lower case. -/
def hexDigit (n : ℕ) : Char :=
  if n < 10 then Char.ofNat (48 + n) else Char.ofNat (87 + n)

/-- The value of a hexadecimal digit of either case. -/
def toDigit (c : Char) : Option ℕ :=
  let n := c.toNat
  if 48 ≤ n ∧ n ≤ 57 then some (n - 48)
  else if 97 ≤ n ∧ n ≤ 102 then some (n - 87)
  else if 65 ≤ n ∧ n ≤ 70 then some (n - 55)
  else none

theorem hexDigit_lt : ∀ n < 16, (hexDigit n).toNat < 128 := by decide

theorem toDigit_hexDigit : ∀ n < 16, toDigit (hexDigit n) = some n := by decide

/-- The two digits of a byte. -/
def hexOfByte (b : UInt8) : List Char := [hexDigit (b.toNat / 16), hexDigit (b.toNat % 16)]

/-- Bytes spelled in hexadecimal, two digits a byte, high digit first. -/
def toHex (bytes : List UInt8) : String := String.ofList (bytes.flatMap hexOfByte)

/-- The bytes spelled by pairs of hexadecimal digits; an odd digit out or anything
else is an error. -/
def bytesOfHex : List Char → Option (List UInt8)
  | [] => some []
  | [_] => none
  | hi :: lo :: rest => do
    let h ← toDigit hi
    let l ← toDigit lo
    let out ← bytesOfHex rest
    return UInt8.ofNat (h * 16 + l) :: out

theorem toDigit_lt {c : Char} {d : ℕ} (h : toDigit c = some d) : c.toNat < 128 ∧ d < 16 := by
  rw [toDigit] at h
  split_ifs at h <;> obtain rfl := Option.some.inj h <;> omega

theorem toDigit_ascii : ∀ n < 128, ∀ d < 16,
    toDigit (Char.ofNat n) = some d ↔ (Char.ofNat n).toLower = hexDigit d := by decide +kernel

/-- The digits of value `d` are its lower-case one and the capital of it. -/
theorem toDigit_eq_some_iff {c : Char} {d : ℕ} :
    toDigit c = some d ↔ d < 16 ∧ c.toLower = hexDigit d := by
  have hascii : c.toNat < 128 → d < 16 → (toDigit c = some d ↔ c.toLower = hexDigit d) := by
    intro hc hd
    have := toDigit_ascii c.toNat hc d hd
    rwa [Char.ofNat_toNat] at this
  constructor
  · intro h
    obtain ⟨hc, hd⟩ := toDigit_lt h
    exact ⟨hd, (hascii hc hd).1 h⟩
  · rintro ⟨hd, h⟩
    refine (hascii ?_ hd).2 h
    rcases toLower_cases c with hc | ⟨-, hle, -⟩
    · rw [← hc, h]
      exact hexDigit_lt d hd
    · omega

@[simp] theorem toHex_nil : toHex [] = "" := rfl

theorem toList_toHex (bytes : List UInt8) : (toHex bytes).toList = bytes.flatMap hexOfByte := by
  simp [toHex]

theorem bytesOfHex_flatMap (bytes : List UInt8) :
    bytesOfHex (bytes.flatMap hexOfByte) = some bytes := by
  induction bytes with
  | nil => rfl
  | cons b bytes ih =>
    have hlt : b.toNat < 256 := UInt8.toNat_lt b
    have hb : UInt8.ofNat (b.toNat / 16 * 16 + b.toNat % 16) = b := by
      rw [Nat.div_add_mod', UInt8.ofNat_toNat]
    rw [List.flatMap_cons, hexOfByte, List.cons_append, List.cons_append, List.nil_append,
      bytesOfHex, toDigit_hexDigit _ (by omega), toDigit_hexDigit _ (Nat.mod_lt _ (by omega)), ih]
    exact congrArg (fun x => some (x :: bytes)) hb

/-- Reading hexadecimal undoes writing it. -/
theorem bytesOfHex_toHex (bytes : List UInt8) : bytesOfHex (toHex bytes).toList = some bytes := by
  rw [toList_toHex, bytesOfHex_flatMap]

/-- **What reads as hexadecimal** is the spelling of the bytes read, in either case. -/
theorem bytesOfHex_eq_some_iff {l : List Char} {bytes : List UInt8} :
    bytesOfHex l = some bytes ↔ l.map Char.toLower = bytes.flatMap hexOfByte := by
  have hbyte : ∀ {h l : ℕ} {b : UInt8}, h < 16 → l < 16 →
      (UInt8.ofNat (h * 16 + l) = b ↔ h = b.toNat / 16 ∧ l = b.toNat % 16) := by
    intro h l b hh hl
    have hlt : b.toNat < 256 := UInt8.toNat_lt b
    rw [← UInt8.toNat_inj, UInt8.toNat_ofNat']
    omega
  induction l using bytesOfHex.induct generalizing bytes with
  | case1 =>
    cases bytes with
    | nil => simp [bytesOfHex]
    | cons b bytes => simp [bytesOfHex, hexOfByte]
  | case2 c =>
    cases bytes with
    | nil => simp [bytesOfHex]
    | cons b bytes => simp [bytesOfHex, hexOfByte]
  | case3 hi lo rest ih =>
    cases bytes with
    | nil => simp [bytesOfHex, Option.bind_eq_some_iff]
    | cons b bytes =>
      have hlt : b.toNat < 256 := UInt8.toNat_lt b
      simp only [bytesOfHex, bind_pure_comp, Option.bind_eq_bind, Option.bind_eq_some_iff,
        Option.map_eq_map, Option.map_eq_some_iff, List.map_cons, List.flatMap_cons, hexOfByte,
        List.cons_append, List.nil_append, List.cons.injEq, ← ih]
      constructor
      · rintro ⟨h, hhi, d, hlo, bytes', hrest, hb, rfl⟩
        obtain ⟨hh, hhi⟩ := toDigit_eq_some_iff.1 hhi
        obtain ⟨hd, hlo⟩ := toDigit_eq_some_iff.1 hlo
        obtain ⟨rfl, rfl⟩ := (hbyte hh hd).1 hb
        exact ⟨hhi, hlo, hrest⟩
      · rintro ⟨hhi, hlo, hrest⟩
        have hh : b.toNat / 16 < 16 := by omega
        have hd : b.toNat % 16 < 16 := by omega
        exact ⟨_, toDigit_eq_some_iff.2 ⟨hh, hhi⟩, _, toDigit_eq_some_iff.2 ⟨hd, hlo⟩, bytes,
          hrest, (hbyte hh hd).2 ⟨rfl, rfl⟩, rfl⟩

theorem toHex_injective : Function.Injective toHex := by
  intro b b' h
  have := congrArg (fun s => bytesOfHex s.toList) h
  simpa only [bytesOfHex_toHex, Option.some.injEq] using this

theorem hexDigit_ne_slash : ∀ n < 16, hexDigit n ≠ '/' := by decide

theorem mem_toHex {bytes : List UInt8} {c : Char} (hc : c ∈ (toHex bytes).toList) :
    ∃ n < 16, c = hexDigit n := by
  rw [toList_toHex, List.mem_flatMap] at hc
  obtain ⟨b, -, hc⟩ := hc
  have hlt : b.toNat < 256 := UInt8.toNat_lt b
  rcases List.mem_pair.1 hc with rfl | rfl
  · exact ⟨_, by omega, rfl⟩
  · exact ⟨_, Nat.mod_lt _ (by omega), rfl⟩

/-- A slash after hexadecimal text is the first one. -/
theorem slash_notMem_toHex (bytes : List UInt8) : '/' ∉ (toHex bytes).toList := by
  intro hc
  obtain ⟨n, hn, heq⟩ := mem_toHex hc
  exact hexDigit_ne_slash n hn heq.symm

theorem toHex_ascii (bytes : List UInt8) : ∀ c ∈ (toHex bytes).toList, c.toNat < 128 := by
  intro c hc
  obtain ⟨n, hn, rfl⟩ := mem_toHex hc
  exact hexDigit_lt n hn

end Text
