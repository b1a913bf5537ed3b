import FiduciaLoadBalance.Routing
import FiduciaLoadBalance.Text.Form

/-!
# Query parameters as the router and as the node read them

The node reads its query as form data.  The router looks for a piece `name=value`
whose name is written out, and decodes the value.

* `percentDecodeBytes_eq` — the router's decoder is that of form data, byte for byte.
* `queryParam_eq` — the router's answer is the value of the first piece that names the
  parameter plainly.
* `queryParam_reads_form_iff` — when that is the node's answer.
-/

namespace LoadBalance

open Http Text

/-! ## Decoding -/

/-- One turn of the router's decoder. -/
theorem percentDecodeBytes_cons (plusAsSpace : Bool) (b hi lo : UInt8) (rest : Bytes) :
    percentDecodeBytes plusAsSpace (b :: hi :: lo :: rest) =
      (escapedByte b hi lo).elim
        (readPlus plusAsSpace b :: percentDecodeBytes plusAsSpace (hi :: lo :: rest))
        (fun byte => byte :: percentDecodeBytes plusAsSpace rest) := by
  rw [percentDecodeBytes, escapedByte, readPlus]
  by_cases hplus : b = 0x2B ∧ plusAsSpace
  · have hne : b ≠ 0x25 := by
      rw [hplus.1]
      decide
    rw [if_pos hplus, if_pos hplus, if_neg hne, Option.elim_none]
  · rw [if_neg hplus, if_neg hplus]
    by_cases hb : b = 0x25
    · rw [if_pos hb, if_pos hb]
      cases toDigit (Char.ofNat hi.toNat) with
      | none => rfl
      | some h =>
        cases toDigit (Char.ofNat lo.toNat) with
        | none => rfl
        | some l => rfl
    · rw [if_neg hb, if_neg hb, Option.elim_none]

/-- **The router's decoder** reads `+` as a space where it stands for one, and the
escapes. -/
theorem percentDecodeBytes_eq (plusAsSpace : Bool) (bytes : Bytes) :
    percentDecodeBytes plusAsSpace bytes = unescape (bytes.map (readPlus plusAsSpace)) := by
  induction bytes using unescape.induct with
  | case1 b hi lo rest byte hbyte ih =>
    rw [percentDecodeBytes_cons, hbyte]
    rw [← escapedByte_readPlus plusAsSpace] at hbyte
    rw [List.map_cons, List.map_cons, List.map_cons, unescape, hbyte, Option.elim_some, ih]
  | case2 b hi lo rest hbyte ih =>
    rw [percentDecodeBytes_cons, hbyte]
    rw [← escapedByte_readPlus plusAsSpace] at hbyte
    rw [List.map_cons, List.map_cons, List.map_cons, unescape, hbyte, Option.elim_none, ih]
    rfl
  | case3 b rest hshort ih =>
    rcases rest with _ | ⟨hi, _ | ⟨lo, rest⟩⟩
    · rfl
    · rfl
    · exact absurd rfl (hshort hi lo rest)
  | case4 => rfl

/-- A query value is decoded as the node decodes it. -/
theorem percentDecodeQuery_eq (s : String) : percentDecodeQuery s = formDecode s := by
  rw [percentDecodeQuery, percentDecode, percentDecodeBytes_eq, formDecode]

/-! ## Looking a parameter up -/

/-- This piece is the name written out, and a value. -/
def namesPlainly (name piece : String) : Bool := (splitOnce '=' piece).map Prod.fst = some name

theorem pairValue_eq (name piece : String) :
    pairValue name piece =
      if namesPlainly name piece then some (formPair piece).2 else none := by
  rw [pairValue, namesPlainly, formPair]
  cases splitOnce '=' piece with
  | none => simp
  | some kv =>
    by_cases hname : kv.1 = name
    · simp [hname, percentDecodeQuery_eq]
    · simp [hname]

/-- A name that form data spell as itself is named by what names it plainly. -/
theorem formPair_of_namesPlainly {name piece : String} (hname : formDecode name = name)
    (h : namesPlainly name piece = true) : piece ≠ "" ∧ (formPair piece).1 = name := by
  rw [namesPlainly, decide_eq_true_eq, Option.map_eq_some_iff] at h
  obtain ⟨kv, hsplit, rfl⟩ := h
  refine ⟨?_, ?_⟩
  · rintro rfl
    exact absurd hsplit (by simp [splitOnce])
  · rw [formPair, hsplit]
    exact hname

theorem findSome?_pairValue (name : String) (pieces : List String) :
    pieces.findSome? (pairValue name) =
      (pieces.find? (namesPlainly name)).map fun piece => (formPair piece).2 := by
  induction pieces with
  | nil => rfl
  | cons piece pieces ih =>
    rw [List.findSome?_cons, pairValue_eq]
    by_cases hplain : namesPlainly name piece = true
    · rw [if_pos hplain, List.find?_cons_of_pos hplain, Option.map_some]
    · rw [if_neg hplain, List.find?_cons_of_neg hplain]
      exact ih

/-- **The router's answer**: the value of the first piece that names the parameter
plainly. -/
theorem queryParam_eq {name : String} (hname : formDecode name = name) (uri : Uri) :
    queryParam uri name =
      ((formNaming (uri.query.getD "") name).find? (namesPlainly name)).map fun piece =>
        (formPair piece).2 := by
  have hnaming : ∀ data, (formNaming data name).find? (namesPlainly name) =
      (split '&' data).find? (namesPlainly name) := by
    intro data
    rw [formNaming, List.find?_filter, List.find?_filter]
    congr 1
    funext piece
    cases hplain : namesPlainly name piece with
    | false => simp
    | true => simp [formPair_of_namesPlainly hname hplain]
  rw [hnaming, queryParam]
  cases uri.query with
  | none =>
    have hempty : namesPlainly name "" = false := by
      rw [namesPlainly, splitOnce]
      simp
    show none = _
    rw [Option.getD_none, show split '&' "" = [""] from rfl, List.find?_cons, hempty]
    rfl
  | some query => rw [Option.bind_some, Option.getD_some, findSome?_pairValue]

/-! ## The node's answer -/

theorem formDecode_key : formDecode "key" = "key" := by decide +kernel

theorem formDecode_name : formDecode "name" = "name" := by decide +kernel

/-- **When the router reads a query as the node does**: if a piece names the parameter at
all, in whatever spelling, then some piece names it plainly, and the first that does has
the value of the first piece that names it. -/
theorem queryParam_reads_form_iff {name : String} (hname : name = "key" ∨ name = "name")
    (uri : Uri) :
    queryParam uri name = formParam (uri.query.getD "") name ↔
      ∀ first, (formNaming (uri.query.getD "") name).head? = some first →
        ∃ plain, (formNaming (uri.query.getD "") name).find? (namesPlainly name) = some plain ∧
          (formPair plain).2 = (formPair first).2 := by
  have hself : formDecode name = name := by
    rcases hname with rfl | rfl
    · exact formDecode_key
    · exact formDecode_name
  rw [queryParam_eq hself, formParam_eq]
  cases formNaming (uri.query.getD "") name with
  | nil => simp
  | cons first rest =>
    rw [List.head?_cons, Option.map_some, Option.map_eq_some_iff]
    constructor
    · intro h first' heq
      rw [← Option.some.inj heq]
      exact h
    · intro h
      exact h first rfl

namespace Reference

/-- `/v1/kv` with a query. -/
def kvUri (query : String)
    (hquery : (query.toList.all fun c => decide (0x20 < c.toNat) && c != '#') = true) : Uri :=
  ⟨none, none, "/v1/kv", some query, by decide, hquery⟩

end Reference

/-- The value is decoded, a `=` in it stays, and the second pair is not looked at. -/
theorem queryParam_reads_form_twice :
    queryParam (Reference.kvUri "a&key=x+%3d=&key=y" (by decide)) "key" =
      formParam "a&key=x+%3d=&key=y" "key" := by
  have hnaming : formNaming "a&key=x+%3d=&key=y" "key" = ["key=x+%3d=", "key=y"] := by
    decide +kernel
  have hplain : namesPlainly "key" "key=x+%3d=" = true := by decide +kernel
  refine (queryParam_reads_form_iff (Or.inl rfl) (Reference.kvUri _ (by decide))).2 ?_
  intro first hfirst
  refine ⟨first, ?_, rfl⟩
  rw [Reference.kvUri, Option.getD_some, hnaming] at hfirst ⊢
  rw [← Option.some.inj hfirst, List.find?_cons_of_pos hplain]

/-- **A parameter without a value, or with an escape in its name**, is there for the node
and not for the router. -/
theorem not_queryParam_reads_form :
    (queryParam (Reference.kvUri "key" (by decide)) "key" = none ∧
      formParam "key" "key" = some "") ∧
    (queryParam (Reference.kvUri "k%65y=1" (by decide)) "key" = none ∧
      formParam "k%65y=1" "key" = some "1") := by
  decide +kernel

end LoadBalance
