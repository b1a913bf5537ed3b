import Mathlib

/-!
# JSON values

`Value` is a JSON value as an untyped document library keeps it.  An object is an
association list; `Value.ofFields` builds one the way an ordered map does — each
key once, in key order, the last value given for it.

* `Value.get?_ofFields` — reading a field of a built object.
* `Value.Regular` — the values built from nothing but integers, text, truth values,
  lists and ordered objects: those a writer and a reader agree on exactly.
-/

namespace Json

/-- A JSON number: a natural or a negative integer of 64 bits, or a
floating-point number by its bits. -/
inductive Number : Type
  | posInt (n : UInt64)
  | negInt (n : UInt64)
  | float (bits : UInt64)
deriving DecidableEq, Repr

/-- A JSON value. -/
inductive Value : Type
  | null
  | bool (b : Bool)
  | number (n : Number)
  | string (s : String)
  | array (xs : List Value)
  | object (fields : List (String × Value))
deriving Repr

/-! ## Equality -/

namespace Value

mutual

/-- Are two values the same? -/
def beq : Value → Value → Bool
  | .null, .null => true
  | .bool a, .bool b => a == b
  | .number a, .number b => a == b
  | .string a, .string b => a == b
  | .array xs, .array ys => beqElements xs ys
  | .object xs, .object ys => beqFields xs ys
  | _, _ => false

def beqElements : List Value → List Value → Bool
  | [], [] => true
  | x :: xs, y :: ys => beq x y && beqElements xs ys
  | _, _ => false

def beqFields : List (String × Value) → List (String × Value) → Bool
  | [], [] => true
  | (k, v) :: xs, (k', w) :: ys => k == k' && beq v w && beqFields xs ys
  | _, _ => false

end

mutual

theorem beq_iff : ∀ v w : Value, v.beq w = true ↔ v = w
  | .array xs, w => by cases w <;> simp [beq, beqElements_iff xs]
  | .object xs, w => by cases w <;> simp [beq, beqFields_iff xs]
  | .null, w => by cases w <;> simp [beq]
  | .bool a, w => by cases w <;> simp [beq]
  | .number a, w => by cases w <;> simp [beq]
  | .string a, w => by cases w <;> simp [beq]

theorem beqElements_iff : ∀ xs ys : List Value, beqElements xs ys = true ↔ xs = ys
  | [], ys => by cases ys <;> simp [beqElements]
  | x :: xs, ys => by cases ys <;> simp [beqElements, beq_iff x, beqElements_iff xs]

theorem beqFields_iff : ∀ xs ys : List (String × Value), beqFields xs ys = true ↔ xs = ys
  | [], ys => by cases ys <;> simp [beqFields]
  | (k, v) :: xs, ys => by
    rcases ys with _ | ⟨⟨k', w⟩, ys⟩ <;> simp [beqFields, beq_iff v, beqFields_iff xs, and_assoc]

end

instance : DecidableEq Value := fun v w => decidable_of_iff _ (beq_iff v w)

end Value

/-! ## Objects -/

/-- Put `key ↦ v` into fields kept in key order, replacing what `key` had. -/
def putField {α : Type} (key : String) (v : α) : List (String × α) → List (String × α)
  | [] => [(key, v)]
  | (k, w) :: fields =>
    if key < k then (key, v) :: (k, w) :: fields
    else if key = k then (key, v) :: fields
    else (k, w) :: putField key v fields

/-- Fields in key order, each key once. -/
def Ordered {α : Type} (fields : List (String × α)) : Prop :=
  (fields.map Prod.fst).Pairwise (· < ·)

namespace Value

/-- The object with these fields, a later field replacing an earlier one of the
same key. -/
def ofFields (fields : List (String × Value)) : Value :=
  .object (fields.foldl (fun acc f => putField f.1 f.2 acc) [])

/-- The value of a field, of an object that has it. -/
def get? (key : String) : Value → Option Value
  | .object fields => fields.lookup key
  | _ => none

def asStr : Value → Option String
  | .string s => some s
  | _ => none

def asBool : Value → Option Bool
  | .bool b => some b
  | _ => none

def asU64 : Value → Option UInt64
  | .number (.posInt n) => some n
  | _ => none

/-- The fields of an object. -/
def asObject : Value → Option (List (String × Value))
  | .object fields => some fields
  | _ => none

@[simp] theorem asStr_string (s : String) : asStr (.string s) = some s := rfl

@[simp] theorem asBool_bool (b : Bool) : asBool (.bool b) = some b := rfl

@[simp] theorem asU64_posInt (n : UInt64) : asU64 (.number (.posInt n)) = some n := rfl

@[simp] theorem asObject_object (fields : List (String × Value)) :
    asObject (.object fields) = some fields := rfl

@[simp] theorem get?_object (fields : List (String × Value)) (key : String) :
    get? key (.object fields) = fields.lookup key := rfl

end Value

/-! ## Fields in order -/

section Fields

variable {α : Type} {fields : List (String × α)} {key : String} {v : α}

theorem lookup_cons_eq (k key' : String) (w : α) :
    ((k, w) :: fields).lookup key' = if key' = k then some w else fields.lookup key' := by
  rw [List.lookup_cons]
  by_cases h : key' = k
  · simp [h]
  · simp [h, beq_false_of_ne h]

theorem lookup_putField (key' : String) :
    (putField key v fields).lookup key' =
      if key' = key then some v else fields.lookup key' := by
  induction fields with
  | nil => rw [putField, lookup_cons_eq]
  | cons f fields ih =>
    obtain ⟨k, w⟩ := f
    rw [putField]
    by_cases hlt : key < k
    · rw [if_pos hlt, lookup_cons_eq]
    · rw [if_neg hlt]
      by_cases heq : key = k
      · rw [if_pos heq, ← heq, lookup_cons_eq, lookup_cons_eq]
        split_ifs <;> rfl
      · rw [if_neg heq, lookup_cons_eq, lookup_cons_eq, ih]
        split_ifs with hk hkey
        · exact absurd (hkey.symm.trans hk) heq
        · rfl
        · rfl
        · rfl

theorem mem_putField {f : String × α} (h : f ∈ putField key v fields) :
    f = (key, v) ∨ f ∈ fields := by
  induction fields with
  | nil => exact Or.inl (List.mem_singleton.1 h)
  | cons g fields ih =>
    rw [putField] at h
    split_ifs at h
    · exact (List.mem_cons.1 h)
    · exact (List.mem_cons.1 h).imp_right (List.mem_cons_of_mem _)
    · rcases List.mem_cons.1 h with rfl | h
      · exact Or.inr (by simp)
      · exact (ih h).imp_right (List.mem_cons_of_mem _)

theorem Ordered.putField (h : Ordered fields) : Ordered (putField key v fields) := by
  induction fields with
  | nil => simp [Json.putField, Ordered]
  | cons f fields ih =>
    obtain ⟨k, w⟩ := f
    obtain ⟨hk, hrest⟩ := List.pairwise_cons.1 h
    rw [Json.putField]
    split_ifs with hlt heq
    · refine List.pairwise_cons.2 ⟨fun k' hk' => ?_, h⟩
      rcases List.mem_cons.1 hk' with rfl | hk'
      · exact hlt
      · exact hlt.trans (hk k' hk')
    · subst heq
      exact List.pairwise_cons.2 ⟨hk, hrest⟩
    · refine List.pairwise_cons.2 ⟨fun k' hk' => ?_, ih hrest⟩
      obtain ⟨f, hf, rfl⟩ := List.mem_map.1 hk'
      rcases mem_putField hf with rfl | hf
      · exact lt_of_le_of_ne (not_lt.1 hlt) (Ne.symm heq)
      · exact hk _ (List.mem_map_of_mem hf)

/-- A field that comes after all the others goes to the end. -/
theorem putField_of_forall_lt (h : ∀ f ∈ fields, f.1 < key) :
    putField key v fields = fields ++ [(key, v)] := by
  induction fields with
  | nil => rfl
  | cons f fields ih =>
    have hlt : f.1 < key := h f (by simp)
    rw [putField, if_neg hlt.asymm, if_neg hlt.ne', ih fun f hf => h f (by simp [hf])]
    rfl

/-- Inserting fields that are in order, all after those already there, appends them. -/
theorem foldl_putField_of_ordered {acc : List (String × α)} (h : Ordered (acc ++ fields)) :
    fields.foldl (fun acc f => putField f.1 f.2 acc) acc = acc ++ fields := by
  induction fields generalizing acc with
  | nil => simp
  | cons f fields ih =>
    have hlt : ∀ g ∈ acc, g.1 < f.1 := by
      intro g hg
      rw [Ordered, List.map_append, List.pairwise_append] at h
      exact h.2.2 g.1 (List.mem_map_of_mem hg) f.1 (by simp)
    rw [List.foldl_cons, putField_of_forall_lt hlt, ih (by simpa using h)]
    simp

theorem ordered_foldl_putField {acc : List (String × α)} (h : Ordered acc) :
    Ordered (fields.foldl (fun acc f => putField f.1 f.2 acc) acc) := by
  induction fields generalizing acc with
  | nil => exact h
  | cons f fields ih => exact ih h.putField

theorem mem_foldl_putField {acc : List (String × α)} {f : String × α}
    (h : f ∈ fields.foldl (fun acc f => putField f.1 f.2 acc) acc) : f ∈ acc ∨ f ∈ fields := by
  induction fields generalizing acc with
  | nil => exact Or.inl h
  | cons g fields ih =>
    rcases ih h with h | h
    · rcases mem_putField h with rfl | h
      · exact Or.inr (by simp)
      · exact Or.inl h
    · exact Or.inr (List.mem_cons_of_mem _ h)

end Fields

namespace Value

theorem ofFields_of_ordered {fields : List (String × Value)} (h : Ordered fields) :
    ofFields fields = .object fields := by
  rw [ofFields, foldl_putField_of_ordered (by simpa using h), List.nil_append]

theorem get?_foldl_putField {fields acc : List (String × Value)} (key : String) :
    (fields.foldl (fun acc f => putField f.1 f.2 acc) acc).lookup key =
      (fields.reverse.lookup key).or (acc.lookup key) := by
  induction fields generalizing acc with
  | nil => simp
  | cons f fields ih =>
    rw [List.foldl_cons, ih, lookup_putField, List.reverse_cons, List.lookup_append]
    obtain ⟨k, w⟩ := f
    by_cases h : key = k
    · subst h
      cases fields.reverse.lookup key <;> simp [List.lookup]
    · cases fields.reverse.lookup key <;> simp [List.lookup, h, beq_false_of_ne h]

/-- A field of a built object is the last one given for its key. -/
@[simp] theorem get?_ofFields (fields : List (String × Value)) (key : String) :
    (ofFields fields).get? key = fields.reverse.lookup key := by
  rw [ofFields, get?_object, get?_foldl_putField]
  simp

/-- The values made of integers, text, truth values, lists, and objects in key
order. -/
inductive Regular : Value → Prop
  | null : Regular .null
  | bool (b : Bool) : Regular (.bool b)
  | posInt (n : UInt64) : Regular (.number (.posInt n))
  | string (s : String) : Regular (.string s)
  | array {xs : List Value} : (∀ v ∈ xs, Regular v) → Regular (.array xs)
  | object {fields : List (String × Value)} :
      Ordered fields → (∀ f ∈ fields, Regular f.2) → Regular (.object fields)

theorem regular_ofFields {fields : List (String × Value)} (h : ∀ f ∈ fields, Regular f.2) :
    Regular (ofFields fields) := by
  refine .object (ordered_foldl_putField List.Pairwise.nil) fun f hf => ?_
  rcases mem_foldl_putField hf with hf | hf
  · exact absurd hf (by simp)
  · exact h f hf

end Value

end Json
