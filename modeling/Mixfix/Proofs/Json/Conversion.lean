import Mathlib.Algebra.Ring.Int.Defs
import Mixfix.Json.Value
import Mixfix.Proofs.Text.Numerals

/-!
# Values written as JSON and read back

JSON has no word for an absent value, for infinities and for NaN. A value that is written as JSON and
read back is the value with `null` in all these places, however deep they are (`ofJson_toJson`), and
what was read back once does not change any more. In the other direction a JSON value survives as it
is exactly if its integers fit in 64 bits with a sign and its floating-point numbers are finite
(`toJson_ofJson_eq_iff`); these are also the JSON values that values are written as
(`isNarrow_toJson`).

Both conversions run over the tree, so do the inductions: each case of a value has its own, and
items and fields are gone through one by one.
-/

set_option autoImplicit false

namespace Mixfix

/-! ## What JSON has a word for -/

namespace Value

/-- Whether JSON has a word for a value, leaving aside the values inside of it. -/
def hasWord : Value → Bool
  | .undefined => false
  | .float x => x.isFinite
  | _ => true

mutual
/-- A value with `null` in all places where JSON has no word. -/
def worded : Value → Value
  | .array items => .array (wordedItems items)
  | .object fields => .object (wordedFields fields)
  | value => if value.hasWord then value else .null
/-- `worded`, item by item. -/
def wordedItems : List Value → List Value
  | [] => []
  | item :: items => worded item :: wordedItems items
/-- `worded`, field by field. -/
def wordedFields : List (String × Value) → List (String × Value)
  | [] => []
  | (name, value) :: fields => (name, worded value) :: wordedFields fields
end

end Value

namespace Json

/-- The JSON values with integers that fit in 64 bits with a sign. Their floating-point numbers are
finite, as all numbers in JSON are. -/
inductive IsNarrow : Json → Prop
  | null : IsNarrow .null
  | boolean (b : Bool) : IsNarrow (.boolean b)
  | integer {n : Int} (lower : -(2 ^ 63) ≤ n) (upper : n < 2 ^ 63) : IsNarrow (.integer n)
  | float {x : Binary64} (finite : x.isFinite = true) : IsNarrow (.float x)
  | string (s : String) : IsNarrow (.string s)
  | array {items : List Json} (inside : ∀ item ∈ items, IsNarrow item) : IsNarrow (.array items)
  | object {fields : List (String × Json)} (inside : ∀ field ∈ fields, IsNarrow field.2) :
      IsNarrow (.object fields)

end Json

namespace Value

open Json (IsNarrow)

/-! ## From values and back -/

mutual
/-- What is written and read back has `null` in the places where JSON has no word. -/
theorem ofJson_toJson : (value : Value) → ofJson (toJson value) = value.worded
  | .null => rfl
  | .undefined => rfl
  | .boolean _ => rfl
  | .integer n => by
      rw [toJson, ofJson, Numeral.toInt64?_toInt]
      rfl
  | .float x => by
      rw [toJson, worded, hasWord]
      split
      · rw [ofJson]
      · rw [ofJson]
      · exact nofun
      · exact nofun
  | .string _ => rfl
  | .array items => by
      rw [toJson, ofJson, ofJsonItems_toJsonItems items, worded]
  | .object fields => by
      rw [toJson, ofJson, ofJsonFields_toJsonFields fields, worded]
theorem ofJsonItems_toJsonItems : (items : List Value) →
    ofJsonItems (toJsonItems items) = wordedItems items
  | [] => rfl
  | item :: items => by
      rw [toJsonItems, ofJsonItems, ofJson_toJson item, ofJsonItems_toJsonItems items, wordedItems]
theorem ofJsonFields_toJsonFields : (fields : List (String × Value)) →
    ofJsonFields (toJsonFields fields) = wordedFields fields
  | [] => rfl
  | (name, value) :: fields => by
      rw [toJsonFields, ofJsonFields, ofJson_toJson value, ofJsonFields_toJsonFields fields,
        wordedFields]
end

mutual
/-- Values are written as JSON values with integers of 64 bits. -/
theorem isNarrow_toJson : (value : Value) → IsNarrow (toJson value)
  | .null => .null
  | .undefined => .null
  | .boolean b => .boolean b
  | .integer n => .integer n.le_toInt n.toInt_lt
  | .float x => by
      rw [toJson]
      split
      · next finite => exact .float finite
      · exact .null
  | .string s => .string s
  | .array items => by
      rw [toJson]
      exact .array (isNarrow_toJsonItems items)
  | .object fields => by
      rw [toJson]
      exact .object (isNarrow_toJsonFields fields)
theorem isNarrow_toJsonItems : (items : List Value) → ∀ json ∈ toJsonItems items, IsNarrow json
  | [], _, mem => by cases mem
  | item :: items, json, mem => by
      rw [toJsonItems] at mem
      rcases List.mem_cons.mp mem with rfl | later
      · exact isNarrow_toJson item
      · exact isNarrow_toJsonItems items json later
theorem isNarrow_toJsonFields : (fields : List (String × Value)) →
    ∀ field ∈ toJsonFields fields, IsNarrow field.2
  | [], _, mem => by cases mem
  | (_, value) :: fields, field, mem => by
      rw [toJsonFields] at mem
      rcases List.mem_cons.mp mem with rfl | later
      · exact isNarrow_toJson value
      · exact isNarrow_toJsonFields fields field later
end

/-! ## From JSON and back -/

theorem exists_toInt64? {n : Int} (lower : -(2 ^ 63) ≤ n) (upper : n < 2 ^ 63) :
    ∃ m, Numeral.toInt64? n = some m := by
  have inside : Numeral.inRange n = true := by
    rw [Numeral.inRange, Bool.and_eq_true, decide_eq_true_eq, decide_eq_true_eq]
    exact ⟨lower, upper⟩
  exact ⟨_, by rw [Numeral.toInt64?, if_pos inside]⟩

theorem toJsonItems_ofJsonItems {items : List Json}
    (same : ∀ item ∈ items, toJson (ofJson item) = item) :
    toJsonItems (ofJsonItems items) = items := by
  induction items with
  | nil => rfl
  | cons item items ih =>
      rw [ofJsonItems, toJsonItems, same item List.mem_cons_self,
        ih fun other mem => same other (List.mem_cons_of_mem _ mem)]

theorem toJsonFields_ofJsonFields {fields : List (String × Json)}
    (same : ∀ field ∈ fields, toJson (ofJson field.2) = field.2) :
    toJsonFields (ofJsonFields fields) = fields := by
  induction fields with
  | nil => rfl
  | cons field fields ih =>
      obtain ⟨name, json⟩ := field
      rw [ofJsonFields, toJsonFields, same _ List.mem_cons_self,
        ih fun other mem => same other (List.mem_cons_of_mem _ mem)]

theorem toJson_ofJson {json : Json} (narrow : IsNarrow json) : toJson (ofJson json) = json := by
  induction narrow with
  | null => rfl
  | boolean b => rfl
  | integer lower upper =>
      obtain ⟨m, fits⟩ := exists_toInt64? lower upper
      rw [ofJson, fits]
      exact congrArg Json.integer (Numeral.toInt_of_toInt64? fits)
  | float finite => rw [ofJson, toJson, if_pos finite]
  | string s => rfl
  | array inside ih => rw [ofJson, toJson, toJsonItems_ofJsonItems ih]
  | object inside ih => rw [ofJson, toJson, toJsonFields_ofJsonFields ih]

/-- A JSON value survives exactly if its integers fit in 64 bits with a sign. -/
theorem toJson_ofJson_eq_iff {json : Json} : toJson (ofJson json) = json ↔ IsNarrow json := by
  constructor
  · intro same
    rw [← same]
    exact isNarrow_toJson _
  · exact toJson_ofJson

/-- **The way through JSON loses only what JSON cannot say.** A value that is written as JSON and read
back is itself up to `null` for absent values and numbers that are not finite, and does not change
when this is done again. A JSON value that is read and written again stays the same exactly if its
integers fit in 64 bits with a sign. -/
theorem json_round_trip :
    (∀ value : Value, ofJson (toJson value) = value.worded) ∧
    (∀ value : Value, ofJson (toJson (ofJson (toJson value))) = ofJson (toJson value)) ∧
    ∀ json : Json, toJson (ofJson json) = json ↔ IsNarrow json := by
  refine ⟨ofJson_toJson, ?_, fun json => toJson_ofJson_eq_iff⟩
  intro value
  rw [toJson_ofJson (isNarrow_toJson value)]

/-- A negative zero and a whole number beyond 64 bits stay floating-point numbers. -/
example : ofJson (toJson (.array [.undefined, .float (.zero true), .float (.ofNat (2 ^ 64))])) =
    .array [.null, .float (.zero true), .float (.ofNat (2 ^ 64))] := by
  rfl

end Value

end Mixfix
