import Mathlib.Data.List.Nodup
import Mathlib.Data.List.Perm.Subperm
import Mixfix.Proofs.Binary64.Equality
import Mixfix.Value

/-!
# Values that are the same

Sameness of values is reflexive where there is no NaN (`same_self`) and symmetric (`same_comm`), but
not transitive: two integers are compared exactly, an integer and a floating-point number only after
the integer has been rounded. So from `2 ^ 53` on different integers can both be the same as the number
that they are rounded to (`not_same_trans`).

This is the only way in which transitivity fails. Values that are the same as a third one are the same
as each other exactly if they do not hold, at one place, different integers that are rounded to one
number (`same_laws`). The induction follows the structure of the value in the middle.

Objects are compared field by field in the order of their names. Where names ascend, as in every
dictionary, this is comparing the values under each name (`sameFields_iff`).
-/

set_option autoImplicit false

namespace Mixfix.Value

open Binary64 (RoundsTogether eq_self_iff eq_swap eq_trans)

/-! ## Reflexivity -/

mutual
/-- Whether no number in a value is a NaN. -/
def isOrderly : Value → Bool
  | .float x => x != .nan
  | .array items => areOrderly items
  | .object fields => areOrderlyFields fields
  | _ => true
/-- `isOrderly`, item by item. -/
def areOrderly : List Value → Bool
  | [] => true
  | item :: items => isOrderly item && areOrderly items
/-- `isOrderly`, field by field. -/
def areOrderlyFields : List (String × Value) → Bool
  | [] => true
  | (_, value) :: fields => isOrderly value && areOrderlyFields fields
end

mutual
/-- A value is the same as itself exactly if it has no NaN. -/
theorem same_self : (value : Value) → value.same value = value.isOrderly
  | .null => by simp [same, isOrderly]
  | .undefined => by simp [same, isOrderly]
  | .boolean _ => by simp [same, isOrderly]
  | .integer _ => by simp [same, isOrderly]
  | .float x => by
      rw [same, isOrderly, Bool.eq_iff_iff, eq_self_iff, bne_iff_ne]
  | .string _ => by simp [same, isOrderly]
  | .array items => by rw [same, isOrderly, sameItems_self items]
  | .object fields => by rw [same, isOrderly, sameFields_self fields]
theorem sameItems_self : (items : List Value) → sameItems items items = areOrderly items
  | [] => by rw [sameItems, areOrderly]
  | item :: items => by rw [sameItems, areOrderly, same_self item, sameItems_self items]
theorem sameFields_self : (fields : List (String × Value)) →
    sameFields fields fields = areOrderlyFields fields
  | [] => by rw [sameFields, areOrderlyFields]
  | (name, value) :: fields => by
      rw [sameFields, areOrderlyFields, same_self value, sameFields_self fields, beq_self_eq_true,
        Bool.true_and]
end

/-! ## Symmetry -/

mutual
/-- Which of two values comes first makes no difference. -/
theorem same_comm : (value other : Value) → value.same other = other.same value
  | .null, other => by cases other <;> rfl
  | .undefined, other => by cases other <;> rfl
  | .boolean b, other => by
      cases other with
      | boolean c => rw [same, same, BEq.comm]
      | _ => rfl
  | .integer n, other => by
      cases other with
      | integer m => rw [same, same, BEq.comm]
      | float y => exact eq_swap _ _
      | _ => rfl
  | .float x, other => by
      cases other with
      | integer m => exact eq_swap _ _
      | float y => exact eq_swap _ _
      | _ => rfl
  | .string s, other => by
      cases other with
      | string t => rw [same, same, BEq.comm]
      | _ => rfl
  | .array items, other => by
      cases other with
      | array items' => rw [same, same, sameItems_comm items items']
      | _ => rfl
  | .object fields, other => by
      cases other with
      | object fields' => rw [same, same, sameFields_comm fields fields']
      | _ => rfl
theorem sameItems_comm : (items items' : List Value) →
    sameItems items items' = sameItems items' items
  | [], items' => by cases items' <;> rfl
  | item :: items, [] => rfl
  | item :: items, item' :: items' => by
      rw [sameItems, sameItems, same_comm item item', sameItems_comm items items']
theorem sameFields_comm : (fields fields' : List (String × Value)) →
    sameFields fields fields' = sameFields fields' fields
  | [], fields' => by cases fields' <;> rfl
  | field :: fields, [] => by
      obtain ⟨name, value⟩ := field
      rfl
  | (name, value) :: fields, (name', value') :: fields' => by
      rw [sameFields, sameFields, same_comm value value', sameFields_comm fields fields', BEq.comm]
end

/-! ## Transitivity -/

/-- Two values hold different integers, rounded to one number, at one place. -/
inductive Blurs : Value → Value → Prop
  | integers {n m : Int64} (together : RoundsTogether n m) : Blurs (.integer n) (.integer m)
  | items {items items' : List Value} {item item' : Value}
      (aligned : (item, item') ∈ items.zip items') (inside : Blurs item item') :
      Blurs (.array items) (.array items')
  | fields {fields fields' : List (String × Value)} {field field' : String × Value}
      (aligned : (field, field') ∈ fields.zip fields') (inside : Blurs field.2 field'.2) :
      Blurs (.object fields) (.object fields')

theorem same_of_aligned {items items' : List Value} {item item' : Value}
    (same : sameItems items items' = true) (aligned : (item, item') ∈ items.zip items') :
    item.same item' = true := by
  induction items generalizing items' with
  | nil => cases aligned
  | cons first rest ih =>
      cases items' with
      | nil => cases aligned
      | cons first' rest' =>
          rw [sameItems, Bool.and_eq_true] at same
          rw [List.zip_cons_cons, List.mem_cons] at aligned
          rcases aligned with here | there
          · cases here
            exact same.1
          · exact ih same.2 there

theorem same_of_alignedFields {fields fields' : List (String × Value)} {field field' : String × Value}
    (same : sameFields fields fields' = true) (aligned : (field, field') ∈ fields.zip fields') :
    field.2.same field'.2 = true := by
  induction fields generalizing fields' with
  | nil => cases aligned
  | cons first rest ih =>
      cases fields' with
      | nil => cases aligned
      | cons first' rest' =>
          rw [sameFields, Bool.and_eq_true, Bool.and_eq_true] at same
          rw [List.zip_cons_cons, List.mem_cons] at aligned
          rcases aligned with here | there
          · cases here
            exact same.1.2
          · exact ih same.2 there

/-- Values that hold different integers at one place are not the same. -/
theorem Blurs.not_same {value other : Value} (blurs : Blurs value other) :
    value.same other = false := by
  rw [← Bool.not_eq_true]
  intro same
  induction blurs with
  | integers together =>
      rw [Value.same, beq_iff_eq] at same
      exact together.1 same
  | items aligned _ ih =>
      rw [Value.same] at same
      exact ih (same_of_aligned same aligned)
  | fields aligned _ ih =>
      rw [Value.same] at same
      exact ih (same_of_alignedFields same aligned)

/-- Numbers that are the same as a number are the same as each other, unless they are integers that
are rounded to it. -/
theorem same_float_trans {x : Binary64} {first third : Value}
    (before : first.same (.float x) = true) (behind : (Value.float x).same third = true) :
    first.same third = true ∨ Blurs first third := by
  cases first with
  | integer n =>
      cases third with
      | integer m =>
          have together : (Binary64.ofInt n.toInt).eq (Binary64.ofInt m.toInt) = true :=
            eq_trans before behind
          by_cases equal : n = m
          · exact .inl (by rw [same, equal, beq_self_eq_true])
          · exact .inr (.integers ⟨equal, together⟩)
      | float z => exact .inl (eq_trans before behind)
      | _ => cases behind
  | float y =>
      left
      cases third with
      | integer m => exact eq_trans before behind
      | float z => exact eq_trans before behind
      | _ => cases behind
  | _ => cases before

/-- Only the same integer is the same as an integer, so nothing is lost over an integer. -/
theorem same_integer_trans {k : Int64} {first third : Value}
    (before : first.same (.integer k) = true) (behind : (Value.integer k).same third = true) :
    first.same third = true := by
  cases first with
  | integer n =>
      rw [same, beq_iff_eq] at before
      rw [before]
      exact behind
  | float y =>
      cases third with
      | integer m =>
          rw [same, beq_iff_eq] at behind
          rw [← behind]
          exact before
      | float z => exact eq_trans before behind
      | _ => cases behind
  | _ => cases before

mutual
theorem same_trans_or : (second : Value) → {first third : Value} →
    first.same second = true → second.same third = true →
    first.same third = true ∨ Blurs first third
  | .null, first, third, before, behind => by
      cases first <;> first | exact .inl behind | cases before
  | .undefined, first, third, before, behind => by
      cases first <;> first | exact .inl behind | cases before
  | .boolean b, first, third, before, behind => by
      cases first with
      | boolean c =>
          rw [same, beq_iff_eq] at before
          exact .inl (before ▸ behind)
      | _ => cases before
  | .integer k, first, third, before, behind => .inl (same_integer_trans before behind)
  | .float x, first, third, before, behind => same_float_trans before behind
  | .string s, first, third, before, behind => by
      cases first with
      | string t =>
          rw [same, beq_iff_eq] at before
          exact .inl (before ▸ behind)
      | _ => cases before
  | .array items, first, third, before, behind => by
      cases first with
      | array before' =>
          cases third with
          | array behind' =>
              rw [same] at before behind ⊢
              refine (sameItems_trans_or items before behind).imp id ?_
              rintro ⟨item, item', aligned, inside⟩
              exact .items aligned inside
          | _ => cases behind
      | _ => cases before
  | .object fields, first, third, before, behind => by
      cases first with
      | object before' =>
          cases third with
          | object behind' =>
              rw [same] at before behind ⊢
              refine (sameFields_trans_or fields before behind).imp id ?_
              rintro ⟨field, field', aligned, inside⟩
              exact .fields aligned inside
          | _ => cases behind
      | _ => cases before
theorem sameItems_trans_or : (second : List Value) → {first third : List Value} →
    sameItems first second = true → sameItems second third = true →
    sameItems first third = true ∨
      ∃ item item', (item, item') ∈ first.zip third ∧ Blurs item item'
  | [], first, third, before, behind => by
      cases first with
      | nil => exact .inl behind
      | cons item rest => cases before
  | item :: items, first, third, before, behind => by
      cases first with
      | nil => cases before
      | cons item₁ first =>
          cases third with
          | nil => cases behind
          | cons item₃ third =>
              rw [sameItems, Bool.and_eq_true] at before behind ⊢
              rcases same_trans_or item before.1 behind.1 with here | blurs
              · rcases sameItems_trans_or items before.2 behind.2 with
                  there | ⟨_, _, aligned, blurs⟩
                · exact .inl ⟨here, there⟩
                · exact .inr ⟨_, _, List.mem_cons_of_mem _ aligned, blurs⟩
              · exact .inr ⟨_, _, List.mem_cons_self, blurs⟩
theorem sameFields_trans_or : (second : List (String × Value)) →
    {first third : List (String × Value)} →
    sameFields first second = true → sameFields second third = true →
    sameFields first third = true ∨
      ∃ field field', (field, field') ∈ first.zip third ∧ Blurs field.2 field'.2
  | [], first, third, before, behind => by
      cases first with
      | nil => exact .inl behind
      | cons field rest => cases before
  | (name, value) :: fields, first, third, before, behind => by
      cases first with
      | nil => cases before
      | cons field₁ first =>
          cases third with
          | nil => cases behind
          | cons field₃ third =>
              rw [sameFields, Bool.and_eq_true, Bool.and_eq_true, beq_iff_eq] at before behind ⊢
              obtain ⟨⟨name₁, same₁⟩, before⟩ := before
              obtain ⟨⟨name₃, same₃⟩, behind⟩ := behind
              rcases same_trans_or value same₁ same₃ with here | blurs
              · rcases sameFields_trans_or fields before behind with
                  there | ⟨_, _, aligned, blurs⟩
                · exact .inl ⟨⟨name₁.trans name₃, here⟩, there⟩
                · exact .inr ⟨_, _, List.mem_cons_of_mem _ aligned, blurs⟩
              · exact .inr ⟨_, _, List.mem_cons_self, blurs⟩
end

/-- Sameness is reflexive without NaN and symmetric. It is transitive unless the outer values hold
different integers that are rounded to one number. -/
theorem same_laws (first second third : Value) :
    (first.isOrderly = true → first.same first = true) ∧
    first.same second = second.same first ∧
    (first.same second = true → second.same third = true →
      (first.same third = true ↔ ¬ Blurs first third)) := by
  refine ⟨fun orderly => (same_self first).trans orderly, same_comm first second, ?_⟩
  intro before behind
  constructor
  · intro same blurs
    rw [blurs.not_same] at same
    cases same
  · exact (same_trans_or second before behind).resolve_right

/-- The integer `2 ^ 53`, from which on integers are rounded. -/
def wideInteger : Int64 := 9007199254740992

/-- The number that the integer `2 ^ 53` is, and that the next integer is rounded to. -/
def wideFloat : Binary64 := .ofInt wideInteger.toInt

/-- A number in an object in an array. -/
def counted (number : Value) : Value := .array [.object [("count", number)]]

theorem same_laws_counted :
    (counted (.float wideFloat)).same (counted (.float wideFloat)) = true ∧
    (counted (.integer wideInteger)).same (counted (.float wideFloat)) =
      (counted (.float wideFloat)).same (counted (.integer wideInteger)) ∧
    (counted (.integer wideInteger)).same (counted (.float wideFloat)) = true ∧
    (counted (.float wideFloat)).same (counted (.integer (wideInteger + 1))) = true ∧
    ((counted (.integer wideInteger)).same (counted (.integer (wideInteger + 1))) = true ↔
      ¬ Blurs (counted (.integer wideInteger)) (counted (.integer (wideInteger + 1)))) := by
  have before : (counted (.integer wideInteger)).same (counted (.float wideFloat)) = true := by
    decide +kernel
  have behind : (counted (.float wideFloat)).same (counted (.integer (wideInteger + 1))) = true := by
    decide +kernel
  have laws := same_laws (counted (.integer wideInteger)) (counted (.float wideFloat))
    (counted (.integer (wideInteger + 1)))
  have reflexive := (same_laws (counted (.float wideFloat)) .null .null).1 (by decide +kernel)
  exact ⟨reflexive, laws.2.1, before, behind, laws.2.2 before behind⟩

/-- Sameness is not transitive: two integers are the same as the number they are rounded to. -/
theorem not_same_trans :
    ¬ ∀ first second third : Value, first.isOrderly = true → second.isOrderly = true →
      third.isOrderly = true → first.same second = true → second.same third = true →
      first.same third = true := by
  intro trans
  have same := trans (.integer wideInteger) (.float wideFloat) (.integer (wideInteger + 1)) rfl
    (by decide +kernel) rfl (by decide +kernel) (by decide +kernel)
  exact absurd same (by decide +kernel)

/-! ## Objects -/

/-- Ascending names that are all among other ascending names, and as many, are these. -/
theorem names_eq_of_subset {fields fields' : Dict Value} (ordered : Dict.Ordered fields)
    (ordered' : Dict.Ordered fields') (length : fields.length = fields'.length)
    (subset : Dict.names fields ⊆ Dict.names fields') : Dict.names fields = Dict.names fields' := by
  refine ordered.names_eq ordered' ((ordered.nodup.subperm subset).perm_of_length_le ?_)
  rw [Dict.names, Dict.names, List.length_map, List.length_map, length]

/-- Fields under the same names, none of them twice, are the same if each has the same value as a
field of its name. -/
theorem sameFields_of_names {fields fields' : Dict Value} (distinct : (Dict.names fields).Nodup)
    (names : Dict.names fields = Dict.names fields')
    (values : ∀ name value, (name, value) ∈ fields →
      ∃ value', (name, value') ∈ fields' ∧ value.same value' = true) :
    sameFields fields fields' = true := by
  induction fields generalizing fields' with
  | nil =>
      cases fields' with
      | nil => rfl
      | cons field rest => cases names
  | cons field rest ih =>
      cases fields' with
      | nil => cases names
      | cons field' rest' =>
          obtain ⟨name, value⟩ := field
          obtain ⟨name', value'⟩ := field'
          obtain ⟨rfl, further⟩ := List.cons.inj names
          obtain ⟨fresh, distinct⟩ := List.nodup_cons.mp distinct
          have fresh' : name ∉ Dict.names rest' := fun mem => fresh (further ▸ mem)
          rw [sameFields, beq_self_eq_true, Bool.true_and, Bool.and_eq_true]
          constructor
          · obtain ⟨other, mem, same⟩ := values name value List.mem_cons_self
            rcases List.mem_cons.mp mem with here | there
            · cases here
              exact same
            · exact absurd (List.mem_map.mpr ⟨_, there, rfl⟩) fresh'
          · refine ih distinct further fun later value mem => ?_
            obtain ⟨other, mem', same⟩ := values later value (List.mem_cons_of_mem _ mem)
            refine ⟨other, (List.mem_cons.mp mem').resolve_left ?_, same⟩
            rintro ⟨⟩
            exact fresh (List.mem_map.mpr ⟨_, mem, rfl⟩)

/-- Objects are the same exactly if they have the same number of fields, and every field of the one has
the same value as the field of its name in the other. -/
theorem sameFields_iff {fields fields' : Dict Value} (ordered : Dict.Ordered fields)
    (ordered' : Dict.Ordered fields') :
    sameFields fields fields' = true ↔ fields.length = fields'.length ∧
      ∀ name value, Dict.get? fields name = some value →
        ∃ value', Dict.get? fields' name = some value' ∧ value.same value' = true := by
  constructor
  · clear ordered ordered'
    intro same
    induction fields generalizing fields' with
    | nil =>
        cases fields' with
        | nil => exact ⟨rfl, nofun⟩
        | cons field rest => cases same
    | cons field rest ih =>
        cases fields' with
        | nil => cases same
        | cons field' rest' =>
            rw [sameFields, Bool.and_eq_true, Bool.and_eq_true, beq_iff_eq] at same
            obtain ⟨⟨name, value⟩, further⟩ := same
            obtain ⟨length, values⟩ := ih further
            refine ⟨congrArg Nat.succ length, fun sought found => ?_⟩
            obtain ⟨key, first⟩ := field
            obtain ⟨key', first'⟩ := field'
            obtain rfl : key = key' := name
            rw [Dict.get?_cons, Dict.get?_cons]
            split
            · rintro ⟨⟩
              exact ⟨first', rfl, value⟩
            · exact values sought found
  · rintro ⟨length, values⟩
    simp only [Dict.get?_eq_some_iff ordered.nodup, Dict.get?_eq_some_iff ordered'.nodup] at values
    refine sameFields_of_names ordered.nodup (names_eq_of_subset ordered ordered' length ?_) values
    intro name mem
    obtain ⟨field, there, rfl⟩ := List.mem_map.mp mem
    obtain ⟨value', mem', _⟩ := values field.1 field.2 there
    exact List.mem_map.mpr ⟨_, mem', rfl⟩

end Mixfix.Value
