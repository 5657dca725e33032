import Mixfix.Proofs.Parse.References
import Mixfix.Proofs.Schema.Built

/-!
# Another descriptor for a field

A field of a schema that holds a descriptor, at any nesting, can be given another one
(`Schema.retyped`). All paths lead where they led before: to a field of the same kind, and of the
same descriptor unless it is the field itself (`Schema.resolve_retyped`).

Whether a path goes on is all that reading a reference asks of the fields on the way, so the same
references are read with both schemas (`Parse.reference?_of_sameShape`).
-/

set_option autoImplicit false

namespace Mixfix

variable {schema other : Schema} {path : List String} {new old : Descriptor}

/-! ## Replacing a descriptor -/

/-- A field with another descriptor at the end of a path. -/
def Entry.retyped (new : Descriptor) : List String → Entry → Entry
  | [], _ => .type new
  | _ :: _, .type descriptor => .type descriptor
  | name :: path, .nested fields =>
    match Dict.get? fields name with
    | some entry => .nested (Dict.insert name (entry.retyped new path) fields)
    | none => .nested fields

/-- A schema with another descriptor for the field at the end of a path. -/
def Schema.retyped (schema : Schema) (new : Descriptor) : List String → Schema
  | [] => schema
  | name :: path =>
    match Dict.get? schema name with
    | some entry => Dict.insert name (entry.retyped new path) schema
    | none => schema

/-- What an expression sees of a field. -/
def Entry.view (entry : Entry) : Descriptor × Bool := (entry.descriptor, entry.isNested)

theorem Entry.follow_retyped {entry : Entry} {path : List String}
    (field : entry.follow path = some (.type old)) (place : List String) :
    ((entry.retyped new path).follow place).map Entry.view =
      if place = path then some (new, false) else (entry.follow place).map Entry.view := by
  induction path generalizing entry place with
  | nil =>
      obtain rfl := Option.some.inj field
      cases place with
      | nil => rfl
      | cons name place => rfl
  | cons name path ih =>
      cases entry with
      | type descriptor => cases field
      | nested fields =>
          simp only [follow] at field
          split at field
          · next inner there =>
              simp only [retyped, there]
              cases place with
              | nil => rfl
              | cons step place =>
                  simp only [follow, Dict.get?_insert, List.cons.injEq]
                  by_cases here : step = name
                  · subst here
                    simp only [if_true, true_and, there]
                    exact ih field place
                  · simp only [here, if_false, false_and]
          · cases field

/-- In a schema with another descriptor for a field, paths lead where they did before. -/
theorem Schema.resolve_retyped (field : schema.resolve path = some (.type old))
    (place : List String) :
    ((schema.retyped new path).resolve place).map Entry.view =
      if place = path then some (new, false) else (schema.resolve place).map Entry.view := by
  cases path with
  | nil => cases field
  | cons name path =>
      obtain ⟨entry, there, followed⟩ := Option.bind_eq_some_iff.mp field
      simp only [retyped, there]
      cases place with
      | nil => rfl
      | cons step place =>
          simp only [resolve, Dict.get?_insert, List.cons.injEq]
          by_cases here : step = name
          · subst here
            simp only [if_true, true_and, there, Option.bind_some]
            exact Entry.follow_retyped followed place
          · simp only [here, if_false, false_and]

theorem Entry.all_retyped {P : Descriptor → Prop} (good : P new) {path : List String}
    {entry : Entry} (all : entry.All P) : (entry.retyped new path).All P := by
  induction path generalizing entry with
  | nil => exact good
  | cons name path ih =>
      cases entry with
      | type descriptor => exact all
      | nested fields =>
          rw [retyped]
          split
          · next inner there => exact Schema.All.insert all (ih (Schema.All.get? all there)) name
          · exact all

theorem Schema.all_retyped {P : Descriptor → Prop} (good : P new) {path : List String}
    (all : Schema.All P schema) : Schema.All P (schema.retyped new path) := by
  cases path with
  | nil => exact all
  | cons name path =>
      rw [retyped]
      split
      · next entry there => exact all.insert (Entry.all_retyped good (all.get? there)) name
      · exact all

/-! ## Schemas of the same shape -/

/-- Paths lead to fields of the same kind, from two fields. -/
def Entry.SameShape (entry other : Entry) : Prop :=
  ∀ place, (entry.follow place).map Entry.isNested = (other.follow place).map Entry.isNested

/-- Paths lead to fields of the same kind, in two schemas. -/
def Schema.SameShape (schema other : Schema) : Prop :=
  ∀ place, (schema.resolve place).map Entry.isNested = (other.resolve place).map Entry.isNested

theorem Schema.sameShape_retyped (field : schema.resolve path = some (.type old)) :
    schema.SameShape (schema.retyped new path) := by
  intro place
  have views := congrArg (Option.map Prod.snd) (@resolve_retyped _ _ new _ field place)
  rw [Option.map_map] at views
  refine Eq.trans ?_ views.symm
  split
  · next same =>
      rw [same, field]
      rfl
  · rw [Option.map_map]
    rfl

theorem Entry.follow_nested (fields : List (String × Entry)) (name : String) (place : List String) :
    (Entry.nested fields).follow (name :: place) = Schema.resolve fields (name :: place) := by
  rw [follow, Schema.resolve]
  cases Dict.get? fields name <;> rfl

theorem Entry.SameShape.type {descriptor : Descriptor} {entry : Entry}
    (same : (Entry.type descriptor).SameShape entry) : ∃ descriptor', entry = .type descriptor' := by
  cases entry with
  | type descriptor' => exact ⟨descriptor', rfl⟩
  | nested fields => cases same []

theorem Entry.SameShape.nested {fields : List (String × Entry)} {entry : Entry}
    (same : (Entry.nested fields).SameShape entry) :
    ∃ others, entry = .nested others ∧ Schema.SameShape fields others := by
  cases entry with
  | type descriptor => cases same []
  | nested others =>
      refine ⟨others, rfl, fun place => ?_⟩
      cases place with
      | nil => rfl
      | cons name place =>
          rw [← follow_nested, ← follow_nested]
          exact same (name :: place)

/-- Schemas of the same shape have fields of the same shape under a name, or none. -/
theorem Schema.SameShape.get? (same : schema.SameShape other) (name : String) :
    (Dict.get? schema name = none ∧ Dict.get? other name = none) ∨
      ∃ entry entry', Dict.get? schema name = some entry ∧ Dict.get? other name = some entry' ∧
        entry.SameShape entry' := by
  have here := same [name]
  have inside := fun place => same (name :: place)
  simp only [resolve] at here inside
  cases found : Dict.get? schema name with
  | none =>
      rw [found] at here
      cases found' : Dict.get? other name with
      | none => exact .inl ⟨rfl, rfl⟩
      | some entry' =>
          rw [found'] at here
          cases here
  | some entry =>
      rw [found] at here inside
      cases found' : Dict.get? other name with
      | none =>
          rw [found'] at here
          cases here
      | some entry' =>
          rw [found'] at inside
          exact .inr ⟨entry, entry', rfl, rfl, inside⟩

theorem Schema.SameShape.exists_get? (same : schema.SameShape other) {name : String}
    {entry : Entry} (found : Dict.get? schema name = some entry) :
    ∃ entry', Dict.get? other name = some entry' ∧ entry.SameShape entry' := by
  rcases same.get? name with ⟨missing, _⟩ | ⟨_, entry', here, there, alike⟩
  · rw [missing] at found
    cases found
  · rw [here] at found
    cases found
    exact ⟨entry', there, alike⟩

namespace Parse

/-! ## Reading references -/

theorem carries_sameShape : Carries Entry.SameShape where
  type := Entry.SameShape.type
  nested := by
    intro fields entry same
    obtain ⟨others, rfl, inside⟩ := same.nested
    exact ⟨others, rfl, inside.exists_get?⟩

/-- With a schema of the same shape the same reference is read, to the field that it has there. -/
theorem reference?_of_sameShape (same : schema.SameShape other) {cursor next : Cursor}
    {tree : Tree} (ok : reference? schema cursor = .ok (some (tree, next))) :
    ∃ path entry entry' extent, schema.resolve path = some entry ∧
      other.resolve path = some entry' ∧ tree = .identifier path entry.descriptor extent ∧
      reference? other cursor =
        .ok (some (.identifier path entry'.descriptor extent, next)) := by
  obtain ⟨path, entry, entry', extent, _, _, parsed, read⟩ :=
    reference?_of_carries carries_sameShape same.exists_get? ok
  -- that the types are those of fields at the path is what reading them says
  generalize entry.descriptor = type at parsed
  generalize entry'.descriptor = type' at read
  cases parsed
  obtain ⟨_, entry, resolved, _, _, here, _, _⟩ := reference?_ok ok
  obtain ⟨_, entry', resolved', _, _, there, _, _⟩ := reference?_ok read
  cases here
  cases there
  exact ⟨_, entry, entry', _, resolved, resolved', rfl, read⟩

end Parse

end Mixfix
