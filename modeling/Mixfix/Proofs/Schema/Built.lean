import Mixfix.Proofs.Descriptor.Reading
import Mixfix.Proofs.Descriptor.SortedUnion
import Mixfix.Schema.Basic

/-!
# Schemas that can be built

A schema starts empty and gets its fields one by one, each from a descriptor text or from a schema
that was built before, or it is read from JSON (`IsBuilt`). So all its descriptors were read from
texts and are well-formed (`IsBuilt.wellFormed`).

What holds for all descriptors of a schema (`Schema.All`) holds for the fields that paths lead to
(`All.resolve`).
-/

set_option autoImplicit false

namespace Mixfix

open Descriptor (WellFormed)

variable {P : Descriptor → Prop}

mutual
/-- All descriptors of a field have a property. -/
def Entry.All (P : Descriptor → Prop) : Entry → Prop
  | .type descriptor => P descriptor
  | .nested fields => Schema.All P fields
/-- All descriptors of the fields of a schema have a property. -/
def Schema.All (P : Descriptor → Prop) : List (String × Entry) → Prop
  | [] => True
  | (_, entry) :: fields => Entry.All P entry ∧ Schema.All P fields
end

namespace Schema

/-! ## Fields -/

theorem All.get? {schema : Schema} (all : Schema.All P schema) {name : String} {entry : Entry}
    (found : Dict.get? schema name = some entry) : entry.All P := by
  induction schema with
  | nil => cases found
  | cons head rest ih =>
      obtain ⟨key, first⟩ := head
      rw [Schema.All] at all
      rw [Dict.get?_cons] at found
      split at found
      · cases found
        exact all.1
      · exact ih all.2 found

theorem All.insert {schema : Schema} (all : Schema.All P schema) {entry : Entry}
    (new : entry.All P) (name : String) : Schema.All P (Dict.insert name entry schema) := by
  induction schema with
  | nil => exact ⟨new, trivial⟩
  | cons head rest ih =>
      obtain ⟨key, first⟩ := head
      rw [Schema.All] at all
      simp only [Dict.insert]
      split
      · exact ⟨new, all⟩
      · split
        · exact ⟨new, all.2⟩
        · exact ⟨all.1, ih all.2⟩

theorem all_follow {path : List String} {entry found : Entry} (all : entry.All P)
    (followed : entry.follow path = some found) : found.All P := by
  induction path generalizing entry with
  | nil =>
      simp only [Entry.follow, Option.some.injEq] at followed
      exact followed ▸ all
  | cons name path ih =>
      cases entry with
      | type descriptor => simp [Entry.follow] at followed
      | nested fields =>
          simp only [Entry.follow] at followed
          split at followed
          · next inner there => exact ih (All.get? (by rwa [Entry.All] at all) there) followed
          · cases followed

/-- What holds for all descriptors of a schema holds for a field that a path leads to. -/
theorem All.resolve {schema : Schema} (all : Schema.All P schema) {path : List String}
    {entry : Entry} (found : schema.resolve path = some entry) : entry.All P := by
  cases path with
  | nil => cases found
  | cons name path =>
      obtain ⟨first, there, followed⟩ := Option.bind_eq_some_iff.mp found
      exact all_follow (all.get? there) followed

/-- The descriptor of a field is one of the schema, or that of objects. -/
theorem All.descriptor {schema : Schema} (all : Schema.All P schema) (object : P .object)
    {path : List String} {entry : Entry} (found : schema.resolve path = some entry) :
    P entry.descriptor := by
  have inside := all.resolve found
  cases entry with
  | type descriptor => rwa [Entry.All] at inside
  | nested fields => exact object

mutual
theorem all_entry_and {Q R : Descriptor → Prop} (both : ∀ descriptor, P descriptor → Q descriptor →
    R descriptor) : (entry : Entry) → entry.All P → entry.All Q → entry.All R
  | .type descriptor, first, second => by
    rw [Entry.All] at first second ⊢
    exact both descriptor first second
  | .nested fields, first, second => by
    rw [Entry.All] at first second ⊢
    exact All.and both first second
/-- What follows from two properties holds for all descriptors if both do. -/
theorem All.and {Q R : Descriptor → Prop} (both : ∀ descriptor, P descriptor → Q descriptor →
    R descriptor) : {fields : List (String × Entry)} → Schema.All P fields → Schema.All Q fields →
    Schema.All R fields
  | [], _, _ => trivial
  | (_, entry) :: fields, first, second => by
    rw [Schema.All] at first second ⊢
    exact ⟨all_entry_and both entry first.1 second.1, All.and both first.2 second.2⟩
end

/-! ## Building -/

/-- The schemas that can be built. -/
inductive IsBuilt : Schema → Prop
  | empty : IsBuilt []
  | field {schema larger : Schema} {name text : String} (built : IsBuilt schema)
      (added : schema.addField name text = .ok larger) : IsBuilt larger
  | nested {schema inner : Schema} (name : String) (built : IsBuilt schema)
      (inside : IsBuilt inner) : IsBuilt (schema.addNested name inner)
  | json {json : Json} {schema : Schema} (read : ofJson json = .ok schema) : IsBuilt schema

theorem wellFormed_typeEntry {path text : String} {entry : Entry}
    (read : typeEntry path text = .ok entry) : entry.All WellFormed := by
  unfold typeEntry at read
  split at read
  · next descriptor parsed =>
      cases read
      rw [Entry.All]
      exact Descriptor.wellFormed_of_parse parsed
  · cases read

mutual
theorem wellFormed_entryOfJson {json : Json} {path : String} {entry : Entry}
    (read : entryOfJson path json = .ok entry) : entry.All WellFormed := by
  cases json with
  | string text => exact wellFormed_typeEntry (by rwa [entryOfJson] at read)
  | object fields =>
      rw [entryOfJson] at read
      obtain ⟨inner, inside, rest⟩ := ok_of_bind read
      cases rest
      rw [Entry.All]
      exact wellFormed_fieldsOfJson inside
  | _ => simp [entryOfJson] at read
theorem wellFormed_fieldsOfJson {fields : List (String × Json)} {path : String}
    {schema : List (String × Entry)} (read : fieldsOfJson path fields = .ok schema) :
    Schema.All WellFormed schema := by
  cases fields with
  | nil =>
      simp only [fieldsOfJson, Except.ok.injEq] at read
      exact read ▸ trivial
  | cons field fields =>
      obtain ⟨name, json⟩ := field
      rw [fieldsOfJson] at read
      obtain ⟨entry, first, rest⟩ := ok_of_bind read
      obtain ⟨others, later, done⟩ := ok_of_bind rest
      cases done
      exact ⟨wellFormed_entryOfJson first, wellFormed_fieldsOfJson later⟩
end

/-- All descriptors of a schema that can be built are well-formed. -/
theorem IsBuilt.wellFormed {schema : Schema} (built : IsBuilt schema) :
    Schema.All WellFormed schema := by
  induction built with
  | empty => trivial
  | @field schema larger name text built added ih =>
      unfold addField at added
      cases read : typeEntry name text with
      | error error => simp [read, Except.map] at added
      | ok entry =>
          simp only [read, Except.map, Except.ok.injEq] at added
          exact added ▸ ih.insert (wellFormed_typeEntry read) name
  | nested name built inside ih inner =>
      exact ih.insert (by rwa [Entry.All]) name
  | @json json schema read =>
      cases json with
      | object fields => exact wellFormed_fieldsOfJson read
      | _ => simp [ofJson] at read

end Schema

end Mixfix
