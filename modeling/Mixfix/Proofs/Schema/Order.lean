import Mixfix.Proofs.Descriptor.Reading
import Mixfix.Schema.Basic

/-!
# Schemas in order

The fields of a schema are visited by name, in the schema and in every object inside of it. So the
names have to ascend at every depth (`Schema.Ordered`). A schema gets its fields one by one, each
put in its place (`ordered_addField`, `ordered_addNested`), and a schema that is read from JSON has
the order of the JSON objects (`ordered_ofJson`).
-/

set_option autoImplicit false

namespace Mixfix

mutual
/-- The names ascend in all objects of a field. -/
def Entry.Ordered : Entry → Prop
  | .type _ => True
  | .nested fields => Dict.Ordered fields ∧ Schema.Inside fields
/-- The names ascend in all objects inside of fields. -/
def Schema.Inside : List (String × Entry) → Prop
  | [] => True
  | (_, entry) :: fields => entry.Ordered ∧ Schema.Inside fields
end

/-- The names of a schema ascend at every depth. -/
def Schema.Ordered (schema : Schema) : Prop := (Entry.nested schema).Ordered

mutual
/-- The names ascend in all objects of a JSON value. -/
def Json.Ordered : Json → Prop
  | .object fields => Dict.Ordered fields ∧ Json.Inside fields
  | _ => True
/-- The names ascend in all objects inside of fields. -/
def Json.Inside : List (String × Json) → Prop
  | [] => True
  | (_, json) :: fields => json.Ordered ∧ Json.Inside fields
end

namespace Schema

variable {schema : Schema}

theorem ordered_iff : schema.Ordered ↔ Dict.Ordered schema ∧ Inside schema := by
  rw [Ordered, Entry.Ordered]

/-! ## Building -/

theorem Inside.insert (inside : Inside schema) {entry : Entry} (ordered : entry.Ordered)
    (name : String) : Inside (Dict.insert name entry schema) := by
  induction schema with
  | nil => exact ⟨ordered, trivial⟩
  | cons head rest ih =>
      obtain ⟨key, first⟩ := head
      have ⟨here, later⟩ : first.Ordered ∧ Inside rest := by rwa [Inside] at inside
      simp only [Dict.insert]
      split
      · exact ⟨ordered, inside⟩
      · split
        · exact ⟨ordered, later⟩
        · exact ⟨here, ih later⟩

/-- A field in order can be put in its place. -/
theorem Ordered.insert (ordered : schema.Ordered) {entry : Entry} (inner : entry.Ordered)
    (name : String) : Ordered (Dict.insert name entry schema) := by
  obtain ⟨names, inside⟩ := ordered_iff.mp ordered
  exact ordered_iff.mpr ⟨Dict.ordered_insert name entry names, inside.insert inner name⟩

/-- A schema without fields is in order. -/
theorem ordered_empty : Ordered [] := ordered_iff.mpr ⟨List.Pairwise.nil, trivial⟩

theorem ordered_typeEntry {path text : String} {entry : Entry}
    (read : typeEntry path text = .ok entry) : entry.Ordered := by
  unfold typeEntry at read
  split at read
  · cases read
    trivial
  · cases read

/-- A field of a descriptor text keeps the order. -/
theorem ordered_addField {larger : Schema} {name text : String} (ordered : schema.Ordered)
    (added : schema.addField name text = .ok larger) : larger.Ordered := by
  unfold addField at added
  cases read : typeEntry name text with
  | error error => simp [read, Except.map] at added
  | ok entry =>
      simp only [read, Except.map, Except.ok.injEq] at added
      exact added ▸ ordered.insert (ordered_typeEntry read) name

/-- A field with fields of its own keeps the order. -/
theorem ordered_addNested {inner : Schema} (ordered : schema.Ordered) (inside : inner.Ordered)
    (name : String) : (schema.addNested name inner).Ordered :=
  ordered.insert inside name

/-! ## Reading -/

/-- The fields that are read have the names of the JSON object. -/
theorem names_fieldsOfJson {fields : List (String × Json)} {path : String}
    {read : List (String × Entry)} (done : fieldsOfJson path fields = .ok read) :
    Dict.names read = Dict.names fields := by
  induction fields generalizing read with
  | nil =>
      cases done
      rfl
  | cons field fields ih =>
      obtain ⟨name, json⟩ := field
      rw [fieldsOfJson] at done
      obtain ⟨entry, _, rest⟩ := ok_of_bind done
      obtain ⟨others, later, same⟩ := ok_of_bind rest
      cases same
      exact congrArg (name :: ·) (ih later)

mutual
theorem ordered_entryOfJson {path : String} {entry : Entry} : (json : Json) → json.Ordered →
    entryOfJson path json = .ok entry → entry.Ordered
  | .string text, _, read => ordered_typeEntry (by rwa [entryOfJson] at read)
  | .object fields, ordered, read => by
    rw [entryOfJson] at read
    rw [Json.Ordered] at ordered
    obtain ⟨inner, done, same⟩ := ok_of_bind read
    cases same
    rw [Entry.Ordered, Dict.Ordered, names_fieldsOfJson done]
    exact ⟨ordered.1, inside_fieldsOfJson fields ordered.2 done⟩
  | .null, _, read => by cases read
  | .boolean _, _, read => by cases read
  | .integer _, _, read => by cases read
  | .float _, _, read => by cases read
  | .array _, _, read => by cases read
theorem inside_fieldsOfJson {path : String} {read : List (String × Entry)} :
    (fields : List (String × Json)) → Json.Inside fields → fieldsOfJson path fields = .ok read →
    Inside read
  | [], _, done => by
    cases done
    trivial
  | (name, json) :: fields, inside, done => by
    rw [fieldsOfJson] at done
    rw [Json.Inside] at inside
    obtain ⟨entry, first, rest⟩ := ok_of_bind done
    obtain ⟨others, later, same⟩ := ok_of_bind rest
    cases same
    exact ⟨ordered_entryOfJson json inside.1 first, inside_fieldsOfJson fields inside.2 later⟩
end

/-- A schema has the order of the JSON value that it is read from. -/
theorem ordered_ofJson {json : Json} (ordered : json.Ordered) (read : ofJson json = .ok schema) :
    schema.Ordered := by
  cases json with
  | object fields =>
      rw [Json.Ordered] at ordered
      rw [ofJson] at read
      refine ordered_iff.mpr ⟨?_, inside_fieldsOfJson fields ordered.2 read⟩
      rw [Dict.Ordered, names_fieldsOfJson read]
      exact ordered.1
  | _ => cases read

end Schema

end Mixfix
