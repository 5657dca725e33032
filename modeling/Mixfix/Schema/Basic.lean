import Mixfix.Descriptor.Reader
import Mixfix.Json.Basic

/-!
# Schemas

A schema names the fields that an expression may read, each with a type descriptor or with a schema
of its own. It is read from a JSON object; the first error, in name order, is reported with the path
of its field. Paths through nested schemas are written with points.
-/

set_option autoImplicit false

namespace Mixfix

/-- A field of a schema. -/
inductive Entry where
  /-- A field of a described type. -/
  | type (descriptor : Descriptor)
  /-- An object with fields of its own. -/
  | nested (fields : List (String × Entry))

/-- Fields under their names. -/
abbrev Schema := Dict Entry

namespace Entry

/-- What an expression knows about the value of a field. -/
def descriptor : Entry → Descriptor
  | .type descriptor => descriptor
  | .nested _ => .object

/-- Whether a field is an object with fields of its own. -/
def isNested : Entry → Bool
  | .type _ => false
  | .nested _ => true

/-- Follows a path of names into nested fields. -/
def follow (entry : Entry) : List String → Option Entry
  | [] => some entry
  | name :: path =>
    match entry with
    | .type _ => none
    | .nested fields =>
      match Dict.get? fields name with
      | some inner => inner.follow path
      | none => none

end Entry

namespace Schema

/-- The field at the end of a path of names. -/
def resolve (schema : Schema) : List String → Option Entry
  | [] => none
  | name :: path => (Dict.get? schema name).bind (·.follow path)

/-- The path of a field below a path; the empty path is above all fields. -/
def below (path name : String) : String :=
  if path.isEmpty then name else path ++ "." ++ name

/-- What is wrong with a schema. -/
inductive SchemaError where
  | invalidDescriptor (field : String) (error : Descriptor.ParseError)
  | invalidEntry (field : String)
  | notAnObject

/-- The message of an error. -/
def SchemaError.message : SchemaError → String
  | .invalidDescriptor field error => "field `" ++ field ++ "`: " ++ error.message
  | .invalidEntry field =>
    "field `" ++ field ++ "`: expected a type descriptor string or a nested object"
  | .notAnObject => "a schema must be a JSON object"

/-- The field of a descriptor text. -/
def typeEntry (path text : String) : Except SchemaError Entry :=
  match Descriptor.parse text with
  | .ok descriptor => .ok (.type descriptor)
  | .error error => .error (.invalidDescriptor path error)

/-- Adds a field of a descriptor text. -/
def addField (schema : Schema) (name text : String) : Except SchemaError Schema :=
  (typeEntry name text).map (Dict.insert name · schema)

/-- Adds a field with fields of its own. -/
def addNested (schema : Schema) (name : String) (nested : Schema) : Schema :=
  Dict.insert name (.nested nested) schema

mutual
/-- The field of a JSON value at a path. -/
def entryOfJson (path : String) : Json → Except SchemaError Entry
  | .string text => typeEntry path text
  | .object fields => do .ok (.nested (← fieldsOfJson path fields))
  | _ => .error (.invalidEntry path)
/-- The fields of a JSON object at a path. -/
def fieldsOfJson (path : String) : List (String × Json) → Except SchemaError (List (String × Entry))
  | [] => .ok []
  | (name, json) :: fields => do
    let entry ← entryOfJson (below path name) json
    .ok ((name, entry) :: (← fieldsOfJson path fields))
end

/-- The schema of a JSON object. -/
def ofJson : Json → Except SchemaError Schema
  | .object fields => fieldsOfJson "" fields
  | _ => .error .notAnObject

end Schema

end Mixfix
