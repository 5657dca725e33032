import Mixfix.Proofs.Parse.References
import Mixfix.Schema.Basic

/-!
# More fields

A schema extends another one (`Schema.Extends`) if it has all fields of that one: each with the same
descriptor, or with fields of its own that extend those which it had. It can have more of them, at any
nesting.

A reference that was read with the smaller schema is read with the larger one as the same tree
(`Parse.reference?_of_extends`). Only a field without fields of its own, or the end of the dotted
text, ends a path: nothing that is added to the nested fields on the way can carry it on.
-/

set_option autoImplicit false

namespace Mixfix

mutual
/-- A field is the same, or has all nested fields that another one has. -/
def Entry.Extends : Entry → Entry → Prop
  | larger, .type descriptor => larger = .type descriptor
  | larger, .nested fields => ∃ others, larger = .nested others ∧ Schema.Extends others fields
/-- A schema has all fields that another one has. -/
def Schema.Extends : Schema → List (String × Entry) → Prop
  | _, [] => True
  | larger, (name, entry) :: fields =>
    (∃ entry', Dict.get? larger name = some entry' ∧ entry'.Extends entry) ∧
      Schema.Extends larger fields
end

variable {schema larger : Schema}

theorem Schema.Extends.get? (more : larger.Extends schema) {name : String} {entry : Entry}
    (found : Dict.get? schema name = some entry) :
    ∃ entry', Dict.get? larger name = some entry' ∧ entry'.Extends entry := by
  induction schema with
  | nil => cases found
  | cons head rest ih =>
      obtain ⟨key, first⟩ := head
      rw [Schema.Extends] at more
      rw [Dict.get?_cons] at found
      split at found
      · next same =>
          cases found
          exact same ▸ more.1
      · exact ih more.2 found

/-- What an expression knows about a value is what it knew before. -/
theorem Entry.Extends.descriptor {entry larger : Entry} (more : larger.Extends entry) :
    larger.descriptor = entry.descriptor := by
  cases entry with
  | type descriptor =>
      rw [Entry.Extends] at more
      rw [more]
  | nested fields =>
      rw [Entry.Extends] at more
      obtain ⟨others, rfl, _⟩ := more
      rfl

namespace Parse

theorem carries_extends : Carries fun entry larger => larger.Extends entry where
  type := by
    intro descriptor entry more
    rw [Entry.Extends] at more
    exact ⟨descriptor, more⟩
  nested := by
    intro fields entry more
    rw [Entry.Extends] at more
    obtain ⟨others, rfl, inside⟩ := more
    exact ⟨others, rfl, inside.get?⟩

/-- A reference is read as the same tree when there are more fields. -/
theorem reference?_of_extends (more : larger.Extends schema) {cursor : Cursor}
    {parsed : Parsed} (ok : reference? schema cursor = .ok (some parsed)) :
    reference? larger cursor = .ok (some parsed) := by
  obtain ⟨path, entry, entry', extent, next, alike, rfl, read⟩ :=
    reference?_of_carries carries_extends more.get? ok
  rw [← alike.descriptor]
  exact read

end Parse

end Mixfix
