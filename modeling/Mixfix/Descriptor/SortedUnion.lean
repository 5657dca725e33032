import Mixfix.Descriptor.Text

/-!
# Sorted unions

The union that describes a result which may come from several sources: its members are those of the
sources, each text once, in the order of their texts.
-/

set_option autoImplicit false

namespace Mixfix.Descriptor

/-- Adds a member under its text, unless one of the same text is there. -/
def addMember (byText : Dict Descriptor) (member : Descriptor) : Dict Descriptor :=
  if Dict.contains byText member.text then byText else Dict.insert member.text member byText

/-- The members of all the descriptors, under their texts. -/
def membersByText (descriptors : List Descriptor) : Dict Descriptor :=
  (descriptors.flatMap members).foldl addMember []

/-- The union of descriptors without repetitions, sorted by text. -/
def sortedUnion (descriptors : List Descriptor) : Descriptor :=
  unionOf ((membersByText descriptors).map Prod.snd)

end Mixfix.Descriptor
