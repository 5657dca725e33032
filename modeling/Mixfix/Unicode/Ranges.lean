/-!
# Ranges of code points

A character property is kept as the ascending list of its maximal ranges of code points. Looking a
code point up walks the list and stops at the first range that does not end before it.
-/

set_option autoImplicit false

namespace Mixfix.Unicode

/-- A set of code points, as closed ranges in ascending order. -/
abbrev Ranges := List (Nat × Nat)

namespace Ranges

/-- Whether a code point lies in one of the ranges. -/
def contains : Ranges → Nat → Bool
  | [], _ => false
  | (first, last) :: rest, code => if last < code then contains rest code else first ≤ code

/-- A range that ends before a code point says nothing about it. -/
theorem contains_cons_of_lt {first last code : Nat} {rest : Ranges} (ends : last < code) :
    contains ((first, last) :: rest) code = contains rest code := by
  simp [contains, ends]

end Ranges

end Mixfix.Unicode
