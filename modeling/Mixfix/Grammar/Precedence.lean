/-!
# Precedence

How tightly a node binds: numbered levels from the loosest up, and beyond all of them the precedence
of atoms. Each precedence has a rank of its own (`Precedence.rank_inj`), and the order of
precedences is the order of their ranks; the next tighter one has the next rank
(`Precedence.rank_tighter`).
-/

set_option autoImplicit false

namespace Mixfix

/-- How tightly a node binds. -/
inductive Precedence where
  | level (number : UInt32)
  | atom
deriving DecidableEq

namespace Precedence

/-- The place among all precedences, from the loosest up. -/
def rank : Precedence → Nat
  | .level number => number.toNat
  | .atom => UInt32.size

/-- The loosest precedence. -/
def loosest : Precedence := .level 0

/-- The next tighter precedence; behind the last level stand the atoms. -/
def tighter : Precedence → Precedence
  | .level number =>
    if number.toNat + 1 < UInt32.size then .level (number + 1) else .atom
  | .atom => .atom

/-- Whether a precedence is at most as tight as another one. -/
def atMost (precedence other : Precedence) : Bool := precedence.rank ≤ other.rank

/-- The text of a precedence. -/
def text : Precedence → String
  | .level number => toString number.toNat
  | .atom => "atom"

/-! ## Ranks -/

/-- The next tighter precedence has the next rank, up to the atoms. -/
theorem rank_tighter (precedence : Precedence) :
    precedence.tighter.rank = min (precedence.rank + 1) atom.rank := by
  cases precedence with
  | atom => rfl
  | level number =>
    simp only [tighter]
    split
    · next fits =>
      have sum : (number + 1).toNat = number.toNat + 1 := by
        rw [UInt32.toNat_add]
        exact Nat.mod_eq_of_lt fits
      simp only [rank, sum]
      exact (Nat.min_eq_left (Nat.le_of_lt fits)).symm
    · next last =>
      simp only [rank]
      omega

/-- Precedences are told apart by their ranks. -/
theorem rank_inj {precedence other : Precedence} :
    precedence.rank = other.rank ↔ precedence = other := by
  constructor
  · intro same
    cases precedence with
    | atom =>
      cases other with
      | atom => rfl
      | level number => exact absurd same (Nat.ne_of_gt number.toNat_lt)
    | level number =>
      cases other with
      | atom => exact absurd same (Nat.ne_of_lt number.toNat_lt)
      | level other => exact congrArg level (UInt32.toNat_inj.mp same)
  · exact fun same => same ▸ rfl

end Precedence

end Mixfix
