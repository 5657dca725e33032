import Mixfix.Parse.Failure

/-!
# The trail of a parse

A parse tries alternatives and gives some of them up. The trail keeps what they failed with: the
best failure of an alternative that was given up, and every failure that was seen at all. Only the
former has an influence: when the parse fails, an alternative that got farther is reported in its
place.
-/

set_option autoImplicit false

namespace Mixfix

/-- The failures met so far. -/
structure Trail where
  /-- The best failure of an alternative that was given up. -/
  furthest : Option Failure
  /-- All failures, the latest first. -/
  seen : List Failure

namespace Trail

/-- No failures. -/
def empty : Trail := ⟨none, []⟩

/-- Adds a failure to those that were seen. -/
def see (failure : Failure) (trail : Trail) : Trail := { trail with seen := failure :: trail.seen }

/-- Keeps the failure of an alternative that is given up, if it is better than the one kept. -/
def record (failure : Failure) (trail : Trail) : Trail :=
  match trail.furthest with
  | none => { trail with furthest := some failure }
  | some best => if failure.outranks best then { trail with furthest := some failure } else trail

/-- The failure to report: the given one, unless an alternative that was given up got farther. Fatal
failures are always reported themselves. -/
def choose (failure : Failure) (trail : Trail) : Failure :=
  if failure.isFatal then failure
  else
    match trail.furthest with
    | none => failure
    | some best => if failure.offset < best.offset then best else failure

end Trail

/-- A step of a parse: it may fail, and leaves a trail in any case. -/
abbrev Step (α : Type) := ExceptT Failure (StateM Trail) α

namespace Step

variable {α : Type}

/-- Fails, leaving the failure on the trail. -/
def raise (failure : Failure) : Step α := do
  modify (Trail.see failure)
  throw failure

/-- Fails with the failure to report in place of one that is on the trail already. -/
def settle (failure : Failure) : Step α := do
  throw ((← get).choose failure)

/-- Fails with the failure to report in place of a new one. -/
def raiseSettled (failure : Failure) : Step α := do
  modify (Trail.see failure)
  settle failure

/-- Gives up an alternative because of a failure that is on the trail already. -/
def abandon (failure : Failure) : Step Unit := modify (Trail.record failure)

/-- Gives up an alternative because of a new failure. -/
def note (failure : Failure) : Step Unit :=
  modify fun trail => (trail.see failure).record failure

end Step

end Mixfix
