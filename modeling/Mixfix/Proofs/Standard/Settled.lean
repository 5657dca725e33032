import Mathlib.Logic.Relation
import Mixfix.Proofs.Standard.Notes

/-!
# Where expressions end, whatever their types are

An operand ends where no operator that takes it stands ahead (`Stops`), which is a matter of its type.
In a text that is one expression it ends where no operator of its floor or a tighter one stands at
all: one that does not take the operand would not take anything else that ends there either. So how
such a text is divided into operands does not depend on types (`whole_ok_iff_settled`).

`Settled` is the language of standard expressions with this end of operands. It is defined along the
depth: an expression is something that starts one (`Started`), extended by operators one after the
other (`Joined`), where the operands inside are settled at a smaller depth.
-/

set_option autoImplicit false

namespace Mixfix.Standard

open Parse Lexeme
open Descriptor (WellFormed)

/-! ## The relation -/

/-- A way of writing operands of a precedence between two cursors. -/
abbrev Writing := Precedence → Tree → Cursor → Cursor → Prop

/-- A tree that is written without an operator between operands, outside of parentheses. -/
inductive Started (schema : Schema) (limit : Nat) (Operand : Writing) :
    Tree → Cursor → Cursor → Prop
  | constant {cursor : Cursor} {lexeme : Lexeme Value}
      (shut : token? table.tokens openParen cursor = none)
      (found : constant? cursor = .ok (some lexeme)) :
      Started schema limit Operand (literalTree lexeme).1 cursor lexeme.next
  | field {cursor next : Cursor} {tree : Tree}
      (shut : token? table.tokens openParen cursor = none)
      (noConstant : constant? cursor = .ok none)
      (noOpener : ∀ op ∈ openers, token? table.tokens op.token cursor = none)
      (found : reference? schema cursor = .ok (some (tree, next))) :
      Started schema limit Operand tree cursor next
  | group {cursor next : Cursor} {tree : Tree} {opening closing : Lexeme String}
      (opened : token? table.tokens openParen cursor = some opening)
      (inside : Operand .loosest tree opening.next next)
      (closed : token? table.tokens closeParen next = some closing) :
      Started schema limit Operand (tree.widen ⟨opening.span.start, closing.span.stop⟩) cursor
        closing.next
  | opener {cursor next : Cursor} {operand : Tree} {op : Opener} {lexeme : Lexeme String}
      (known : op ∈ openers)
      (shut : token? table.tokens openParen cursor = none)
      (noConstant : constant? cursor = .ok none)
      (led : token? table.tokens op.token cursor = some lexeme)
      (inside : Operand openerFloor operand lexeme.next next)
      (calm : Calm openerFloor.rank next)
      (accepted : ∀ type ∈ op.demand.type?, type.accepts operand.type = true)
      (shallow : (op.node operand lexeme.span.start next).depth ≤ limit) :
      Started schema limit Operand (op.node operand lexeme.span.start next) cursor next

/-- An expression is extended by an operator of a floor or a tighter one. -/
inductive Joined (limit : Nat) (Operand : Writing) (floor : Precedence) : Parsed → Parsed → Prop
  | between {middle next : Cursor} {left right : Tree} {op : Infix} {lexeme : Lexeme String}
      (known : op ∈ infixes)
      (tight : floor.atMost (.level op.level) = true)
      (chosen : extender? left middle = some op.candidate)
      (led : token? table.tokens op.token middle = some lexeme)
      (inside : Operand op.rightFloor right lexeme.next next)
      (calm : Calm op.rightFloor.rank next)
      (accepted : ∀ type ∈ op.demand.type?, type.accepts right.type = true)
      (shallow : (op.node left right next).depth ≤ limit) :
      Joined limit Operand floor (left, middle) (op.node left right next, next)
  | chosen {middle behind next : Cursor} {condition positive negative : Tree}
      {mark colon : Lexeme String}
      (tight : floor.atMost choiceFloor = true)
      (extended : extender? condition middle = some (1, choice))
      (led : token? table.tokens "?" middle = some mark)
      (inside : Operand .loosest positive mark.next behind)
      (divided : token? table.tokens ":" behind = some colon)
      (last : Operand choiceFloor negative colon.next next)
      (calm : Calm choiceFloor.rank next)
      (shallow : (choiceNode condition positive negative next).depth ≤ limit) :
      Joined limit Operand floor (condition, middle)
        (choiceNode condition positive negative next, next)

/-- A tree is written between two cursors, where every operand ends where no operator of its floor
stands. -/
def Settled (schema : Schema) (limit : Nat) : Nat → Writing
  | 0 => fun _ _ _ _ => False
  | depth + 1 => fun floor tree cursor next => ∃ atom middle,
      Started schema limit (Settled schema limit depth) atom cursor middle ∧
        Relation.ReflTransGen (Joined limit (Settled schema limit depth) floor) (atom, middle)
          (tree, next)

variable {schema : Schema} {limit depth : Nat} {floor : Precedence} {tree : Tree}
  {cursor next : Cursor}

/-! ## Settled trees are written -/

theorem Calm.stops (calm : Calm floor.rank cursor) (tree : Tree) : Stops floor tree cursor :=
  fun c mem tight _ => calm c mem (of_decide_eq_true tight)

theorem Started.written {Operand : Writing}
    (operands : ∀ floor tree cursor next, Operand floor tree cursor next →
      Written schema limit depth floor tree cursor next)
    (started : Started schema limit Operand tree cursor next) :
    Written schema limit (depth + 1) floor tree cursor next := by
  cases started with
  | constant shut found => exact .constant shut found
  | field shut noConstant noOpener found => exact .field shut noConstant noOpener found
  | group opened inside closed =>
      have calm := calm_of_token (.inl rfl) closed Precedence.loosest.rank
      exact .group opened (operands _ _ _ _ inside) (calm.stops _) closed
  | opener known shut noConstant led inside calm accepted shallow =>
      exact .opener known shut noConstant led (operands _ _ _ _ inside) (calm.stops _) accepted
        shallow

theorem Joined.written {Operand : Writing}
    (operands : ∀ floor tree cursor next, Operand floor tree cursor next →
      Written schema limit depth floor tree cursor next)
    {first second : Parsed} (joined : Joined limit Operand floor first second)
    (before : Written schema limit (depth + 1) floor first.1 cursor first.2) :
    Written schema limit (depth + 1) floor second.1 cursor second.2 := by
  cases joined with
  | between known tight chosen led inside calm accepted shallow =>
      exact .between known tight before chosen led (operands _ _ _ _ inside) (calm.stops _) accepted
        shallow
  | chosen tight extended led inside divided last calm shallow =>
      have ends := calm_of_token (.inr rfl) divided Precedence.loosest.rank
      exact .chosen tight before extended led (operands _ _ _ _ inside) (ends.stops _) divided
        (operands _ _ _ _ last) (calm.stops _) shallow

theorem Settled.written (settled : Settled schema limit depth floor tree cursor next) :
    Written schema limit depth floor tree cursor next := by
  induction depth generalizing floor tree cursor next with
  | zero => exact settled.elim
  | succ depth ih =>
      obtain ⟨atom, middle, started, chain⟩ := settled
      have operands : ∀ floor tree cursor next, Settled schema limit depth floor tree cursor next →
          Written schema limit depth floor tree cursor next := fun _ _ _ _ => ih
      suffices ∀ last : Parsed, Relation.ReflTransGen (Joined limit (Settled schema limit depth)
          floor) (atom, middle) last → Written schema limit (depth + 1) floor last.1 cursor last.2 from
        this _ chain
      intro last chain
      induction chain with
      | refl => exact started.written operands
      | tail _ joined before => exact joined.written operands before

/-! ## Written trees are settled -/

/-- A written tree is settled if no operator stands behind it that is tight enough to extend its open
end. -/
theorem Written.settled (types : Schema.All WellFormed schema)
    (written : Written schema limit depth floor tree cursor next)
    (calm : tree.isBare = true → Calm (edge tree) next) :
    Settled schema limit depth floor tree cursor next := by
  induction written with
  | constant shut found => exact ⟨_, _, .constant shut found, .refl⟩
  | field shut noConstant noOpener found =>
      exact ⟨_, _, .field shut noConstant noOpener found, .refl⟩
  | group opened inside ends closed ih =>
      have settled := ih fun _ => calm_of_token (.inl rfl) closed _
      exact ⟨_, _, .group opened settled closed, .refl⟩
  | opener known shut noConstant led inside ends accepted shallow ih =>
      obtain ⟨quiet, inherits⟩ := inside.calm_operand known calm
      exact ⟨_, _, .opener known shut noConstant led (ih inherits) quiet.opener accepted shallow,
        .refl⟩
  | between known tight before chosen led inside ends accepted shallow left_ih right_ih =>
      obtain ⟨quiet, inherits⟩ := inside.calm_right known calm
      obtain ⟨atom, start, started, chain⟩ :=
        left_ih fun bare => before.calm_of_extender types chosen bare
      exact ⟨atom, start, started,
        chain.tail (.between known tight chosen led (right_ih inherits) quiet accepted shallow)⟩
  | chosen tight before extended led inside ends divided last lastEnds shallow first_ih second_ih
      third_ih =>
      obtain ⟨quiet, inherits⟩ := last.calm_negative calm
      have second := second_ih fun _ => calm_of_token (.inr rfl) divided _
      obtain ⟨atom, start, started, chain⟩ :=
        first_ih fun bare => before.calm_of_extender types extended bare
      exact ⟨atom, start, started,
        chain.tail (.chosen tight extended led second divided (third_ih inherits) quiet shallow)⟩

/-- A text is one expression if it is settled up to blanks at its end. -/
theorem whole_ok_iff_settled (types : Schema.All WellFormed schema) {source : String} :
    whole (setting schema limit) source = .ok tree ↔
      ∃ next, Settled schema limit limit .loosest tree (.start source) next ∧
        next.skipBlanks.rest = [] := by
  rw [whole_ok_iff]
  constructor
  · rintro ⟨next, written, _, atEnd⟩
    exact ⟨next, written.settled types fun _ => calm_of_atEnd atEnd _, atEnd⟩
  · rintro ⟨next, settled, atEnd⟩
    exact ⟨next, settled.written, (calm_of_atEnd atEnd _).stops _, atEnd⟩

end Mixfix.Standard
