import Mixfix.Decimal.Binary
import Mixfix.Evaluation

/-!
# The standard language

A language of its own, and a stock of nodes for others: choice and default values, logic, equality,
comparison, arithmetic and joining of texts.

| level | nodes | associate |
|-------|-------|-----------|
| 1 | choice | to the right |
| 2 | or, default value | to the left |
| 3 | and | to the left |
| 4 | equal, different | to the left |
| 5 | comparisons | to the left |
| 6 | sum, joined texts, difference | to the left |
| 7 | product, quotient, remainder | to the left |
| 8 | opposite, negation | to the right |
| 9 | power | to the right |

Arithmetic is done in decimals, so a tenth and two tenths are three tenths, and gives integers where
it can. Where an operand or a result has no decimal it is done in floating point. Both branches of a
choice are evaluated.
-/

set_option autoImplicit false

namespace Mixfix.Standard

/-! ## Rules of logic and equality -/

/-- One of two values, by a condition. -/
def choose : Rule := fun args => do
  args.value (if ← args.boolean "condition" then "then" else "else")

/-- Whether one of two conditions holds. -/
def either : Rule := fun args => do
  if ← args.boolean "left" then .ok (.boolean true) else .ok (.boolean (← args.boolean "right"))

/-- Whether two conditions hold. -/
def both : Rule := fun args => do
  if ← args.boolean "left" then .ok (.boolean (← args.boolean "right")) else .ok (.boolean false)

/-- The left value, or the right one when the left one is nullish. -/
def orElse : Rule := fun args => do
  let left ← args.value "left"
  if left.isNullish then args.value "right" else .ok left

/-- Whether two values are the same. -/
def equal : Rule := fun args => do
  let left ← args.value "left"
  let right ← args.value "right"
  .ok (.boolean (left.same right))

/-- Whether two values are not the same. -/
def different : Rule := fun args => do
  let left ← args.value "left"
  let right ← args.value "right"
  .ok (.boolean !(left.same right))

/-- The opposite of a condition. -/
def negate : Rule := fun args => do
  .ok (.boolean !(← args.boolean "operand"))

/-! ## Rules of comparison -/

/-- How two texts compare: by code points. -/
def compareTexts (left right : String) : Ordering :=
  if left < right then .lt else if left = right then .eq else .gt

/-- How two values compare, if they are both texts or both numbers. -/
def compareValues (left right : Value) : Except RuleError Ordering :=
  match left.toText?, right.toText? with
  | some a, some b => .ok (compareTexts a b)
  | _, _ =>
    match left.toFloat?, right.toFloat? with
    | some x, some y =>
      match x.compare? y with
      | some order => .ok order
      | none => .error .comparedNaN
    | _, _ => .error (.incomparable left.kindName right.kindName)

/-- Whether two values compare in one of some ways. -/
def compared (test : Ordering → Bool) : Rule := fun args => do
  let left ← args.value "left"
  let right ← args.value "right"
  .ok (.boolean (test (← compareValues left right)))

/-! ## Rules of arithmetic -/

/-- The decimal of a number, if it has one. -/
def toDecimal? : Value → Option Decimal
  | .integer n => some (Decimal.ofInt n.toInt)
  | .float x => Decimal.ofBinary? x
  | _ => none

/-- The number of a decimal: an integer where it can be one. -/
def ofDecimal (x : Decimal) : Value :=
  match x.toInt?.bind Numeral.toInt64? with
  | some n => .integer n
  | none => .float x.toBinary

/-- The result of an operation on decimals, if both operands and the result have one. -/
def exactly? (operation : Decimal → Decimal → Option Decimal) (left right : Value) :
    Option Value := do
  let x ← toDecimal? left
  let y ← toDecimal? right
  (operation x y).map ofDecimal

/-- An operation on two numbers, in decimals or else in floating point. -/
def arithmetic (exact : Decimal → Decimal → Option Decimal)
    (approximate : Binary64 → Binary64 → Binary64) : Rule := fun args => do
  let left ← args.value "left"
  let right ← args.value "right"
  match exactly? exact left right with
  | some result => .ok result
  | none => .ok (.float (approximate (← args.number "left") (← args.number "right")))

/-- An operation on two numbers that has no result when the right one is zero. -/
def divided (error : RuleError) (exact : Decimal → Decimal → Option Decimal)
    (approximate : Binary64 → Binary64 → Binary64) : Rule := fun args => do
  if (← args.number "right").isZero then .error error else arithmetic exact approximate args

/-- The opposite of a number. -/
def opposite : Rule := fun args => do
  match ← args.value "operand" with
  | .integer n =>
    match Numeral.toInt64? (-n.toInt) with
    | some n => .ok (.integer n)
    | none => .ok (.float (Binary64.ofInt n.toInt).neg)
  | _ => .ok (.float (← args.number "operand").neg)

/-- The power of two integers, if the exponent is in range and the power is an integer of 64 bits. A
base of at least two in size leaves the range with an exponent of 64. -/
def integerPower? (base exponent : Int64) : Option Int64 :=
  let base := base.toInt
  let exponent := exponent.toInt
  if exponent < 0 || Int.pow 2 32 ≤ exponent then none
  else if base = 0 || base = 1 || base = -1 then
    some (Int64.ofInt (Int.pow base (if exponent = 0 then 0 else if exponent % 2 = 0 then 2 else 1)))
  else if 64 ≤ exponent then none
  else Numeral.toInt64? (Int.pow base exponent.toNat)

/-- The power of two numbers. -/
def power : Rule := fun args => do
  let approximate : Except RuleError Value := do
    .ok (.float ((← args.number "left").pow (← args.number "right")))
  match ← args.value "left", ← args.value "right" with
  | .integer base, .integer exponent =>
    match integerPower? base exponent with
    | some n => .ok (.integer n)
    | none => approximate
  | _, _ => approximate

/-- Two texts joined. -/
def join : Rule := fun args => do
  .ok (.string ((← args.string "left") ++ (← args.string "right")))

/-! ## Nodes -/

/-- A node that compares its operands. -/
def comparison (name token : String) (test : Ordering → Bool) : Definition :=
  ((Definition.binary name 5 token (some "number | string")).returns (.fixed "boolean")).computedBy
    (compared test)

/-- A node of two numbers that gives a number. -/
def numeric (name : String) (level : UInt32) (token : String) (rule : Rule) : Definition :=
  ((Definition.binary name level token (some "number")).returns (.fixed "number")).computedBy rule

/-- A node of two truth values that gives a truth value. -/
def logical (name : String) (level : UInt32) (token : String) (rule : Rule) : Definition :=
  ((Definition.binary name level token (some "boolean")).returns (.fixed "boolean")).computedBy rule

/-- A node of two values of any type that gives a truth value. -/
def equality (name token : String) (rule : Rule) : Definition :=
  ((Definition.binary name 4 token none).returns (.fixed "boolean")).computedBy rule

/-- A node with a token before its operand, of a type that is also the type of its result. -/
def unary (name token type : String) (rule : Rule) : Definition :=
  ((Definition.plain name (.level 8)
    [.text token, .operand .rhs (some type) (some "operand")]).returns
      (.fixed type)).computedBy rule

/-- The choice between two expressions. -/
def ternary : Definition :=
  ((Definition.plain "ternary" (.level 1)
    [.operand .lhs (some "boolean") (some "condition"),
     .text "?", .operand .expr none (some "then"),
     .text ":", .operand .rhs none (some "else")]).returns
      (.union ["then", "else"])).computedBy choose

/-- The default value. -/
def coalesce : Definition :=
  ((Definition.binary "coalesce" 2 "??" none).returns (.union ["left", "right"])).computedBy orElse

/-- The joined texts. -/
def concat : Definition :=
  ((Definition.binary "concat" 6 "+" (some "string")).returns (.fixed "string")).computedBy join

/-- The power, chained from right to left. -/
def pow : Definition :=
  ((Definition.plain "pow" (.level 9)
    [.operand .lhs (some "number") (some "left"), .text "**",
     .operand .rhs (some "number") (some "right")]).returns (.fixed "number")).computedBy power

/-- The standard nodes. -/
def definitions : List Definition :=
  [ternary,
   logical "or" 2 "||" either,
   coalesce,
   logical "and" 3 "&&" both,
   equality "eq" "==" equal,
   equality "ne" "!=" different,
   comparison "lt" "<" (· == .lt),
   comparison "le" "<=" (· != .gt),
   comparison "gt" ">" (· == .gt),
   comparison "ge" ">=" (· != .lt),
   numeric "add" 6 "+" (arithmetic Decimal.add Binary64.add),
   concat,
   numeric "sub" 6 "-" (arithmetic Decimal.sub Binary64.sub),
   numeric "mul" 7 "*" (arithmetic Decimal.mul Binary64.mul),
   numeric "div" 7 "/" (divided .divisionByZero Decimal.div Binary64.div),
   numeric "mod" 7 "%" (divided .moduloByZero Decimal.rem Binary64.rem),
   unary "neg" "-" "number" opposite,
   unary "not" "!" "boolean" negate,
   pow]

/-- The grammar of the standard nodes. -/
def grammar : Except BuildError Grammar := Grammar.build definitions

end Mixfix.Standard
