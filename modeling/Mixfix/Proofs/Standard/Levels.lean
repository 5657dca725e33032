import Mixfix.Proofs.Standard.Written

/-!
# Levels of nodes

The level of a node by its name, and where the table of levels asks for parentheses around an
operand (`needsParens`), which depends on the two nodes by their names and on the place of the
operand. What stands without them fits: it is as tight as its place asks for, and so is whatever
stands at its open end (`left_fits`, `right_fits`, `operand_fits`).
-/

set_option autoImplicit false

namespace Mixfix.Standard

open Parse

/-! ## Levels of nodes -/

/-- The name of a node. -/
def nodeName? : Tree → Option String
  | .node name _ _ _ _ => some name
  | _ => none

/-- The level of a node that starts with an operand, by its name. -/
def levelOf? (name : String) : Option Nat :=
  (candidates.find? (·.2.name == name)).map (·.1.toNat)

/-- The level of a tree that starts with an operand. -/
def infixLevel? (tree : Tree) : Option Nat := (nodeName? tree).bind levelOf?

/-- Whether a tree is an operator before its operand. -/
def isOpened (tree : Tree) : Bool :=
  (nodeName? tree).any fun name => openers.any (·.name == name)

/-- Whether a node is chained from right to left. -/
def isRightward (name : String) : Bool := name == "ternary" || name == "pow"

/-! ## Parentheses -/

/-- Whether a node of one level stands in parentheses as the first operand of a node of another
level: if it is looser, or as loose in a chain from right to left. -/
def looserLeft (level : Nat) (rightward : Bool) (inner : Nat) : Bool :=
  inner < level || (inner == level && rightward)

/-- Whether a node of one level stands in parentheses as the last operand of a node of another
level: if it is looser, or as loose in a chain from left to right. -/
def looserRight (level : Nat) (rightward : Bool) (inner : Nat) : Bool :=
  inner < level || (inner == level && !rightward)

/-- Whether an operand stands in parentheses at a place of a node. -/
def needsParens (node place : String) (operand : Tree) : Bool :=
  let level := (levelOf? node).getD 0
  if place = "then" then false
  else if place = "operand" then (infixLevel? operand).any (· < 8)
  else if place = "right" || place = "else" then
    (infixLevel? operand).any (looserRight level (isRightward node))
  else
    (infixLevel? operand).any (looserLeft level (isRightward node)) ||
      (node == "pow" && isOpened operand)

/-! ## Operands without parentheses -/

/-- The level from on which what follows a tree without parentheses must be quiet: that of the last
operand. No operator has the level of the operators before their operand. -/
def edge (tree : Tree) : Nat :=
  match infixLevel? tree with
  | some level => if (nodeName? tree).any isRightward then level else level + 1
  | none => if isOpened tree then 9 else 10

/-- The loosest level of the last operand of a candidate. -/
def rightLevel (c : UInt32 × Production) : Nat :=
  if isRightward c.2.name then c.1.toNat else c.1.toNat + 1

theorem levelOf?_candidate : ∀ c ∈ candidates, levelOf? c.2.name = some c.1.toNat := by decide

theorem levelOf?_opener : ∀ op ∈ openers, levelOf? op.name = none := by decide

theorem Infix.rank_rightFloor : ∀ op ∈ infixes, op.rightFloor.rank = rightLevel op.candidate := by
  decide

theorem edge_opener {op : Opener} (known : op ∈ openers) {tree : Tree}
    (named : nodeName? tree = some op.name) : edge tree = 9 := by
  have opened : ∀ op ∈ openers, openers.any (·.name == op.name) = true := by decide
  simp only [edge, infixLevel?, named, Option.bind_some, levelOf?_opener op known, isOpened,
    Option.any_some, opened op known, if_true]

theorem edge_candidate {c : UInt32 × Production} (mem : c ∈ candidates) {tree : Tree}
    (named : nodeName? tree = some c.2.name) : edge tree = rightLevel c := by
  simp [edge, infixLevel?, named, levelOf?_candidate c mem, rightLevel]

theorem exists_candidate {tree : Tree} {level : Nat} (found : infixLevel? tree = some level) :
    ∃ c ∈ candidates, c.1.toNat = level ∧ nodeName? tree = some c.2.name := by
  obtain ⟨name, named, found⟩ := Option.bind_eq_some_iff.mp found
  obtain ⟨c, first, rfl⟩ := Option.map_eq_some_iff.mp found
  have holds := List.find?_some first
  have same : c.2.name = name := by simpa using holds
  exact ⟨c, List.mem_of_find?_eq_some first, rfl, same ▸ named⟩

theorem needsParens_first {c : UInt32 × Production} (mem : c ∈ candidates) {place : String}
    (first : place = "left" ∨ place = "condition") (operand : Tree) :
    needsParens c.2.name place operand =
      ((infixLevel? operand).any (looserLeft c.1.toNat (isRightward c.2.name)) ||
        (c.2.name == "pow" && isOpened operand)) := by
  rcases first with rfl | rfl <;> simp [needsParens, levelOf?_candidate c mem]

theorem needsParens_last {c : UInt32 × Production} (mem : c ∈ candidates) {place : String}
    (last : place = "right" ∨ place = "else") (operand : Tree) :
    needsParens c.2.name place operand =
      (infixLevel? operand).any (looserRight c.1.toNat (isRightward c.2.name)) := by
  rcases last with rfl | rfl <;> simp [needsParens, levelOf?_candidate c mem]

theorem looserLeft_eq_false {level inner : Nat} {rightward : Bool} :
    looserLeft level rightward inner = false ↔
      level ≤ inner ∧ (rightward = true → level < inner) := by
  cases rightward with
  | false => simp [looserLeft]
  | true =>
      rw [looserLeft, Bool.and_true, Bool.or_eq_false_iff, decide_eq_false_iff_not,
        beq_eq_false_iff_ne, Nat.not_lt]
      exact ⟨fun ⟨least, other⟩ => ⟨least, fun _ => Nat.lt_of_le_of_ne least other.symm⟩,
        fun ⟨least, less⟩ => ⟨least, (Nat.ne_of_lt (less rfl)).symm⟩⟩

theorem looserRight_eq_false {level inner : Nat} {rightward : Bool} :
    looserRight level rightward inner = false ↔
      level ≤ inner ∧ (rightward = false → level < inner) := by
  cases rightward with
  | false =>
      rw [looserRight, Bool.not_false, Bool.and_true, Bool.or_eq_false_iff,
        decide_eq_false_iff_not, beq_eq_false_iff_ne, Nat.not_lt]
      exact ⟨fun ⟨least, other⟩ => ⟨least, fun _ => Nat.lt_of_le_of_ne least other.symm⟩,
        fun ⟨least, less⟩ => ⟨least, (Nat.ne_of_lt (less rfl)).symm⟩⟩
  | true => simp [looserRight]

/-- What a first operand without parentheses is fits into the table. -/
theorem left_fits {c : UInt32 × Production} (mem : c ∈ candidates) {place : String}
    (first : place = "left" ∨ place = "condition") {operand : Tree}
    (clear : needsParens c.2.name place operand = false) :
    c.1.toNat + 1 ≤ edge operand ∧
      ∀ level, infixLevel? operand = some level → c.1.toNat ≤ level := by
  have table : ∀ c ∈ candidates, ∀ inner ∈ candidates,
      looserLeft c.1.toNat (isRightward c.2.name) inner.1.toNat = false →
      c.1.toNat + 1 ≤ rightLevel inner ∧ c.1.toNat ≤ inner.1.toNat := by
    decide
  have bounded : ∀ c ∈ candidates, c.1.toNat < 10 ∧ (c.2.name ≠ "pow" → c.1.toNat < 9) := by
    decide
  rw [needsParens_first mem first, Bool.or_eq_false_iff] at clear
  cases found : infixLevel? operand with
  | some level =>
      obtain ⟨inner, mem', rfl, named⟩ := exists_candidate found
      rw [found, Option.any_some] at clear
      obtain ⟨quiet, tight⟩ := table c mem inner mem' clear.1
      refine ⟨by rwa [edge_candidate mem' named], fun level same => ?_⟩
      cases same
      exact tight
  | none =>
      refine ⟨?_, by simp⟩
      simp only [edge, found]
      split
      · next opened =>
          have notPow : c.2.name ≠ "pow" := by
            rintro same
            simp [same, opened] at clear
          exact (bounded c mem).2 notPow
      · exact (bounded c mem).1

/-- What a last operand without parentheses is fits into the table. -/
theorem right_fits {c : UInt32 × Production} (mem : c ∈ candidates) {place : String}
    (last : place = "right" ∨ place = "else") {operand : Tree}
    (clear : needsParens c.2.name place operand = false) :
    rightLevel c ≤ edge operand ∧
      ∀ level, infixLevel? operand = some level → rightLevel c ≤ level := by
  have table : ∀ c ∈ candidates, ∀ inner ∈ candidates,
      looserRight c.1.toNat (isRightward c.2.name) inner.1.toNat = false →
      rightLevel c ≤ rightLevel inner ∧ rightLevel c ≤ inner.1.toNat := by
    decide
  have bounded : ∀ c ∈ candidates, rightLevel c ≤ 9 := by decide
  rw [needsParens_last mem last] at clear
  cases found : infixLevel? operand with
  | some level =>
      obtain ⟨inner, mem', rfl, named⟩ := exists_candidate found
      rw [found, Option.any_some] at clear
      obtain ⟨quiet, tight⟩ := table c mem inner mem' clear
      refine ⟨by rwa [edge_candidate mem' named], fun level same => ?_⟩
      cases same
      exact tight
  | none =>
      refine ⟨?_, by simp⟩
      have within := bounded c mem
      simp only [edge, found]
      split <;> omega

/-- What the operand of an operator before it is without parentheses fits into the table. -/
theorem operand_fits {operand : Tree} (clear : (infixLevel? operand).any (· < 8) = false) :
    9 ≤ edge operand ∧
      ∀ level, infixLevel? operand = some level → openerFloor.rank ≤ level := by
  have table : ∀ inner ∈ candidates, ¬ inner.1.toNat < 8 →
      9 ≤ rightLevel inner ∧ openerFloor.rank ≤ inner.1.toNat := by
    decide
  cases found : infixLevel? operand with
  | some level =>
      obtain ⟨inner, mem', rfl, named⟩ := exists_candidate found
      rw [found, Option.any_some, decide_eq_false_iff_not] at clear
      obtain ⟨quiet, tight⟩ := table inner mem' clear
      refine ⟨by rwa [edge_candidate mem' named], fun level same => ?_⟩
      cases same
      exact tight
  | none =>
      refine ⟨?_, by simp⟩
      simp only [edge, found]
      split <;> omega

/-! ## Where parentheses are not needed -/

/-- Behind a first operand that ends before the level of its node there are no parentheses. -/
theorem left_clear {c : UInt32 × Production} (mem : c ∈ candidates) {place : String}
    (first : place = "left" ∨ place = "condition") {operand : Tree}
    (closed : c.1.toNat < edge operand) : needsParens c.2.name place operand = false := by
  have table : ∀ c ∈ candidates, ∀ inner ∈ candidates, c.1.toNat < rightLevel inner →
      looserLeft c.1.toNat (isRightward c.2.name) inner.1.toNat = false := by
    decide
  have power : ∀ c ∈ candidates, c.2.name = "pow" → ¬ c.1.toNat < 9 := by decide
  rw [needsParens_first mem first, Bool.or_eq_false_iff]
  cases found : infixLevel? operand with
  | some level =>
      obtain ⟨inner, mem', rfl, named⟩ := exists_candidate found
      rw [edge_candidate mem' named] at closed
      have notOpened : isOpened operand = false := by
        have names : ∀ inner ∈ candidates, openers.any (·.name == inner.2.name) = false := by
          decide
        simpa [isOpened, named] using names inner mem'
      exact ⟨table c mem inner mem' closed, by simp [notOpened]⟩
  | none =>
      refine ⟨rfl, ?_⟩
      cases opened : isOpened operand with
      | false => simp
      | true =>
          simp only [edge, found, opened, if_true] at closed
          have notPow : c.2.name ≠ "pow" := fun same => power c mem same closed
          simp [notPow]

/-- A last operand that is as tight as its place asks for needs no parentheses. -/
theorem right_clear {c : UInt32 × Production} (mem : c ∈ candidates) {place : String}
    (last : place = "right" ∨ place = "else") {operand : Tree}
    (tight : ∀ level, infixLevel? operand = some level → rightLevel c ≤ level) :
    needsParens c.2.name place operand = false := by
  have table : ∀ c ∈ candidates, ∀ inner ∈ candidates, rightLevel c ≤ inner.1.toNat →
      looserRight c.1.toNat (isRightward c.2.name) inner.1.toNat = false := by
    decide
  rw [needsParens_last mem last]
  cases found : infixLevel? operand with
  | some level =>
      obtain ⟨inner, mem', rfl, named⟩ := exists_candidate found
      exact table c mem inner mem' (tight _ found)
  | none => rfl

end Mixfix.Standard
