import Mixfix.Proofs.Parse.Candidates
import Mixfix.Proofs.Text.Tokens
import Mixfix.Standard

/-!
# The table of the standard language

The definitions of the standard language build the grammar `table`. Its nodes come in three shapes:
the choice, the operators with an operand on either side of their token (`infixes`), and the
operators before their operand (`openers`). What an operator asks of its operands and what it gives
is one of a few possibilities, so facts about the whole table are decided by going through it.

**Tokens.** At most one of the registered texts stands at a place, so all operators whose token
stands ahead have the same token and, in this table, the same level (`level_eq_of_ahead`).
-/

set_option autoImplicit false

namespace Mixfix.Standard

open Parse

/-! ## Operators -/

/-- What a standard node asks of an operand. -/
inductive Demand where
  | anything
  | truth
  | number
  | text
  /-- A number or a text. -/
  | comparable
deriving DecidableEq

/-- The type of a demand, if it is one. -/
def Demand.type? : Demand → Option Descriptor
  | .anything => none
  | .truth => some .boolean
  | .number => some .number
  | .text => some .string
  | .comparable => some (.union [.number, .string])

/-- What a standard node gives. -/
inductive Answer where
  | truth
  | number
  | text
  /-- What one of the two operands is. -/
  | either
deriving DecidableEq

/-- The type of an answer. -/
def Answer.result : Answer → ResultType Descriptor
  | .truth => .fixed .boolean
  | .number => .fixed .number
  | .text => .fixed .string
  | .either => .union ["left", "right"]

/-- An operator with an operand on either side of its token. -/
structure Infix where
  definition : Definition
  level : UInt32
  demand : Demand
  token : String
  /-- How the right operand is read. -/
  right : Role
  answer : Answer

namespace Infix

/-- The name of the node. -/
def name (op : Infix) : String := op.definition.name

/-- The production of the operator. -/
def production (op : Infix) : Production :=
  ⟨op.definition,
    [.operand .lhs op.demand.type? (some "left"), .text op.token,
      .operand op.right op.demand.type? (some "right")],
    op.answer.result⟩

/-- The production with its level. -/
def candidate (op : Infix) : UInt32 × Production := (op.level, op.production)

/-- The loosest precedence of the right operand. -/
def rightFloor (op : Infix) : Precedence := op.right.floor (.level op.level)

end Infix

/-- An operator before its operand. -/
structure Opener where
  definition : Definition
  demand : Demand
  token : String
  answer : Answer

namespace Opener

/-- The name of the node. -/
def name (op : Opener) : String := op.definition.name

/-- The production of the operator. -/
def production (op : Opener) : Production :=
  ⟨op.definition, [.text op.token, .operand .rhs op.demand.type? (some "operand")],
    op.answer.result⟩

end Opener

/-! ## The table -/

/-- The production of the choice. -/
def choice : Production :=
  ⟨ternary,
    [.operand .lhs (some .boolean) (some "condition"), .text "?",
      .operand .expr none (some "then"), .text ":", .operand .rhs none (some "else")],
    .union ["then", "else"]⟩

/-- The operators that are chained from left to right, from the loosest up. -/
def chained : List Infix :=
  [⟨logical "or" 2 "||" either, 2, .truth, "||", .lhs, .truth⟩,
   ⟨coalesce, 2, .anything, "??", .lhs, .either⟩,
   ⟨logical "and" 3 "&&" both, 3, .truth, "&&", .lhs, .truth⟩,
   ⟨equality "eq" "==" equal, 4, .anything, "==", .lhs, .truth⟩,
   ⟨equality "ne" "!=" different, 4, .anything, "!=", .lhs, .truth⟩,
   ⟨comparison "lt" "<" (· == .lt), 5, .comparable, "<", .lhs, .truth⟩,
   ⟨comparison "le" "<=" (· != .gt), 5, .comparable, "<=", .lhs, .truth⟩,
   ⟨comparison "gt" ">" (· == .gt), 5, .comparable, ">", .lhs, .truth⟩,
   ⟨comparison "ge" ">=" (· != .lt), 5, .comparable, ">=", .lhs, .truth⟩,
   ⟨numeric "add" 6 "+" (arithmetic Decimal.add Binary64.add), 6, .number, "+", .lhs, .number⟩,
   ⟨concat, 6, .text, "+", .lhs, .text⟩,
   ⟨numeric "sub" 6 "-" (arithmetic Decimal.sub Binary64.sub), 6, .number, "-", .lhs, .number⟩,
   ⟨numeric "mul" 7 "*" (arithmetic Decimal.mul Binary64.mul), 7, .number, "*", .lhs, .number⟩,
   ⟨numeric "div" 7 "/" (divided .divisionByZero Decimal.div Binary64.div), 7, .number, "/", .lhs,
     .number⟩,
   ⟨numeric "mod" 7 "%" (divided .moduloByZero Decimal.rem Binary64.rem), 7, .number, "%", .lhs,
     .number⟩]

/-- The power, chained from right to left. -/
def exponentiation : Infix := ⟨pow, 9, .number, "**", .rhs, .number⟩

/-- The operators with an operand on either side, from the loosest up. -/
def infixes : List Infix := chained ++ [exponentiation]

/-- The operators before their operand; both have the level between product and power. -/
def openers : List Opener :=
  [⟨unary "neg" "-" "number" opposite, .number, "-", .number⟩,
   ⟨unary "not" "!" "boolean" negate, .truth, "!", .truth⟩]

/-- The productions that extend an expression, with their levels, from the loosest up. -/
def candidates : List (UInt32 × Production) := (1, choice) :: infixes.map Infix.candidate

/-- The grammar of the standard nodes. -/
def table : Grammar :=
  .ofProductions (choice :: chained.map Infix.production ++ openers.map Opener.production ++
    [exponentiation.production])

/-- The standard definitions build the table. -/
theorem grammar_eq : grammar = .ok table := rfl

theorem atoms_table : table.atoms = [] := rfl

theorem openers_table : table.openers = openers.map Opener.production := rfl

theorem tokens_table :
    table.tokens =
      ["!=", "&&", "**", "<=", "==", ">=", "??", "||", "!", "%", "(", ")", "*", "+", "-", "/", ":",
        "<", ">", "?"] :=
  rfl

/-- The productions that extend an expression at a precedence or tighter. -/
theorem extendingFrom_table (floor : Precedence) :
    table.extendingFrom floor = candidates.filter fun c => floor.atMost (.level c.1) := by
  have all : candidates = table.levels.flatMap fun level => level.extending.map (level.number, ·) :=
    rfl
  rw [all, List.filter_flatMap, Grammar.extendingFrom]
  induction table.levels with
  | nil => rfl
  | cons level levels ih =>
      rw [List.filter_cons, List.flatMap_cons, ← ih, List.filter_map]
      split
      · next tight =>
          have whole : (level.extending.filter ((fun c : UInt32 × Production =>
              floor.atMost (.level c.1)) ∘ fun production => (level.number, production))) =
              level.extending :=
            List.filter_eq_self.mpr fun _ _ => tight
          rw [whole, List.flatMap_cons]
      · next loose =>
          have nothing : (level.extending.filter ((fun c : UInt32 × Production =>
              floor.atMost (.level c.1)) ∘ fun production => (level.number, production))) = [] :=
            List.filter_eq_nil_iff.mpr fun _ _ => loose
          rw [nothing]
          rfl

/-! ## Tokens -/

theorem solid_tokens : ∀ token ∈ table.tokens, ∀ c ∈ token.toList, Cursor.isBlank c = false := by
  have all : table.tokens.all (fun token => token.toList.all fun c => !Cursor.isBlank c) = true := by
    rw [tokens_table]
    decide
  intro token known c mem
  simpa using List.all_eq_true.mp (List.all_eq_true.mp all token known) c mem

/-- Registered texts are no words: where a letter stands there is none. -/
theorem token?_eq_none_of_isAlphabetic {token : String} (registered : token ∈ table.tokens)
    {cursor : Cursor} {c : Char} {rest : List Char} (ahead : cursor.skipBlanks.rest = c :: rest)
    (letter : Unicode.isAlphabetic c = true) : Lexeme.token? table.tokens token cursor = none := by
  have marks : ∀ token ∈ table.tokens, token ≠ "" ∧
      token.toList.head?.all (fun c => !Unicode.isAlphabetic c) = true := by
    rw [tokens_table]
    decide
  obtain ⟨nonempty, notLetter⟩ := marks token registered
  refine Lexeme.token?_eq_none_of_head nonempty fun same => ?_
  rw [← same, ahead, List.head?_cons, Option.all_some, letter] at notLetter
  cases notLetter

theorem Infix.token_mem : ∀ op ∈ infixes, op.token ∈ table.tokens := by
  rw [tokens_table]
  decide

theorem Opener.token_mem : ∀ op ∈ openers, op.token ∈ table.tokens := by
  rw [tokens_table]
  decide

theorem mem_candidates {c : UInt32 × Production} :
    c ∈ candidates ↔ c = (1, choice) ∨ ∃ op ∈ infixes, op.candidate = c := by
  rw [candidates, List.mem_cons, List.mem_map]

theorem Infix.ahead_production (op : Infix) (cursor : Cursor) :
    ahead table op.production cursor = (Lexeme.token? table.tokens op.token cursor).isSome :=
  ahead_of_elements rfl

theorem ahead_choice (cursor : Cursor) :
    ahead table choice cursor = (Lexeme.token? table.tokens "?" cursor).isSome :=
  ahead_of_elements rfl

theorem isLed_of_mem {c : UInt32 × Production} (mem : c ∈ candidates) : isLed c.2 = true := by
  rcases mem_candidates.mp mem with rfl | ⟨op, _, rfl⟩ <;> rfl

/-- The token of a candidate. -/
theorem exists_token {c : UInt32 × Production} (mem : c ∈ candidates) :
    ∃ token ∈ table.tokens, (∀ cursor, ahead table c.2 cursor =
        (Lexeme.token? table.tokens token cursor).isSome) ∧
      (token = "?" ∧ c = (1, choice) ∨ ∃ op ∈ infixes, op.token = token ∧ op.candidate = c) := by
  rcases mem_candidates.mp mem with rfl | ⟨op, known, rfl⟩
  · refine ⟨"?", ?_, ahead_choice, .inl ⟨rfl, rfl⟩⟩
    rw [tokens_table]
    decide
  · exact ⟨op.token, op.token_mem known, op.ahead_production, .inr ⟨op, known, rfl, rfl⟩⟩

theorem Infix.token_ne_choice : ∀ op ∈ infixes, op.token ≠ "?" := by decide

theorem Infix.level_eq_of_token :
    ∀ op ∈ infixes, ∀ other ∈ infixes, op.token = other.token → op.level = other.level := by
  decide

/-- Candidates whose tokens stand at the same place have the same level. -/
theorem level_eq_of_ahead {c other : UInt32 × Production} {cursor : Cursor}
    (mem : c ∈ candidates) (other_mem : other ∈ candidates)
    (stands : ahead table c.2 cursor = true) (other_stands : ahead table other.2 cursor = true) :
    c.1 = other.1 := by
  obtain ⟨token, registered, found, shape⟩ := exists_token mem
  obtain ⟨token', registered', found', shape'⟩ := exists_token other_mem
  rw [found] at stands
  rw [found'] at other_stands
  have same := Lexeme.token?_unique registered registered' stands other_stands
  subst same
  rcases shape with ⟨rfl, rfl⟩ | ⟨op, known, here, rfl⟩
  · rcases shape' with ⟨_, rfl⟩ | ⟨op, known, here, rfl⟩
    · rfl
    · exact absurd here (op.token_ne_choice known)
  · rcases shape' with ⟨rfl, rfl⟩ | ⟨op', known', here', rfl⟩
    · exact absurd here (op.token_ne_choice known)
    · exact op.level_eq_of_token known op' known' (here.trans here'.symm)

end Mixfix.Standard
