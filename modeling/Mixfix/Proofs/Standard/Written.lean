import Mixfix.Proofs.Parse.Atoms
import Mixfix.Proofs.Parse.References
import Mixfix.Proofs.Standard.Table

/-!
# What the standard parser reads

`Written` is the language of standard expressions as a relation between a tree and the two cursors
it is written between. It is indexed by how deep expressions can still be nested and by the loosest
level of the operators that stand outside parentheses. An operand of an operator is written with a
floor of its own, and ends where no operator from that floor on can take it (`Stops`).

The relation says what the parser does without saying how it searches.

**Soundness.** What the parser gives is written there (`written_of_gives`).

**Completeness.** What is written and ends there the parser yields (`yields_of_written`).

So for the standard language to give an expression and to yield it are the same, and both are to be
written (`gives_iff_written`).
-/

set_option autoImplicit false

namespace Mixfix.Standard

open Parse Lexeme

/-! ## Nodes -/

/-- The node of an operator between two expressions. -/
def Infix.node (op : Infix) (left right : Tree) (next : Cursor) : Tree :=
  nodeOf op.production [("left", .tree left), ("right", .tree right)] left.span.start next

/-- The node of an operator before an expression. -/
def Opener.node (op : Opener) (operand : Tree) (start : Nat) (next : Cursor) : Tree :=
  nodeOf op.production [("operand", .tree operand)] start next

/-- The node of a choice between two expressions. -/
def choiceNode (condition positive negative : Tree) (next : Cursor) : Tree :=
  nodeOf choice [("condition", .tree condition), ("else", .tree negative), ("then", .tree positive)]
    condition.span.start next

/-! ## Operators ahead -/

/-- Whether a candidate takes an expression and stands ahead. -/
def fits (left : Tree) (cursor : Cursor) (c : UInt32 × Production) : Bool :=
  takes c.2 left && ahead table c.2 cursor

/-- The operator that extends an expression: the first one that fits. -/
def extender? (left : Tree) (cursor : Cursor) : Option (UInt32 × Production) :=
  candidates.find? (fits left cursor)

/-- No operator from a precedence on that takes the expression stands ahead. -/
def Stops (floor : Precedence) (tree : Tree) (cursor : Cursor) : Prop :=
  ∀ c ∈ candidates, floor.atMost (.level c.1) = true → takes c.2 tree = true →
    ahead table c.2 cursor = false

/-- The precedence of the operators before their operand. -/
def openerFloor : Precedence := .level 8

/-- The precedence of the choice, which is also that of its last operand. -/
def choiceFloor : Precedence := .level 1

/-! ## The relation -/

/-- A tree is written between two cursors, with operators from a floor on and expressions nested up
to a depth. -/
inductive Written (schema : Schema) (limit : Nat) :
    Nat → Precedence → Tree → Cursor → Cursor → Prop
  | constant {depth : Nat} {floor : Precedence} {cursor : Cursor} {lexeme : Lexeme Value}
      (shut : token? table.tokens openParen cursor = none)
      (found : constant? cursor = .ok (some lexeme)) :
      Written schema limit (depth + 1) floor (literalTree lexeme).1 cursor lexeme.next
  | field {depth : Nat} {floor : Precedence} {cursor next : Cursor} {tree : Tree}
      (shut : token? table.tokens openParen cursor = none)
      (noConstant : constant? cursor = .ok none)
      (noOpener : ∀ op ∈ openers, token? table.tokens op.token cursor = none)
      (found : reference? schema cursor = .ok (some (tree, next))) :
      Written schema limit (depth + 1) floor tree cursor next
  | group {depth : Nat} {floor : Precedence} {cursor next : Cursor} {tree : Tree}
      {opening closing : Lexeme String}
      (opened : token? table.tokens openParen cursor = some opening)
      (inside : Written schema limit depth .loosest tree opening.next next)
      (ends : Stops .loosest tree next)
      (closed : token? table.tokens closeParen next = some closing) :
      Written schema limit (depth + 1) floor
        (tree.widen ⟨opening.span.start, closing.span.stop⟩) cursor closing.next
  | opener {depth : Nat} {floor : Precedence} {cursor next : Cursor} {operand : Tree}
      {op : Opener} {lexeme : Lexeme String} (known : op ∈ openers)
      (shut : token? table.tokens openParen cursor = none)
      (noConstant : constant? cursor = .ok none)
      (led : token? table.tokens op.token cursor = some lexeme)
      (inside : Written schema limit depth openerFloor operand lexeme.next next)
      (ends : Stops openerFloor operand next)
      (accepted : ∀ type ∈ op.demand.type?, type.accepts operand.type = true)
      (shallow : (op.node operand lexeme.span.start next).depth ≤ limit) :
      Written schema limit (depth + 1) floor (op.node operand lexeme.span.start next) cursor next
  | between {depth : Nat} {floor : Precedence} {cursor middle next : Cursor} {left right : Tree}
      {op : Infix} {lexeme : Lexeme String} (known : op ∈ infixes)
      (tight : floor.atMost (.level op.level) = true)
      (before : Written schema limit (depth + 1) floor left cursor middle)
      (chosen : extender? left middle = some op.candidate)
      (led : token? table.tokens op.token middle = some lexeme)
      (inside : Written schema limit depth op.rightFloor right lexeme.next next)
      (ends : Stops op.rightFloor right next)
      (accepted : ∀ type ∈ op.demand.type?, type.accepts right.type = true)
      (shallow : (op.node left right next).depth ≤ limit) :
      Written schema limit (depth + 1) floor (op.node left right next) cursor next
  | chosen {depth : Nat} {floor : Precedence} {cursor middle behind next : Cursor}
      {condition positive negative : Tree} {mark colon : Lexeme String}
      (tight : floor.atMost choiceFloor = true)
      (before : Written schema limit (depth + 1) floor condition cursor middle)
      (extended : extender? condition middle = some (1, choice))
      (led : token? table.tokens "?" middle = some mark)
      (inside : Written schema limit depth .loosest positive mark.next behind)
      (ends : Stops .loosest positive behind)
      (divided : token? table.tokens ":" behind = some colon)
      (last : Written schema limit depth choiceFloor negative colon.next next)
      (lastEnds : Stops choiceFloor negative next)
      (shallow : (choiceNode condition positive negative next).depth ≤ limit) :
      Written schema limit (depth + 1) floor (choiceNode condition positive negative next) cursor
        next

variable {schema : Schema} {limit : Nat}

/-! ## Where trees stand -/

theorem span_nodeOf (production : Production) (bindings : Bindings) (start : Nat) (next : Cursor) :
    (nodeOf production bindings start next).span = ⟨start, next.offset⟩ := rfl

theorem depth_nodeOf (production : Production) (bindings : Bindings) (start : Nat) (next : Cursor) :
    (nodeOf production bindings start next).depth = bindings.depth := rfl

@[simp]
theorem span_widen (tree : Tree) (span : Span) : (tree.widen span).span = span := by
  cases tree <;> rfl

theorem starts_of_standard {token : String} {cursor : Cursor} {lexeme : Lexeme String}
    (registered : token ∈ table.tokens) (found : token? table.tokens token cursor = some lexeme) :
    Starts cursor.skipBlanks lexeme := by
  have nonempty : ∀ token ∈ table.tokens, token ≠ "" := by
    rw [tokens_table]
    decide
  exact starts_of_token? (nonempty token registered) found

theorem paren_mem : openParen ∈ table.tokens ∧ closeParen ∈ table.tokens := by
  rw [tokens_table]
  decide

theorem choice_mem : "?" ∈ table.tokens ∧ ":" ∈ table.tokens := by
  rw [tokens_table]
  decide

/-- A registered text and what is written behind it take characters ahead. -/
theorem passes_of_led {token : String} {cursor next : Cursor} {lexeme : Lexeme String}
    (registered : token ∈ table.tokens) (found : token? table.tokens token cursor = some lexeme)
    (behind : lexeme.next.skipBlanks.Passes next) : cursor.skipBlanks.Passes next :=
  (starts_of_standard registered found).2.trans_reaches
    ((Cursor.reaches_skipBlanks _).trans behind.reaches)

/-- A tree spans what it is written between, without the blanks before it. -/
theorem Written.stands {depth : Nat} {floor : Precedence} {tree : Tree} {cursor next : Cursor}
    (written : Written schema limit depth floor tree cursor next) :
    cursor.skipBlanks.Passes next ∧ tree.span = ⟨cursor.skipBlanks.offset, next.offset⟩ := by
  induction written with
  | constant shut found =>
      obtain ⟨span, passes⟩ := starts_of_constant? found
      exact ⟨passes, span⟩
  | field shut noConstant noOpener found =>
      refine ⟨passes_of_reference? found, ?_⟩
      obtain ⟨path, entry, _, _, _, rfl, _, _⟩ := reference?_ok found
      rfl
  | group opened inside ends closed ih =>
      obtain ⟨opensAt, opens⟩ := starts_of_standard paren_mem.1 opened
      obtain ⟨closesAt, closes⟩ := starts_of_standard paren_mem.2 closed
      refine ⟨?_, by rw [span_widen, opensAt, closesAt]⟩
      exact (opens.trans_reaches (Cursor.reaches_skipBlanks _)).trans_reaches
        (ih.1.reaches.trans ((Cursor.reaches_skipBlanks _).trans closes.reaches))
  | opener known shut noConstant led inside ends accepted shallow ih =>
      have registered := Opener.token_mem _ known
      refine ⟨passes_of_led registered led ih.1, ?_⟩
      rw [Opener.node, span_nodeOf, (starts_of_standard registered led).1]
  | between known tight before chosen led inside ends accepted shallow left right =>
      refine ⟨?_, by rw [Infix.node, span_nodeOf, left.2]⟩
      have behind := passes_of_led (Infix.token_mem _ known) led right.1
      exact left.1.trans_reaches ((Cursor.reaches_skipBlanks _).trans behind.reaches)
  | chosen tight before extended led inside ends divided last lastEnds shallow first second third =>
      refine ⟨?_, by rw [choiceNode, span_nodeOf, first.2]⟩
      have behindColon := passes_of_led choice_mem.2 divided third.1
      have behindMark := passes_of_led choice_mem.1 led
        (second.1.trans_reaches ((Cursor.reaches_skipBlanks _).trans behindColon.reaches))
      exact first.1.trans_reaches ((Cursor.reaches_skipBlanks _).trans behindMark.reaches)

/-- Blanks before a tree do not matter. -/
theorem Written.skipBlanks {depth : Nat} {floor : Precedence} {tree : Tree} {cursor next : Cursor}
    (written : Written schema limit depth floor tree cursor next) :
    Written schema limit depth floor tree cursor.skipBlanks next := by
  induction written with
  | constant shut found =>
      exact .constant (by rwa [token?_skipBlanks]) (by rwa [constant?_skipBlanks])
  | field shut noConstant noOpener found =>
      exact .field (by rwa [token?_skipBlanks]) (by rwa [constant?_skipBlanks])
        (fun op known => by rw [token?_skipBlanks]; exact noOpener op known)
        (by rwa [reference?_skipBlanks])
  | group opened inside ends closed =>
      exact .group (by rwa [token?_skipBlanks]) inside ends closed
  | opener known shut noConstant led inside ends accepted shallow =>
      exact .opener known (by rwa [token?_skipBlanks]) (by rwa [constant?_skipBlanks])
        (by rwa [token?_skipBlanks]) inside ends accepted shallow
  | between known tight before chosen led inside ends accepted shallow left =>
      exact .between known tight left chosen led inside ends accepted shallow
  | chosen tight before extended led inside ends divided last lastEnds shallow first =>
      exact .chosen tight first extended led inside ends divided last lastEnds shallow

/-- What is written with a floor is written without one. -/
theorem Written.loosest {depth : Nat} {floor : Precedence} {tree : Tree} {cursor next : Cursor}
    (written : Written schema limit depth floor tree cursor next) :
    Written schema limit depth .loosest tree cursor next := by
  have loose (precedence : Precedence) : Precedence.loosest.atMost precedence = true :=
    decide_eq_true (Nat.zero_le _)
  induction written with
  | constant shut found => exact .constant shut found
  | field shut noConstant noOpener found => exact .field shut noConstant noOpener found
  | group opened inside ends closed => exact .group opened inside ends closed
  | opener known shut noConstant led inside ends accepted shallow =>
      exact .opener known shut noConstant led inside ends accepted shallow
  | between known tight before chosen led inside ends accepted shallow left =>
      exact .between known (loose _) left chosen led inside ends accepted shallow
  | chosen tight before extended led inside ends divided last lastEnds shallow first =>
      exact .chosen (loose _) first extended led inside ends divided last lastEnds shallow

/-! ## Walks through the patterns -/

section Walks

variable {setting : Setting} {Operand : Precedence → Cursor → Parsed → Prop}

/-- A walk through an exact text and an operand behind it. -/
theorem reads_led {token : String} {role : Role} {constraint : Option Descriptor} {name : String}
    {precedence : Precedence} {cursor : Cursor} {final : Progress} :
    Reads setting Operand precedence [.text token, .operand role constraint (some name)]
        (.begin cursor) final ↔
      ∃ lexeme tree next, token? setting.grammar.tokens token cursor = some lexeme ∧
        Operand (role.floor precedence) lexeme.next (tree, next) ∧
        (∀ type ∈ constraint, type.accepts tree.type = true) ∧
        final = ⟨next, [(name, .tree tree)], some lexeme.span.start, true⟩ := by
  constructor
  · rintro (_ | ⟨found, _ | _ | _ | ⟨read, accepted, _ | _⟩⟩)
    exact ⟨_, _, _, found, read, accepted, rfl⟩
  · rintro ⟨lexeme, tree, next, found, read, accepted, rfl⟩
    exact .text found (.operand read accepted (.done _))

/-- A walk through an operator before its operand. -/
theorem reads_opener {op : Opener} {precedence : Precedence} {cursor : Cursor} {final : Progress} :
    Reads setting Operand precedence op.production.elements (.begin cursor) final ↔
      ∃ lexeme tree next, token? setting.grammar.tokens op.token cursor = some lexeme ∧
        Operand precedence lexeme.next (tree, next) ∧
        (∀ type ∈ op.demand.type?, type.accepts tree.type = true) ∧
        final = ⟨next, [("operand", .tree tree)], some lexeme.span.start, true⟩ :=
  reads_led

/-- A walk through an operator between two operands, behind the first one. -/
theorem reads_infixNode {op : Infix} {precedence : Precedence} {cursor : Cursor} {final : Progress} :
    Reads setting Operand precedence op.production.elements.tail (.begin cursor) final ↔
      ∃ lexeme tree next, token? setting.grammar.tokens op.token cursor = some lexeme ∧
        Operand (op.right.floor precedence) lexeme.next (tree, next) ∧
        (∀ type ∈ op.demand.type?, type.accepts tree.type = true) ∧
        final = ⟨next, [("right", .tree tree)], some lexeme.span.start, true⟩ :=
  reads_led

/-- A walk through a choice, behind its condition. -/
theorem reads_choice {cursor : Cursor} {final : Progress} :
    Reads setting Operand choiceFloor choice.elements.tail (.begin cursor) final ↔
      ∃ mark positive behind colon negative next,
        token? setting.grammar.tokens "?" cursor = some mark ∧
        Operand .loosest mark.next (positive, behind) ∧
        token? setting.grammar.tokens ":" behind = some colon ∧
        Operand choiceFloor colon.next (negative, next) ∧
        final = ⟨next, [("else", .tree negative), ("then", .tree positive)],
          some mark.span.start, true⟩ := by
  constructor
  · rintro (_ | ⟨found, _ | _ | _ | ⟨read, _, _ | ⟨divided, _ | _ | _ | ⟨last, _, _ | _⟩⟩⟩⟩)
    exact ⟨_, _, _, _, _, _, found, read, divided, last, rfl⟩
  · rintro ⟨mark, positive, behind, colon, negative, next, found, read, divided, last, rfl⟩
    exact .text found (.operand read (by simp)
      (.text divided (.operand last (by simp) (.done _))))

end Walks

/-! ## The operator that extends an expression -/

theorem fits_iff {left : Tree} {cursor : Cursor} {c : UInt32 × Production} :
    fits left cursor c = true ↔ takes c.2 left = true ∧ ahead table c.2 cursor = true := by
  rw [fits, Bool.and_eq_true]

theorem extender?_spec {left : Tree} {cursor : Cursor} {c : UInt32 × Production}
    (found : extender? left cursor = some c) :
    c ∈ candidates ∧ takes c.2 left = true ∧ ahead table c.2 cursor = true :=
  ⟨List.mem_of_find?_eq_some found, fits_iff.mp (List.find?_some found)⟩

/-- Among the candidates from a floor on the first one that fits is the first one of all. -/
theorem find?_filter_candidates {floor : Precedence} {left : Tree} {cursor : Cursor}
    {c : UInt32 × Production} :
    (candidates.filter fun c => floor.atMost (.level c.1)).find? (fits left cursor) = some c ↔
      extender? left cursor = some c ∧ floor.atMost (.level c.1) = true := by
  -- all candidates that stand ahead have one level, so the floor lets all of them pass or none
  have sameFilter : ∀ c ∈ candidates, fits left cursor c = true →
      floor.atMost (.level c.1) = true →
      (candidates.filter fun c => floor.atMost (.level c.1)).filter (fits left cursor) =
        candidates.filter (fits left cursor) := by
    intro c mem here tight
    rw [List.filter_filter]
    refine List.filter_congr fun other mem' => ?_
    by_cases there : fits left cursor other = true
    · have same : other.1 = c.1 :=
        level_eq_of_ahead mem' mem (fits_iff.mp there).2 (fits_iff.mp here).2
      rw [same, tight, Bool.and_true]
    · rw [Bool.not_eq_true] at there
      rw [there, Bool.false_and]
  constructor
  · intro found
    have mem := List.mem_filter.mp (List.mem_of_find?_eq_some found)
    have same := sameFilter c mem.1 (List.find?_some found) mem.2
    refine ⟨?_, mem.2⟩
    rw [extender?, ← List.head?_filter, ← same, List.head?_filter]
    exact found
  · rintro ⟨found, tight⟩
    have same := sameFilter c (List.mem_of_find?_eq_some found) (List.find?_some found) tight
    rw [← List.head?_filter, same, List.head?_filter]
    exact found

/-! ## The same operators ahead -/

section SameAhead

variable {cursor other : Cursor} {floor : Precedence} {left right : Tree}

/-- The same candidates stand at two places. -/
def SameAhead (cursor other : Cursor) : Prop :=
  ∀ c ∈ candidates, ahead table c.2 cursor = ahead table c.2 other

/-- Every candidate that stands at a place stands at another one. -/
def Covered (cursor other : Cursor) : Prop :=
  ∀ c ∈ candidates, ahead table c.2 cursor = true → ahead table c.2 other = true

theorem SameAhead.covered (same : SameAhead cursor other) : Covered cursor other :=
  fun c mem stands => same c mem ▸ stands

/-- The same registered texts stand at two places. -/
def SameMarks (cursor other : Cursor) : Prop :=
  ∀ token ∈ table.tokens,
    (token? table.tokens token cursor).isSome = (token? table.tokens token other).isSome

namespace SameMarks

variable {token : String} (same : SameMarks cursor other) (registered : token ∈ table.tokens)
include same

theorem sameAhead : SameAhead cursor other := by
  intro c mem
  obtain ⟨token, registered, stands, _⟩ := exists_token mem
  rw [stands, stands]
  exact same token registered

include registered

theorem missing (missing : token? table.tokens token other = none) :
    token? table.tokens token cursor = none := by
  have stands := same token registered
  rw [missing, Option.isSome_none] at stands
  exact Option.isNone_iff_eq_none.mp (Option.isSome_eq_false_iff.mp stands)

theorem exists_led {lexeme : Lexeme String} (led : token? table.tokens token other = some lexeme) :
    ∃ lexeme', token? table.tokens token cursor = some lexeme' := by
  have stands := same token registered
  rwa [led, Option.isSome_some, Option.isSome_iff_exists] at stands

end SameMarks

/-- Where the same registered text is found the same candidates stand. -/
theorem sameAhead_of_token {token : String} (registered : token ∈ table.tokens)
    {lexeme lexeme' : Lexeme String} (here : token? table.tokens token cursor = some lexeme)
    (there : token? table.tokens token other = some lexeme') : SameAhead cursor other := by
  intro c mem
  obtain ⟨own, known, stands, _⟩ := exists_token mem
  rw [stands, stands]
  by_cases same : own = token
  · rw [same, here, there]
    rfl
  · have missing {place : Cursor} {found : Lexeme String}
        (stands : token? table.tokens token place = some found) :
        (token? table.tokens own place).isSome = false := by
      rw [Bool.eq_false_iff]
      intro also
      exact same (token?_unique known registered also (Option.isSome_of_eq_some stands))
    rw [missing here, missing there]

section Types

variable (type : left.type = right.type)
include type

/-- Whether an operator takes a tree depends on the type of the tree only. -/
theorem takes_congr (production : Production) : takes production left = takes production right := by
  simp only [takes, type]

theorem extender?_congr (same : SameAhead cursor other) :
    extender? left cursor = extender? right other := by
  rw [extender?, extender?, ← List.head?_filter, ← List.head?_filter]
  refine congrArg List.head? (List.filter_congr fun c mem => ?_)
  rw [fits, fits, takes_congr type, same c mem]

theorem Stops.congr (stops : Stops floor right other) (covered : Covered cursor other) :
    Stops floor left cursor := by
  intro c mem tight taken
  rw [takes_congr type] at taken
  have nothing := stops c mem tight taken
  rw [Bool.eq_false_iff] at nothing ⊢
  exact fun stands => nothing (covered c mem stands)

end Types

end SameAhead

end Mixfix.Standard
