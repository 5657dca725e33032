import Mixfix.Proofs.Standard.Demands
import Mixfix.Proofs.Standard.Written
import Mixfix.Proofs.Schema.Built
import Mixfix.Proofs.Tree.Subtrees

/-!
# Inside of what is written

Every subtree of a tree that is written is written itself, between cursors of its own, further on in
the text and no deeper (`Written.within_of_subtree`). So what holds for all written trees holds
throughout them.

The type of a node comes from its answer and the types of its operands (`Answer.typeOf`), and all
types have a property that nodes pass on if those of the schema have it (`Closed.type`); in particular
they are well-formed (`Written.wellFormed_type`).
-/

set_option autoImplicit false

namespace Mixfix.Standard

open Parse Lexeme Descriptor

variable {schema : Schema} {limit depth : Nat} {floor : Precedence} {tree : Tree}
  {cursor next : Cursor}

/-! ## Operands -/

theorem Infix.operands_node (op : Infix) (left right : Tree) (next : Cursor) :
    (op.node left right next).operands = [("left", left), ("right", right)] := rfl

theorem Opener.operands_node (op : Opener) (operand : Tree) (start : Nat) (next : Cursor) :
    (op.node operand start next).operands = [("operand", operand)] := rfl

theorem operands_choiceNode (condition positive negative : Tree) (next : Cursor) :
    (choiceNode condition positive negative next).operands =
      [("condition", condition), ("else", negative), ("then", positive)] := rfl

/-- A tree is written somewhere behind a cursor. -/
def WrittenBehind (schema : Schema) (limit : Nat) (cursor : Cursor) (tree : Tree) : Prop :=
  ∃ depth floor start stop, cursor.Reaches start ∧ Written schema limit depth floor tree start stop

/-- A tree is written somewhere behind a cursor, with expressions nested up to a depth at most. -/
def WrittenWithin (schema : Schema) (limit depth : Nat) (cursor : Cursor) (tree : Tree) : Prop :=
  ∃ inner ≤ depth, ∃ floor start stop, cursor.Reaches start ∧
    Written schema limit inner floor tree start stop

theorem WrittenWithin.trans {start : Cursor} (further : cursor.Reaches start)
    (written : WrittenWithin schema limit depth start tree) :
    WrittenWithin schema limit depth cursor tree := by
  obtain ⟨inner, le, floor, first, last, reaches, written⟩ := written
  exact ⟨inner, le, floor, first, last, further.trans reaches, written⟩

theorem WrittenWithin.deeper (written : WrittenWithin schema limit depth cursor tree) :
    WrittenWithin schema limit (depth + 1) cursor tree := by
  obtain ⟨inner, le, rest⟩ := written
  exact ⟨inner, Nat.le_succ_of_le le, rest⟩

theorem Written.reaches (written : Written schema limit depth floor tree cursor next) :
    cursor.Reaches next :=
  (Cursor.reaches_skipBlanks cursor).trans written.stands.1.reaches

theorem reaches_led {token : String} {lexeme : Lexeme String} (registered : token ∈ table.tokens)
    (led : token? table.tokens token cursor = some lexeme) : cursor.Reaches lexeme.next :=
  (Cursor.reaches_skipBlanks cursor).trans (starts_of_standard registered led).2.reaches

/-- The subtrees of a written tree are written if those of its operands are. -/
theorem Written.of_operands (written : Written schema limit depth floor tree cursor next)
    (inside : ∀ operand ∈ tree.operands, ∀ inner ∈ operand.2.subtrees,
      WrittenWithin schema limit depth cursor inner) :
    ∀ inner ∈ tree.subtrees, WrittenWithin schema limit depth cursor inner := by
  intro inner mem
  rcases Tree.mem_subtrees.mp mem with rfl | ⟨operand, known, there⟩
  · exact ⟨_, Nat.le_refl _, _, _, _, .refl _, written⟩
  · exact inside operand known inner there

theorem Written.inside_operands (written : Written schema limit depth floor tree cursor next) :
    ∀ operand ∈ tree.operands, ∀ inner ∈ operand.2.subtrees,
      WrittenWithin schema limit depth cursor inner := by
  induction written with
  | constant shut found =>
      rintro operand ⟨⟩
  | field shut noConstant noOpener found =>
      obtain ⟨path, entry, _, _, _, rfl, _, _⟩ := reference?_ok found
      rintro operand ⟨⟩
  | group opened inside ends closed ih =>
      rw [Tree.operands_widen]
      exact fun operand known inner there =>
        ((ih operand known inner there).trans (reaches_led paren_mem.1 opened)).deeper
  | opener known shut noConstant led inside ends accepted shallow ih =>
      rw [Opener.operands_node]
      intro operand mem inner there
      rw [List.mem_singleton.mp mem] at there
      have behind := reaches_led (Opener.token_mem _ known) led
      exact ((inside.of_operands ih inner there).trans behind).deeper
  | between known tight before chosen led inside ends accepted shallow left right =>
      rw [Infix.operands_node]
      intro operand mem inner there
      simp only [List.mem_cons, List.not_mem_nil, or_false] at mem
      rcases mem with rfl | rfl
      · exact before.of_operands left inner there
      · have behind := before.reaches.trans (reaches_led (Infix.token_mem _ known) led)
        exact ((inside.of_operands right inner there).trans behind).deeper
  | chosen tight before extended led inside ends divided last lastEnds shallow first second third =>
      have mark := before.reaches.trans (reaches_led choice_mem.1 led)
      rw [operands_choiceNode]
      intro operand mem inner there
      simp only [List.mem_cons, List.not_mem_nil, or_false] at mem
      rcases mem with rfl | rfl | rfl
      · exact before.of_operands first inner there
      · have behind := mark.trans (inside.reaches.trans (reaches_led choice_mem.2 divided))
        exact ((last.of_operands third inner there).trans behind).deeper
      · exact ((inside.of_operands second inner there).trans mark).deeper

/-- Every subtree of a tree that is written is written, further on in the text and no deeper. -/
theorem Written.within_of_subtree (written : Written schema limit depth floor tree cursor next) :
    ∀ inner ∈ tree.subtrees, WrittenWithin schema limit depth cursor inner :=
  written.of_operands written.inside_operands

theorem Written.of_subtree (written : Written schema limit depth floor tree cursor next) :
    ∀ inner ∈ tree.subtrees, WrittenBehind schema limit cursor inner := by
  intro inner mem
  obtain ⟨depth, _, rest⟩ := written.within_of_subtree inner mem
  exact ⟨depth, rest⟩

/-! ## Types of nodes -/

/-- The type of an answer to operands of some types. -/
def Answer.typeOf (answer : Answer) (operands : List Descriptor) : Descriptor :=
  match answer with
  | .truth => .boolean
  | .number => .number
  | .text => .string
  | .either => sortedUnion operands

theorem Infix.type_node (op : Infix) (left right : Tree) (next : Cursor) :
    (op.node left right next).type = op.answer.typeOf [left.type, right.type] := by
  show Bindings.resultType [("left", .tree left), ("right", .tree right)] op.answer.result = _
  cases op.answer <;> rfl

theorem Opener.type_node {op : Opener} (known : op ∈ openers) (operand : Tree) (start : Nat)
    (next : Cursor) : (op.node operand start next).type = op.answer.typeOf [operand.type] := by
  have fixed : ∀ op ∈ openers, op.answer ≠ .either := by decide
  have notEither := fixed op known
  show Bindings.resultType [("operand", .tree operand)] op.answer.result = _
  cases answer : op.answer with
  | either => exact absurd answer notEither
  | _ => rfl

theorem type_choiceNode (condition positive negative : Tree) (next : Cursor) :
    (choiceNode condition positive negative next).type =
      sortedUnion [positive.type, negative.type] := rfl

/-! ## Depths of nodes -/

theorem Infix.depth_node (op : Infix) (left right : Tree) (next : Cursor) :
    (op.node left right next).depth = 1 + max left.depth right.depth := by
  rw [Infix.node, depth_nodeOf]
  simp [Bindings.depth, Binding.depth]

theorem Opener.depth_node (op : Opener) (operand : Tree) (start : Nat) (next : Cursor) :
    (op.node operand start next).depth = 1 + operand.depth := by
  rw [Opener.node, depth_nodeOf]
  simp [Bindings.depth, Binding.depth]

theorem depth_choiceNode (condition positive negative : Tree) (next : Cursor) :
    (choiceNode condition positive negative next).depth =
      1 + max (max condition.depth negative.depth) positive.depth := by
  rw [choiceNode, depth_nodeOf]
  simp [Bindings.depth, Binding.depth]

/-! ## Well-formed types -/

/-- A property of types that nodes pass on: values and kinds have it, and a sorted union has it if
its sources do. -/
structure Closed (Good : Descriptor → Prop) : Prop where
  ofValue (value : Value) : Good (.ofValue value)
  plain (kind : Kind) : Good (.plain kind)
  union {descriptors : List Descriptor} (nonempty : descriptors ≠ [])
    (sources : ∀ descriptor ∈ descriptors, Good descriptor) : Good (sortedUnion descriptors)

theorem closed_wellFormed : Closed WellFormed :=
  ⟨wellFormed_ofValue, wellFormed_plain, fun _ => wellFormed_sortedUnion⟩

/-- A property of the members of well-formed types is passed on if values and kinds have it. -/
theorem closed_members {P : Descriptor → Prop} (value : ∀ value, P (.ofValue value)) :
    Closed fun type => WellFormed type ∧ ∀ member ∈ type.members, P member := by
  have single : ∀ value, (Descriptor.ofValue value).members = [.ofValue value] := by
    intro value
    cases value <;> rfl
  have kinds : ∀ kind : Kind, ∃ value, Descriptor.plain kind = .ofValue value := by
    intro kind
    cases kind with
    | number => exact ⟨.integer 0, rfl⟩
    | string => exact ⟨.string "", rfl⟩
    | boolean => exact ⟨.boolean true, rfl⟩
    | null => exact ⟨.null, rfl⟩
    | undefined => exact ⟨.undefined, rfl⟩
    | object => exact ⟨.object [], rfl⟩
  have described : ∀ v, WellFormed (.ofValue v) ∧ ∀ member ∈ (ofValue v).members, P member := by
    intro v
    rw [single]
    exact ⟨wellFormed_ofValue v, by simpa using value v⟩
  constructor
  · exact described
  · intro kind
    obtain ⟨value, same⟩ := kinds kind
    exact same ▸ described value
  · intro types nonempty sources
    have wellFormed : ∀ type ∈ types, WellFormed type := fun type known => (sources type known).1
    refine ⟨wellFormed_sortedUnion wellFormed, fun member inside => ?_⟩
    obtain ⟨type, known, there⟩ := mem_members_sortedUnion nonempty wellFormed inside
    exact (sources type known).2 member there

section Closed

variable {Good : Descriptor → Prop}

theorem Closed.typeOf (closed : Closed Good) (answer : Answer) {operands : List Descriptor}
    (nonempty : operands ≠ []) (good : ∀ operand ∈ operands, Good operand) :
    Good (answer.typeOf operands) := by
  cases answer with
  | either => exact closed.union nonempty good
  | _ => exact closed.plain _

/-- The types of what is written have a property that nodes pass on, if those of the schema do. -/
theorem Closed.type (closed : Closed Good) (types : Schema.All Good schema)
    (written : Written schema limit depth floor tree cursor next) : Good tree.type := by
  induction written with
  | constant shut found => exact closed.ofValue _
  | field shut noConstant noOpener found =>
      obtain ⟨path, entry, resolved, _, _, rfl, _, _⟩ := reference?_ok found
      exact types.descriptor (closed.plain .object) resolved
  | group opened inside ends closes ih => rwa [Tree.type_widen]
  | opener known shut noConstant led inside ends accepted shallow ih =>
      rw [Opener.type_node known]
      exact closed.typeOf _ (List.cons_ne_nil _ _) (by simpa using ih)
  | between known tight before chosen led inside ends accepted shallow left right =>
      rw [Infix.type_node]
      exact closed.typeOf _ (List.cons_ne_nil _ _) (by simpa using ⟨left, right⟩)
  | chosen tight before extended led inside ends divided last lastEnds shallow first second third =>
      rw [type_choiceNode]
      exact closed.union (List.cons_ne_nil _ _) (by simpa using ⟨second, third⟩)

end Closed

/-- The types of what is written are well-formed. -/
theorem Written.wellFormed_type (types : Schema.All WellFormed schema)
    (written : Written schema limit depth floor tree cursor next) : WellFormed tree.type :=
  closed_wellFormed.type types written

end Mixfix.Standard
