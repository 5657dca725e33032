import Mixfix.Proofs.Standard.Clipping
import Mixfix.Proofs.Tree.Shape

/-!
# Parentheses around a part of an expression

Parentheses around a subtree of an expression change nothing but places
(`whole_parenthesized_of_whole`).

The text falls into three parts. Before the subtree everything is read as before, although it ends
before a parenthesis now: it is cut out of the text and enclosed again (`Piece.written_before`). The
subtree is written in its own text, without a floor, and so between the parentheses
(`Written.regroups`). Behind it everything is read as before, two bytes farther on.

That this makes up the same tree is shown node by node (`Regroups`): an operator takes trees by
their types, and these do not depend on places. One more level of nesting is enough for all of them.
-/

set_option autoImplicit false

namespace Mixfix.Standard

open Parse Lexeme

/-- A piece of a text, from the cursor before it to the cursor behind it. -/
structure Piece where
  start : Cursor
  stop : Cursor
  text : List Char
  spells : start.Spells text stop

namespace Piece

/-- The text from a piece on, with parentheses around the piece. -/
def grouped (piece : Piece) : List Char := '(' :: piece.text ++ ')' :: piece.stop.rest

/-- What stands before a piece stands before a parenthesis. -/
def before (piece : Piece) : Enclosure := ⟨0, piece.grouped, by simp [grouped]⟩

end Piece

/-- What stands behind a piece stands two bytes farther on. -/
def behindParens : Enclosure := .leading 2

variable {schema : Schema} {limit depth : Nat} {floor : Precedence} {tree inner : Tree}
  {cursor middle next : Cursor}

/-! ## Nodes of operands of the same shape -/

section Shapes

variable {cursor' middle' next' : Cursor} {left left' right right' : Tree}

theorem Opener.unplaced_node (op : Opener) {operand operand' : Tree} {start start' : Nat}
    (shape : operand'.unplaced = operand.unplaced) :
    (op.node operand' start' next').unplaced = (op.node operand start next).unplaced :=
  Tree.unplaced_ofMatch (by simp only [Tree.unplacedBindings, shape])

theorem Infix.unplaced_node (op : Infix) (leftShape : left'.unplaced = left.unplaced)
    (rightShape : right'.unplaced = right.unplaced) :
    (op.node left' right' next').unplaced = (op.node left right next).unplaced :=
  Tree.unplaced_ofMatch (by simp only [Tree.unplacedBindings, leftShape, rightShape])

theorem unplaced_choiceNode {condition condition' positive positive' negative negative' : Tree}
    (conditionShape : condition'.unplaced = condition.unplaced)
    (positiveShape : positive'.unplaced = positive.unplaced)
    (negativeShape : negative'.unplaced = negative.unplaced) :
    (choiceNode condition' positive' negative' next').unplaced =
      (choiceNode condition positive negative next).unplaced :=
  Tree.unplaced_ofMatch
    (by simp only [Tree.unplacedBindings, conditionShape, positiveShape, negativeShape])

end Shapes

/-! ## Before the piece -/

section Before

variable (piece : Piece) {first : Cursor} {token : String} {lexeme : Lexeme String}

/-- A registered text that ends before a piece is found before the parenthesis. -/
theorem Piece.token?_before (registered : token ∈ table.tokens)
    (found : token? table.tokens token (first.embedded 0 piece.start.rest) = some lexeme)
    (reaches : lexeme.next.Reaches piece.start) :
    ∃ clipped : Lexeme String, lexeme.next = clipped.next.embedded 0 piece.start.rest ∧
      token? table.tokens token first = some clipped ∧
      token? table.tokens token (first.enclosed piece.before) =
        some (clipped.enclosed piece.before) := by
  obtain ⟨clipped, own, rfl⟩ := token?_clip isMark_table registered found reaches.length_le
  exact ⟨clipped, rfl, own, token?_some_enclosed piece.before registered own⟩

/-- What is written before a registered text before a piece is written before the parenthesis, and
so is the registered text. -/
theorem Piece.written_before (registered : token ∈ table.tokens)
    (written : Written schema limit depth floor tree (first.embedded 0 piece.start.rest) middle)
    (led : token? table.tokens token middle = some lexeme)
    (reaches : lexeme.next.Reaches piece.start) :
    ∃ (middle' : Cursor) (clipped : Lexeme String),
      lexeme.next = clipped.next.embedded 0 piece.start.rest ∧
      Written schema (limit + 1) (depth + 1) floor tree (first.enclosed piece.before) middle' ∧
      SameAhead middle' middle ∧
      token? table.tokens token middle' = some (clipped.enclosed piece.before) := by
  have behind := ((reaches_led registered led).trans reaches).length_le
  obtain ⟨inside, rfl, _⟩ := Cursor.exists_embedded written.reaches behind
  obtain ⟨clipped, moved, own, further⟩ := piece.token?_before registered led reaches
  have same := sameAhead_of_token registered own led
  obtain ⟨clippedTree, shifted, within⟩ := written.clip _ _ rfl rfl same.covered
  rw [Tree.shifted_zero] at shifted
  subst shifted
  have enclosed := within.enclosed piece.before (Nat.le_succ limit) 1
  rw [Piece.before, Tree.shifted_zero] at enclosed
  refine ⟨_, clipped, moved, enclosed, ?_, further⟩
  exact fun c mem => (sameAhead_enclosed piece.before inside c mem).trans (same c mem)

end Before

/-! ## Around the piece -/

/-- What is written is written again, as a tree of the same shape, if there are parentheses around
the text of one of its subtrees. -/
def Regroups (schema : Schema) (limit depth : Nat) (floor : Precedence) (tree : Tree)
    (cursor next : Cursor) (inner : Tree) : Prop :=
  ∃ piece : Piece, inner.span = ⟨piece.start.offset, piece.stop.offset⟩ ∧
    cursor.Reaches piece.start ∧
    ∀ first : Cursor, cursor = first.embedded 0 piece.start.rest →
      ∃ same : Tree, same.unplaced = tree.unplaced ∧
        Written schema (limit + 1) (depth + 1) floor same (first.enclosed piece.before)
          (next.enclosed behindParens)

/-- The text of a tree is written between parentheses. -/
theorem Written.between_parens {text : List Char}
    (written : Written schema limit depth floor tree cursor next)
    (spells : cursor.Spells text next) {opened : Cursor}
    (begins : opened.skipBlanks = ⟨cursor.offset, '(' :: (text ++ ')' :: next.rest)⟩)
    (outer : Precedence) :
    ∃ same : Tree, same.unplaced = tree.unplaced ∧
      Written schema (limit + 1) (depth + 1) outer same opened (next.enclosed behindParens) := by
  obtain ⟨alone, rfl, own⟩ := written.own spells
  let enclosure : Enclosure := ⟨cursor.offset + 1, ')' :: next.rest, by simp⟩
  have inside : Written schema (limit + 1) depth .loosest (alone.shifted enclosure.lead)
      ⟨cursor.offset + 1, text ++ ')' :: next.rest⟩
      ((⟨byteLength text, []⟩ : Cursor).enclosed enclosure) :=
    own.loosest.enclosed enclosure (Nat.le_succ limit) 0
  have close : ((⟨byteLength text, []⟩ : Cursor).enclosed enclosure).skipBlanks =
      ⟨cursor.offset + 1 + byteLength text, ')' :: next.rest⟩ := by
    rw [Cursor.skipBlanks_enclosed]
    rfl
  have opening := token?_paren (.inl rfl) toList_openParen begins
  have closing := token?_paren (.inr rfl) toList_closeParen close
  have ends : Stops .loosest (alone.shifted enclosure.lead)
      ((⟨byteLength text, []⟩ : Cursor).enclosed enclosure) :=
    fun c mem _ _ => calm_of_token (.inl rfl) closing 0 c mem (Nat.zero_le _)
  have behind : next.enclosed behindParens =
      ⟨cursor.offset + 1 + byteLength text + 1, next.rest⟩ := by
    simp only [Cursor.enclosed, behindParens, Enclosure.leading, List.append_nil, spells.2]
    congr 1
    omega
  rw [behind]
  refine ⟨_, ?_, .group opening inside ends closing⟩
  rw [Tree.unplaced_widen, Tree.unplaced_shifted, Tree.unplaced_shifted]

/-- Parentheses can be put around all that is written. -/
theorem Written.regroups (written : Written schema limit depth floor tree cursor next) :
    Regroups schema limit depth floor tree cursor next tree := by
  obtain ⟨text, spells⟩ := written.skipBlanks.reaches.spells
  refine ⟨⟨cursor.skipBlanks, next, text, spells⟩, written.stands.2, cursor.reaches_skipBlanks, ?_⟩
  intro first same
  -- before the piece there are only blanks
  have moved : cursor.skipBlanks = first.skipBlanks.embedded 0 cursor.skipBlanks.rest := by
    have inside : cursor.skipBlanks.rest.length ≤
        (first.embedded 0 cursor.skipBlanks.rest).skipBlanks.rest.length :=
      Nat.le_of_eq (congrArg (fun place => place.skipBlanks.rest.length) same)
    exact (congrArg Cursor.skipBlanks same).trans (Cursor.skipBlanks_embedded inside)
  have nothing : first.skipBlanks.rest = [] :=
    List.append_left_eq_self.mp (congrArg Cursor.rest moved).symm
  have here : cursor.skipBlanks.offset = 0 + first.skipBlanks.offset := congrArg Cursor.offset moved
  refine written.skipBlanks.between_parens spells ?_ floor
  rw [Cursor.skipBlanks_enclosed, Cursor.enclosed, nothing, here]
  rfl

/-! ## Nodes around a node with the piece -/

theorem Regroups.inGroup {opening closing : Lexeme String}
    (opened : token? table.tokens openParen cursor = some opening)
    (ends : Stops .loosest tree next)
    (closed : token? table.tokens closeParen next = some closing)
    (inside : Regroups schema limit depth .loosest tree opening.next next inner) :
    Regroups schema limit (depth + 1) floor (tree.widen ⟨opening.span.start, closing.span.stop⟩)
      cursor closing.next inner := by
  obtain ⟨piece, spanned, reaches, regroups⟩ := inside
  refine ⟨piece, spanned, (reaches_led paren_mem.1 opened).trans reaches, ?_⟩
  rintro first rfl
  obtain ⟨clipped, moved, _, further⟩ := piece.token?_before paren_mem.1 opened reaches
  obtain ⟨same, shape, written⟩ := regroups clipped.next moved
  have closed' := token?_some_enclosed behindParens paren_mem.2 closed
  have ends' := ends.congr (Tree.type_eq_of_unplaced shape)
    (sameAhead_enclosed behindParens next).covered
  refine ⟨_, ?_, .group further written ends' closed'⟩
  rw [Tree.unplaced_widen, Tree.unplaced_widen, shape]

theorem Regroups.inOpener {op : Opener} (known : op ∈ openers) {operand : Tree}
    {lexeme : Lexeme String} (noConstant : constant? cursor = .ok none)
    (led : token? table.tokens op.token cursor = some lexeme)
    (ends : Stops openerFloor operand next)
    (accepted : ∀ type ∈ op.demand.type?, type.accepts operand.type = true)
    (shallow : (op.node operand lexeme.span.start next).depth ≤ limit)
    (inside : Regroups schema limit depth openerFloor operand lexeme.next next inner) :
    Regroups schema limit (depth + 1) floor (op.node operand lexeme.span.start next) cursor next
      inner := by
  obtain ⟨piece, spanned, reaches, regroups⟩ := inside
  refine ⟨piece, spanned, (reaches_led (op.token_mem known) led).trans reaches, ?_⟩
  rintro first rfl
  obtain ⟨clipped, moved, own, further⟩ := piece.token?_before (op.token_mem known) led reaches
  obtain ⟨same, shape, written⟩ := regroups clipped.next moved
  have noConstant' := constant?_enclosed piece.before (op.noConstant_clip known own noConstant)
  have ends' := ends.congr (Tree.type_eq_of_unplaced shape)
    (sameAhead_enclosed behindParens next).covered
  have node : (op.node same (clipped.enclosed piece.before).span.start
      (next.enclosed behindParens)).unplaced =
      (op.node operand lexeme.span.start next).unplaced := op.unplaced_node shape
  refine ⟨_, node, .opener known (op.shut known further) noConstant' further written ends' ?_ ?_⟩
  · rwa [Tree.type_eq_of_unplaced shape]
  · rw [Tree.depth_eq_of_unplaced node]
    exact Nat.le_succ_of_le shallow

/-- Operands of the same shape make up a node of the same shape. -/
theorem Written.between_of_shapes {op : Infix} {left right left' right' : Tree}
    {cursor' middle' next' : Cursor} {lexeme : Lexeme String} (known : op ∈ infixes)
    (tight : floor.atMost (.level op.level) = true)
    (chosen : extender? left middle = some op.candidate) (same : SameAhead middle' middle)
    (ends : Stops op.rightFloor right next) (covered : Covered next' next)
    (accepted : ∀ type ∈ op.demand.type?, type.accepts right.type = true)
    (shallow : (op.node left right next).depth ≤ limit)
    (leftShape : left'.unplaced = left.unplaced) (rightShape : right'.unplaced = right.unplaced)
    (before : Written schema limit (depth + 1) floor left' cursor' middle')
    (led : token? table.tokens op.token middle' = some lexeme)
    (inside : Written schema limit depth op.rightFloor right' lexeme.next next') :
    ∃ same : Tree, same.unplaced = (op.node left right next).unplaced ∧
      Written schema limit (depth + 1) floor same cursor' next' := by
  have node : (op.node left' right' next').unplaced = (op.node left right next).unplaced :=
    op.unplaced_node leftShape rightShape
  have leftType := Tree.type_eq_of_unplaced leftShape
  have rightType := Tree.type_eq_of_unplaced rightShape
  refine ⟨_, node, .between known tight before ?_ led inside (ends.congr rightType covered) ?_ ?_⟩
  · rwa [extender?_congr leftType same]
  · rwa [rightType]
  · rwa [Tree.depth_eq_of_unplaced node]

section Between

variable {op : Infix} {left right : Tree} {lexeme : Lexeme String} (known : op ∈ infixes)
  (tight : floor.atMost (.level op.level) = true)
  (chosen : extender? left middle = some op.candidate)
  (led : token? table.tokens op.token middle = some lexeme)
  (ends : Stops op.rightFloor right next)
  (accepted : ∀ type ∈ op.demand.type?, type.accepts right.type = true)
  (shallow : (op.node left right next).depth ≤ limit)
include known tight chosen led ends accepted shallow

theorem Regroups.inLeft (before : Regroups schema limit (depth + 1) floor left cursor middle inner)
    (inside : Written schema limit depth op.rightFloor right lexeme.next next) :
    Regroups schema limit (depth + 1) floor (op.node left right next) cursor next inner := by
  obtain ⟨piece, spanned, reaches, regroups⟩ := before
  refine ⟨piece, spanned, reaches, fun first same => ?_⟩
  obtain ⟨left', shape, written⟩ := regroups first same
  exact Written.between_of_shapes known tight chosen (sameAhead_enclosed behindParens middle) ends
    (sameAhead_enclosed behindParens next).covered accepted (Nat.le_succ_of_le shallow) shape
    (right.unplaced_shifted _) written (token?_some_enclosed behindParens (op.token_mem known) led)
    (inside.enclosed behindParens (Nat.le_succ limit) 1)

theorem Regroups.inRight (before : Written schema limit (depth + 1) floor left cursor middle)
    (inside : Regroups schema limit depth op.rightFloor right lexeme.next next inner) :
    Regroups schema limit (depth + 1) floor (op.node left right next) cursor next inner := by
  obtain ⟨piece, spanned, reaches, regroups⟩ := inside
  have behind := reaches_led (op.token_mem known) led
  refine ⟨piece, spanned, before.reaches.trans (behind.trans reaches), ?_⟩
  rintro first rfl
  obtain ⟨middle', clipped, moved, before', same, led'⟩ :=
    piece.written_before (op.token_mem known) before led reaches
  obtain ⟨right', shape, written⟩ := regroups clipped.next moved
  exact Written.between_of_shapes known tight chosen same ends
    (sameAhead_enclosed behindParens next).covered accepted (Nat.le_succ_of_le shallow) rfl shape
    before' led' written

end Between

/-- Branches of the same shape make up a choice of the same shape. -/
theorem Written.chosen_of_shapes {condition condition' positive positive' negative negative' : Tree}
    {behind cursor' middle' behind' next' : Cursor} {mark colon : Lexeme String}
    (tight : floor.atMost choiceFloor = true)
    (extended : extender? condition middle = some (1, choice)) (same : SameAhead middle' middle)
    (ends : Stops .loosest positive behind) (covered : Covered behind' behind)
    (lastEnds : Stops choiceFloor negative next) (lastCovered : Covered next' next)
    (shallow : (choiceNode condition positive negative next).depth ≤ limit)
    (conditionShape : condition'.unplaced = condition.unplaced)
    (positiveShape : positive'.unplaced = positive.unplaced)
    (negativeShape : negative'.unplaced = negative.unplaced)
    (before : Written schema limit (depth + 1) floor condition' cursor' middle')
    (led : token? table.tokens "?" middle' = some mark)
    (inside : Written schema limit depth .loosest positive' mark.next behind')
    (divided : token? table.tokens ":" behind' = some colon)
    (last : Written schema limit depth choiceFloor negative' colon.next next') :
    ∃ same : Tree, same.unplaced = (choiceNode condition positive negative next).unplaced ∧
      Written schema limit (depth + 1) floor same cursor' next' := by
  have node : (choiceNode condition' positive' negative' next').unplaced =
      (choiceNode condition positive negative next).unplaced :=
    unplaced_choiceNode conditionShape positiveShape negativeShape
  have positiveType := Tree.type_eq_of_unplaced positiveShape
  have negativeType := Tree.type_eq_of_unplaced negativeShape
  refine ⟨_, node, .chosen tight before ?_ led inside (ends.congr positiveType covered) divided last
    (lastEnds.congr negativeType lastCovered) ?_⟩
  · rwa [extender?_congr (Tree.type_eq_of_unplaced conditionShape) same]
  · rwa [Tree.depth_eq_of_unplaced node]

section Choice

variable {condition positive negative : Tree} {behind : Cursor} {mark colon : Lexeme String}
  (tight : floor.atMost choiceFloor = true)
  (extended : extender? condition middle = some (1, choice))
  (led : token? table.tokens "?" middle = some mark)
  (ends : Stops .loosest positive behind)
  (divided : token? table.tokens ":" behind = some colon)
  (lastEnds : Stops choiceFloor negative next)
  (shallow : (choiceNode condition positive negative next).depth ≤ limit)
include tight extended led ends divided lastEnds shallow

theorem Regroups.inCondition
    (before : Regroups schema limit (depth + 1) floor condition cursor middle inner)
    (inside : Written schema limit depth .loosest positive mark.next behind)
    (last : Written schema limit depth choiceFloor negative colon.next next) :
    Regroups schema limit (depth + 1) floor (choiceNode condition positive negative next) cursor
      next inner := by
  obtain ⟨piece, spanned, reaches, regroups⟩ := before
  refine ⟨piece, spanned, reaches, fun first same => ?_⟩
  obtain ⟨condition', shape, written⟩ := regroups first same
  exact Written.chosen_of_shapes tight extended (sameAhead_enclosed behindParens middle) ends
    (sameAhead_enclosed behindParens behind).covered lastEnds
    (sameAhead_enclosed behindParens next).covered (Nat.le_succ_of_le shallow) shape
    (positive.unplaced_shifted _) (negative.unplaced_shifted _) written
    (token?_some_enclosed behindParens choice_mem.1 led)
    (inside.enclosed behindParens (Nat.le_succ limit) 1)
    (token?_some_enclosed behindParens choice_mem.2 divided)
    (last.enclosed behindParens (Nat.le_succ limit) 1)

theorem Regroups.inPositive
    (before : Written schema limit (depth + 1) floor condition cursor middle)
    (inside : Regroups schema limit depth .loosest positive mark.next behind inner)
    (last : Written schema limit depth choiceFloor negative colon.next next) :
    Regroups schema limit (depth + 1) floor (choiceNode condition positive negative next) cursor
      next inner := by
  obtain ⟨piece, spanned, reaches, regroups⟩ := inside
  have further := before.reaches.trans ((reaches_led choice_mem.1 led).trans reaches)
  refine ⟨piece, spanned, further, ?_⟩
  rintro first rfl
  obtain ⟨middle', mark', moved, before', same, led'⟩ :=
    piece.written_before choice_mem.1 before led reaches
  obtain ⟨positive', shape, written⟩ := regroups mark'.next moved
  exact Written.chosen_of_shapes tight extended same ends
    (sameAhead_enclosed behindParens behind).covered lastEnds
    (sameAhead_enclosed behindParens next).covered (Nat.le_succ_of_le shallow) rfl shape
    (negative.unplaced_shifted _) before' led' written
    (token?_some_enclosed behindParens choice_mem.2 divided)
    (last.enclosed behindParens (Nat.le_succ limit) 1)

theorem Regroups.inNegative
    (before : Written schema limit (depth + 1) floor condition cursor middle)
    (inside : Written schema limit depth .loosest positive mark.next behind)
    (last : Regroups schema limit depth choiceFloor negative colon.next next inner) :
    Regroups schema limit (depth + 1) floor (choiceNode condition positive negative next) cursor
      next inner := by
  obtain ⟨piece, spanned, reaches, regroups⟩ := last
  have behindMark := inside.reaches.trans ((reaches_led choice_mem.2 divided).trans reaches)
  have further := before.reaches.trans ((reaches_led choice_mem.1 led).trans behindMark)
  refine ⟨piece, spanned, further, ?_⟩
  rintro first rfl
  obtain ⟨middle', mark', movedMark, before', same, led'⟩ :=
    piece.written_before choice_mem.1 before led behindMark
  rw [movedMark] at inside
  obtain ⟨behind', colon', movedColon, inside', sameBehind, divided'⟩ :=
    piece.written_before choice_mem.2 inside divided reaches
  obtain ⟨negative', shape, written⟩ := regroups colon'.next movedColon
  exact Written.chosen_of_shapes tight extended same ends sameBehind.covered lastEnds
    (sameAhead_enclosed behindParens next).covered (Nat.le_succ_of_le shallow) rfl rfl shape before'
    led' inside' divided' written

end Choice

/-! ## All subtrees -/

theorem Written.regroups_of_operands (written : Written schema limit depth floor tree cursor next)
    (inside : ∀ operand ∈ tree.operands, ∀ inner ∈ operand.2.subtrees,
      Regroups schema limit depth floor tree cursor next inner) :
    ∀ inner ∈ tree.subtrees, Regroups schema limit depth floor tree cursor next inner := by
  intro inner mem
  rcases Tree.mem_subtrees.mp mem with rfl | ⟨operand, known, there⟩
  · exact written.regroups
  · exact inside operand known inner there

theorem Written.regroups_inside (written : Written schema limit depth floor tree cursor next) :
    ∀ operand ∈ tree.operands, ∀ inner ∈ operand.2.subtrees,
      Regroups schema limit depth floor tree cursor next inner := by
  induction written with
  | constant shut found =>
      rintro operand ⟨⟩
  | field shut noConstant noOpener found =>
      obtain ⟨path, entry, _, _, _, rfl, _, _⟩ := reference?_ok found
      rintro operand ⟨⟩
  | group opened inside ends closed ih =>
      rw [Tree.operands_widen]
      exact fun operand known inner there =>
        (ih operand known inner there).inGroup opened ends closed
  | opener known shut noConstant led inside ends accepted shallow ih =>
      rw [Opener.operands_node]
      intro operand mem inner there
      rw [List.mem_singleton.mp mem] at there
      exact (inside.regroups_of_operands ih inner there).inOpener known noConstant led ends accepted
        shallow
  | between known tight before chosen led inside ends accepted shallow left right =>
      rw [Infix.operands_node]
      intro operand mem inner there
      simp only [List.mem_cons, List.not_mem_nil, or_false] at mem
      rcases mem with rfl | rfl
      · exact .inLeft known tight chosen led ends accepted shallow
          (before.regroups_of_operands left inner there) inside
      · exact .inRight known tight chosen led ends accepted shallow before
          (inside.regroups_of_operands right inner there)
  | chosen tight before extended led inside ends divided last lastEnds shallow first second third =>
      rw [operands_choiceNode]
      intro operand mem inner there
      simp only [List.mem_cons, List.not_mem_nil, or_false] at mem
      rcases mem with rfl | rfl | rfl
      · exact .inCondition tight extended led ends divided lastEnds shallow
          (before.regroups_of_operands first inner there) inside last
      · exact .inNegative tight extended led ends divided lastEnds shallow before inside
          (last.regroups_of_operands third inner there)
      · exact .inPositive tight extended led ends divided lastEnds shallow before
          (inside.regroups_of_operands second inner there) last

/-! ## Whole texts -/

/-- A text with parentheses around a span. -/
def insertParens (source : String) (span : Span) : String :=
  String.ofList (slice source ⟨0, span.start⟩ ++ '(' :: slice source span ++
    ')' :: slice source ⟨span.stop, source.utf8ByteSize⟩)

theorem toList_insertParens {source : String} {piece : Piece} {before : List Char}
    (spells : (Cursor.start source).Spells before piece.start) :
    (insertParens source ⟨piece.start.offset, piece.stop.offset⟩).toList =
      before ++ piece.grouped := by
  have lies := (Cursor.liesIn_start source).spells spells
  have first := slice_of_spells (Cursor.liesIn_start source) spells
  have last := (lies.spells piece.spells).slice_rest
  rw [Cursor.start] at first
  rw [insertParens, first, slice_of_spells lies piece.spells, last, String.toList_ofList,
    Piece.grouped, List.append_assoc]

example : insertParens "1 + 2" ⟨4, 5⟩ = "1 + (2)" := by decide

/-- **Redundant parentheses.** Parentheses around the span of a subtree of an expression of the
standard language give an expression again, with one more level of nesting at most and with the same
tree but for its places. -/
theorem whole_parenthesized_of_whole {grammar : Grammar} (built : Standard.grammar = .ok grammar)
    {source : String} (ok : whole ⟨grammar, schema, limit⟩ source = .ok tree) :
    ∀ inner ∈ tree.subtrees, ∃ same : Tree,
      whole ⟨grammar, schema, limit + 1⟩ (insertParens source inner.span) = .ok same ∧
        same.unplaced = tree.unplaced := by
  obtain rfl : table = grammar := Except.ok.inj (grammar_eq.symm.trans built)
  obtain ⟨next, written, stops, atEnd⟩ := whole_ok_iff.mp ok
  intro inner mem
  obtain ⟨piece, spanned, reaches, regroups⟩ :=
    written.regroups_of_operands written.regroups_inside inner mem
  obtain ⟨before, spells⟩ := reaches.spells
  have first : Cursor.start source = (⟨0, before⟩ : Cursor).embedded 0 piece.start.rest := by
    rw [Cursor.embedded, ← spells.1]
    rfl
  have begins : (⟨0, before⟩ : Cursor).enclosed piece.before =
      Cursor.start (insertParens source inner.span) := by
    rw [spanned, Cursor.start, toList_insertParens spells]
    rfl
  obtain ⟨same, shape, around⟩ := regroups ⟨0, before⟩ first
  rw [begins] at around
  refine ⟨same, whole_ok_iff.mpr ⟨_, around, ?_, ?_⟩, shape⟩
  · exact stops.congr (Tree.type_eq_of_unplaced shape)
      (sameAhead_enclosed behindParens next).covered
  · rw [Cursor.skipBlanks_enclosed, Cursor.enclosed, atEnd]
    rfl

/-- An order that is paid or not. -/
def orderFields : Schema := [("order", .nested [("paid", .type .boolean)])]

theorem whole_parenthesized_choice : ∃ tree,
    whole ⟨table, orderFields, 8⟩ "order.paid ? (1 + 2) * 3 : -4 ** 2" = .ok tree ∧
      ∀ inner ∈ tree.subtrees, ∃ same : Tree,
        whole ⟨table, orderFields, 9⟩
            (insertParens "order.paid ? (1 + 2) * 3 : -4 ** 2" inner.span) = .ok same ∧
          same.unplaced = tree.unplaced := by
  have accepted :
      (whole ⟨table, orderFields, 8⟩ "order.paid ? (1 + 2) * 3 : -4 ** 2").isOk = true := by
    decide +kernel
  cases ok : whole ⟨table, orderFields, 8⟩ "order.paid ? (1 + 2) * 3 : -4 ** 2" with
  | error failure =>
      rw [ok] at accepted
      cases accepted
  | ok tree => exact ⟨tree, rfl, whole_parenthesized_of_whole grammar_eq ok⟩

end Mixfix.Standard
