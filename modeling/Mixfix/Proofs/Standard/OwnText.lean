import Mixfix.Proofs.Standard.Nesting
import Mixfix.Proofs.Standard.Printing
import Mixfix.Proofs.Standard.Reading
import Mixfix.Proofs.Text.Slices

/-!
# The text of a node

What lies in the span of a tree and outside of the spans of its operands is, without blanks, the
text of its own tokens in the order of its pattern, with as many opening parentheses before as there
are closing ones behind, and none exactly if the tree is bare (`Written.ownText_eq`). A leaf has one
token, and a bare leaf is this token with all its characters (`Written.isToken`).

Together with the levels of the operands this describes every tree that the parser of the standard
language gives (`nested_of_atStart`).
-/

set_option autoImplicit false

namespace Mixfix.Standard

open Parse Lexeme Descriptor

/-! ## Texts and tokens -/

/-- Whether a byte offset lies in the span of a tree and outside of its operands. -/
def isOwn (tree : Tree) (place : Nat) : Bool :=
  tree.span.covers place && !tree.operands.any fun operand => operand.2.span.covers place

/-- The text of a tree outside of its operands. -/
def ownText (source : String) (tree : Tree) : List Char := select (isOwn tree) 0 source.toList

/-- The tokens of a tree outside of its operands, in the order of its pattern. -/
def ownTokens (source : String) : Tree → List (List Char)
  | .literal _ extent => [slice source extent.core]
  | .identifier path _ _ => [pathText path]
  | .node name _ _ _ _ => nodeTokens name []

/-- A leaf without its parentheses is a token: a constant of its value, or the text of its path. -/
def IsToken (source : String) : Tree → Prop
  | .literal value extent => ∃ cursor lexeme, cursor.LiesIn source ∧
      constant? cursor = .ok (some lexeme) ∧ lexeme.content = value ∧ lexeme.span = extent.core
  | .identifier path _ extent => slice source extent.core = pathText path
  | .node _ _ _ _ _ => True

/-- A tree and the text of its span: its own tokens and matching parentheses around them, none if
and only if it is bare. -/
structure SpansTokens (source : String) (tree : Tree) : Prop where
  own : ∃ count, (tree.isBare = true ↔ count = 0) ∧
    withoutBlanks (ownText source tree) =
      List.replicate count '(' ++ withoutBlanks (ownTokens source tree).flatten ++
        List.replicate count ')'
  token : IsToken source tree

theorem nodeTokens_infixNode : ∀ op ∈ infixes, nodeTokens op.name [] = [op.token.toList] := by
  intro op known
  rw [nodeTokens, op.find_production known]
  rfl

theorem nodeTokens_opener : ∀ op ∈ openers, nodeTokens op.name [] = [op.token.toList] := by
  intro op known
  rw [nodeTokens, op.find_production known]
  rfl

theorem nodeTokens_choice : nodeTokens choice.name [] = [['?'], [':']] := by decide

variable {schema : Schema} {limit depth : Nat} {floor : Precedence} {tree : Tree}
  {cursor next : Cursor} {source : String}

/-! ## Where tokens and operands lie -/

/-- A token lies behind the cursor that it is found at. -/
theorem led_offsets {token : String} {lexeme : Lexeme String} (registered : token ∈ table.tokens)
    (led : token? table.tokens token cursor = some lexeme) :
    lexeme.span.start = cursor.skipBlanks.offset ∧ lexeme.span.stop = lexeme.next.offset ∧
      cursor.offset ≤ cursor.skipBlanks.offset ∧
      cursor.skipBlanks.offset < lexeme.next.offset := by
  obtain ⟨span, passes⟩ := starts_of_standard registered led
  rw [span]
  exact ⟨rfl, rfl, (Cursor.reaches_skipBlanks cursor).offset_le, passes.offset_lt⟩

/-- A tree lies behind the cursor that it is written at. -/
theorem Written.offsets (written : Written schema limit depth floor tree cursor next) :
    tree.span.start = cursor.skipBlanks.offset ∧ tree.span.stop = next.offset ∧
      cursor.offset ≤ cursor.skipBlanks.offset ∧ cursor.skipBlanks.offset < next.offset := by
  obtain ⟨passes, span⟩ := written.stands
  rw [span]
  exact ⟨rfl, rfl, (Cursor.reaches_skipBlanks cursor).offset_le, passes.offset_lt⟩

/-- The spans of the operands lie in the span of a tree. -/
theorem Written.operand_within (written : Written schema limit depth floor tree cursor next) :
    ∀ operand ∈ tree.operands, tree.span.start ≤ operand.2.span.start ∧
      operand.2.span.stop ≤ tree.span.stop := by
  induction written with
  | constant shut found => rintro operand ⟨⟩
  | field shut noConstant noOpener found =>
      obtain ⟨path, entry, _, _, _, rfl, _, _⟩ := reference?_ok found
      rintro operand ⟨⟩
  | group opened inside ends closed ih =>
      have opens := led_offsets paren_mem.1 opened
      have closes := led_offsets paren_mem.2 closed
      have between := inside.offsets
      rw [Tree.operands_widen, span_widen]
      intro operand mem
      have within := ih operand mem
      simp only
      omega
  | opener known shut noConstant led inside ends accepted shallow ih =>
      have leads := led_offsets (Opener.token_mem _ known) led
      have between := inside.offsets
      rw [Opener.operands_node, Opener.node, span_nodeOf]
      rintro operand mem
      obtain rfl := List.mem_singleton.mp mem
      simp only
      omega
  | between known tight before chosen led inside ends accepted shallow left right =>
      have leads := led_offsets (Infix.token_mem _ known) led
      have first := before.offsets
      have last := inside.offsets
      rw [Infix.operands_node, Infix.node, span_nodeOf]
      intro operand mem
      simp only [List.mem_cons, List.not_mem_nil, or_false] at mem
      rcases mem with rfl | rfl <;> simp only <;> omega
  | chosen tight before extended led inside ends divided last lastEnds shallow first second third =>
      have mark := led_offsets choice_mem.1 led
      have colon := led_offsets choice_mem.2 divided
      have condition := before.offsets
      have positive := inside.offsets
      have negative := last.offsets
      rw [operands_choiceNode, choiceNode, span_nodeOf]
      intro operand mem
      simp only [List.mem_cons, List.not_mem_nil, or_false] at mem
      rcases mem with rfl | rfl | rfl <;> simp only <;> omega

/-! ## What lies outside of the operands -/

theorem isOwn_iff {place : Nat} :
    isOwn tree place = true ↔ tree.span.start ≤ place ∧ place < tree.span.stop ∧
      ∀ operand ∈ tree.operands, ¬ (operand.2.span.start ≤ place ∧ place < operand.2.span.stop) := by
  simp only [isOwn, Span.covers, Bool.and_eq_true, Bool.not_eq_true', List.any_eq_false,
    decide_eq_true_eq, and_assoc]

theorem isOwn_widen_iff {span : Span} {place : Nat} :
    isOwn (tree.widen span) place = true ↔ span.start ≤ place ∧ place < span.stop ∧
      ∀ operand ∈ tree.operands, ¬ (operand.2.span.start ≤ place ∧ place < operand.2.span.stop) := by
  rw [isOwn_iff, span_widen, Tree.operands_widen]

/-- A token that is no part of an operand is selected. -/
theorem selects_token {token : String} {lexeme : Lexeme String} {test : Nat → Bool}
    (registered : token ∈ table.tokens) (led : token? table.tokens token cursor = some lexeme)
    (own : ∀ place, cursor.skipBlanks.offset ≤ place → place < lexeme.next.offset →
      test place = true) :
    Selects test cursor.skipBlanks token.toList lexeme.next := by
  have selected := selects_all (spells_of_token? led) own
  rwa [withoutBlanks_of_solid (solid_tokens token registered)] at selected

/-- Of an operand nothing is selected. -/
theorem selects_operand {test : Nat → Bool}
    (written : Written schema limit depth floor tree cursor next)
    (other : ∀ place, tree.span.start ≤ place → place < tree.span.stop → test place = false) :
    Selects test cursor.skipBlanks [] next := by
  obtain ⟨passes, span⟩ := written.stands
  rw [span] at other
  exact selects_none passes.reaches other

theorem isOwn_eq_false_of_operand {operand : String × Tree} (mem : operand ∈ tree.operands)
    {place : Nat} (above : operand.2.span.start ≤ place) (below : place < operand.2.span.stop) :
    isOwn tree place = false := by
  rw [← Bool.not_eq_true, isOwn_iff]
  exact fun own => own.2.2 operand mem ⟨above, below⟩

/-! ## Trees between their cursors -/

/-- Between the cursors of a tree its own tokens are found outside of its operands, with matching
parentheses around them. -/
def Selected (source : String) (tree : Tree) (cursor next : Cursor) : Prop :=
  ∃ count, (tree.isBare = true ↔ count = 0) ∧
    Selects (isOwn tree) cursor.skipBlanks
      (List.replicate count '(' ++ withoutBlanks (ownTokens source tree).flatten ++
        List.replicate count ')') next

/-- A bare tree is selected without parentheses. -/
theorem selected_of_bare (bare : tree.isBare = true) {text : List Char}
    (tokens : withoutBlanks (ownTokens source tree).flatten = text)
    (selects : Selects (isOwn tree) cursor.skipBlanks text next) :
    Selected source tree cursor next :=
  ⟨0, iff_of_true bare rfl, by simpa [tokens] using selects⟩

/-- A leaf is selected as a whole. -/
theorem selects_leaf {text : List Char} (leaf : tree.operands = [])
    (span : tree.span = ⟨cursor.skipBlanks.offset, next.offset⟩)
    (spells : cursor.skipBlanks.Spells text next) :
    Selects (isOwn tree) cursor.skipBlanks (withoutBlanks text) next := by
  refine selects_all spells fun place above below => ?_
  rw [isOwn_iff, span, leaf]
  exact ⟨above, below, by simp⟩

theorem selected_constant {lexeme : Lexeme Value} (inside : cursor.LiesIn source)
    (found : constant? cursor = .ok (some lexeme)) :
    Selected source (literalTree lexeme).1 cursor lexeme.next := by
  obtain ⟨span, passes⟩ := starts_of_constant? found
  obtain ⟨text, spells⟩ := passes.reaches.spells
  have token := slice_of_spells (inside.reaches (Cursor.reaches_skipBlanks cursor)) spells
  rw [← span] at token
  have bare : (literalTree lexeme).1.isBare = true := by
    simp [literalTree, Tree.isBare, Tree.extent]
  have flat : (ownTokens source (literalTree lexeme).1).flatten = text :=
    (List.append_nil _).trans token
  exact selected_of_bare bare (congrArg withoutBlanks flat) (selects_leaf rfl span spells)

theorem selected_reference (found : reference? schema cursor = .ok (some (tree, next))) :
    Selected source tree cursor next := by
  obtain ⟨path, entry, _, _, _, rfl, stands, rfl⟩ := reference?_ok found
  refine selected_of_bare (by simp [Tree.isBare, Tree.extent, Extent.bare]) ?_
    (selects_leaf rfl rfl (Cursor.spells_of_prefix stands))
  simp [ownTokens]

theorem ownTokens_widen (tree : Tree) (span : Span) :
    ownTokens source (tree.widen span) = ownTokens source tree := by
  cases tree <;> rfl

theorem selected_group {opening closing : Lexeme String}
    (opened : token? table.tokens openParen cursor = some opening)
    (written : Written schema limit depth floor tree opening.next next)
    (closed : token? table.tokens closeParen next = some closing)
    (selected : Selected source tree opening.next next) :
    Selected source (tree.widen ⟨opening.span.start, closing.span.stop⟩) cursor closing.next := by
  obtain ⟨count, _, selects⟩ := selected
  have opens := led_offsets paren_mem.1 opened
  have closes := led_offsets paren_mem.2 closed
  have between := written.offsets
  refine ⟨count + 1, iff_of_false (by simp [written.group_not_bare opened]) (by simp), ?_⟩
  have own : ∀ place, opening.span.start ≤ place → place < closing.span.stop →
      (∀ operand ∈ tree.operands, place < operand.2.span.start ∨ operand.2.span.stop ≤ place) →
      isOwn (tree.widen ⟨opening.span.start, closing.span.stop⟩) place = true := by
    intro place above below apart
    refine isOwn_widen_iff.mpr ⟨above, below, fun operand mem inside => ?_⟩
    have := apart operand mem
    omega
  have before : Selects (isOwn (tree.widen ⟨opening.span.start, closing.span.stop⟩))
      cursor.skipBlanks ['('] opening.next := by
    refine selects_token paren_mem.1 opened fun place above below => ?_
    refine own place (by omega) (by omega) fun operand mem => ?_
    have within := written.operand_within operand mem
    omega
  have behind : Selects (isOwn (tree.widen ⟨opening.span.start, closing.span.stop⟩))
      next.skipBlanks [')'] closing.next := by
    refine selects_token paren_mem.2 closed fun place above below => ?_
    refine own place (by omega) (by omega) fun operand mem => ?_
    have within := written.operand_within operand mem
    omega
  have inner := selects.congr fun place above below => show isOwn tree place =
      isOwn (tree.widen ⟨opening.span.start, closing.span.stop⟩) place by
    rw [Bool.eq_iff_iff, isOwn_iff, isOwn_widen_iff]
    exact ⟨fun holds => ⟨by simp only; omega, by simp only; omega, holds.2.2⟩,
      fun holds => ⟨by omega, by omega, holds.2.2⟩⟩
  have all := (((before.trans (selects_skipBlanks _ _)).trans inner).trans
    (selects_skipBlanks _ _)).trans behind
  rw [ownTokens_widen, List.replicate_succ, List.replicate_succ']
  simpa using all

theorem withoutBlanks_token {token : String} (registered : token ∈ table.tokens) :
    withoutBlanks [token.toList].flatten = token.toList := by
  rw [List.flatten_singleton, withoutBlanks_of_solid (solid_tokens token registered)]

theorem selected_opener {op : Opener} (known : op ∈ openers) {lexeme : Lexeme String}
    (led : token? table.tokens op.token cursor = some lexeme)
    (inside : Written schema limit depth floor tree lexeme.next next) :
    Selected source (op.node tree lexeme.span.start next) cursor next := by
  have leads := led_offsets (op.token_mem known) led
  have operand := inside.offsets
  have tokens : withoutBlanks (ownTokens source (op.node tree lexeme.span.start next)).flatten =
      op.token.toList := by
    rw [← withoutBlanks_token (op.token_mem known), ← nodeTokens_opener op known]
    rfl
  refine selected_of_bare (isBare_nodeOf _ _ _ _) tokens ?_
  have span := span_nodeOf op.production [("operand", .tree tree)] lexeme.span.start next
  have operands := op.operands_node tree lexeme.span.start next
  rw [← Opener.node] at span
  clear tokens
  generalize op.node tree lexeme.span.start next = node at span operands ⊢
  have token := selects_token (op.token_mem known) led fun place above below => by
    show isOwn node place = true
    rw [isOwn_iff, operands, span]
    refine ⟨by simp only; omega, by simp only; omega, fun other mem => ?_⟩
    obtain rfl := List.mem_singleton.mp mem
    simp only
    omega
  have mem : ("operand", tree) ∈ node.operands := by simp [operands]
  have rest := selects_operand inside fun _ above below =>
    isOwn_eq_false_of_operand mem above below
  simpa using (token.trans (selects_skipBlanks _ _)).trans rest

theorem selected_infixNode {op : Infix} (known : op ∈ infixes) {middle : Cursor}
    {left right : Tree} {leftDepth rightDepth : Nat} {leftFloor rightFloor : Precedence}
    {lexeme : Lexeme String}
    (before : Written schema limit leftDepth leftFloor left cursor middle)
    (led : token? table.tokens op.token middle = some lexeme)
    (inside : Written schema limit rightDepth rightFloor right lexeme.next next) :
    Selected source (op.node left right next) cursor next := by
  have leads := led_offsets (op.token_mem known) led
  have first := before.offsets
  have last := inside.offsets
  have tokens : withoutBlanks (ownTokens source (op.node left right next)).flatten =
      op.token.toList := by
    rw [← withoutBlanks_token (op.token_mem known), ← nodeTokens_infixNode op known]
    rfl
  refine selected_of_bare (isBare_nodeOf _ _ _ _) tokens ?_
  have span := span_nodeOf op.production [("left", .tree left), ("right", .tree right)]
    left.span.start next
  have operands := op.operands_node left right next
  rw [← Infix.node] at span
  clear tokens
  generalize op.node left right next = node at span operands ⊢
  have leftMem : ("left", left) ∈ node.operands := by simp [operands]
  have rightMem : ("right", right) ∈ node.operands := by simp [operands]
  have front := selects_operand before fun _ above below =>
    isOwn_eq_false_of_operand leftMem above below
  have token := selects_token (op.token_mem known) led fun place above below => by
    show isOwn node place = true
    rw [isOwn_iff, operands, span]
    refine ⟨by simp only; omega, by simp only; omega, fun other mem => ?_⟩
    simp only [List.mem_cons, List.not_mem_nil, or_false] at mem
    rcases mem with rfl | rfl <;> simp only <;> omega
  have rest := selects_operand inside fun _ above below =>
    isOwn_eq_false_of_operand rightMem above below
  have all := ((front.trans (selects_skipBlanks _ _)).trans token).trans
    ((selects_skipBlanks _ _).trans rest)
  simpa using all

theorem selected_choice {middle behind : Cursor} {condition positive negative : Tree}
    {firstDepth secondDepth thirdDepth : Nat} {firstFloor secondFloor thirdFloor : Precedence}
    {mark colon : Lexeme String}
    (before : Written schema limit firstDepth firstFloor condition cursor middle)
    (led : token? table.tokens "?" middle = some mark)
    (inside : Written schema limit secondDepth secondFloor positive mark.next behind)
    (divided : token? table.tokens ":" behind = some colon)
    (last : Written schema limit thirdDepth thirdFloor negative colon.next next) :
    Selected source (choiceNode condition positive negative next) cursor next := by
  have leads := led_offsets choice_mem.1 led
  have divides := led_offsets choice_mem.2 divided
  have first := before.offsets
  have second := inside.offsets
  have third := last.offsets
  have tokens : withoutBlanks
      (ownTokens source (choiceNode condition positive negative next)).flatten = ['?', ':'] := by
    show withoutBlanks (nodeTokens choice.name []).flatten = _
    rw [nodeTokens_choice]
    rfl
  refine selected_of_bare (isBare_nodeOf _ _ _ _) tokens ?_
  have span := span_nodeOf choice [("condition", .tree condition), ("else", .tree negative),
    ("then", .tree positive)] condition.span.start next
  have operands := operands_choiceNode condition positive negative next
  rw [← choiceNode] at span
  clear tokens
  generalize choiceNode condition positive negative next = node at span operands ⊢
  have conditionMem : ("condition", condition) ∈ node.operands := by simp [operands]
  have positiveMem : ("then", positive) ∈ node.operands := by simp [operands]
  have negativeMem : ("else", negative) ∈ node.operands := by simp [operands]
  have asked := selects_operand before fun _ above below =>
    isOwn_eq_false_of_operand conditionMem above below
  have yes := selects_operand inside fun _ above below =>
    isOwn_eq_false_of_operand positiveMem above below
  have no := selects_operand last fun _ above below =>
    isOwn_eq_false_of_operand negativeMem above below
  have own : ∀ place, node.span.start ≤ place → place < node.span.stop →
      (place < condition.span.start ∨ condition.span.stop ≤ place) →
      (place < positive.span.start ∨ positive.span.stop ≤ place) →
      (place < negative.span.start ∨ negative.span.stop ≤ place) → isOwn node place = true := by
    intro place above below outsideFirst outsideSecond outsideThird
    rw [isOwn_iff, operands]
    refine ⟨above, below, fun other mem => ?_⟩
    simp only [List.mem_cons, List.not_mem_nil, or_false] at mem
    rcases mem with rfl | rfl | rfl <;> simp only <;> omega
  rw [span] at own
  simp only at own
  have opens := selects_token choice_mem.1 led fun place above below =>
    own place (by omega) (by omega) (by omega) (by omega) (by omega)
  have splits := selects_token choice_mem.2 divided fun place above below =>
    own place (by omega) (by omega) (by omega) (by omega) (by omega)
  have all := (((asked.trans (selects_skipBlanks _ _)).trans opens).trans
    ((selects_skipBlanks _ _).trans yes)).trans
      (((selects_skipBlanks _ _).trans splits).trans ((selects_skipBlanks _ _).trans no))
  simpa using all

/-- What is written is selected. -/
theorem Written.selected (written : Written schema limit depth floor tree cursor next)
    (inside : cursor.LiesIn source) : Selected source tree cursor next := by
  induction written with
  | constant shut found => exact selected_constant inside found
  | field shut noConstant noOpener found => exact selected_reference found
  | group opened written ends closed ih =>
      exact selected_group opened written closed (ih (inside.reaches (reaches_led paren_mem.1 opened)))
  | opener known shut noConstant led written ends accepted shallow ih =>
      exact selected_opener known led written
  | between known tight before chosen led written ends accepted shallow left right =>
      exact selected_infixNode known before led written
  | chosen tight before extended led written ends divided last lastEnds shallow first second third =>
      exact selected_choice before led written divided last

/-- The text of what is written outside of its operands is made of its own tokens and of matching
parentheses. -/
theorem Written.ownText_eq (written : Written schema limit depth floor tree cursor next)
    (inside : cursor.LiesIn source) :
    ∃ count, (tree.isBare = true ↔ count = 0) ∧
      withoutBlanks (ownText source tree) =
        List.replicate count '(' ++ withoutBlanks (ownTokens source tree).flatten ++
          List.replicate count ')' := by
  obtain ⟨count, bare, selects⟩ := written.selected inside
  refine ⟨count, bare, selects.whole (inside.reaches (Cursor.reaches_skipBlanks cursor)) ?_⟩
  intro place own
  obtain ⟨passes, span⟩ := written.stands
  have within := isOwn_iff.mp own
  rw [span] at within
  exact ⟨within.1, within.2.1⟩

/-- A leaf without its parentheses is a token. -/
theorem Written.isToken (written : Written schema limit depth floor tree cursor next)
    (inside : cursor.LiesIn source) : IsToken source tree := by
  have widened : ∀ {tree span}, IsToken source tree → IsToken source (Tree.widen span tree) := by
    intro tree span token
    cases tree <;> exact token
  induction written with
  | constant shut found => exact ⟨_, _, inside, found, rfl, rfl⟩
  | field shut noConstant noOpener found =>
      obtain ⟨path, entry, _, _, _, rfl, stands, rfl⟩ := reference?_ok found
      exact slice_of_spells (inside.reaches (Cursor.reaches_skipBlanks _))
        (Cursor.spells_of_prefix stands)
  | group opened written ends closed ih =>
      exact widened (ih (inside.reaches (reaches_led paren_mem.1 opened)))
  | _ => trivial

/-! ## What the parser gives -/

/-- Throughout a tree that the parser of the standard language gives for some text, operands without
parentheses are as tight as the levels of the nodes ask for, and the text of every node outside of
its operands is made of its own tokens and of matching parentheses. -/
theorem nested_of_atStart {grammar : Grammar} (built : Standard.grammar = .ok grammar)
    {schema : Schema} (schemaBuilt : Schema.IsBuilt schema) {limit : Nat} {source : String}
    {parsed : Partial} (ok : atStart ⟨grammar, schema, limit⟩ source = .ok parsed) :
    ∀ inner ∈ parsed.tree.subtrees, KeepsLevels inner ∧ SpansTokens source inner := by
  obtain rfl : table = grammar := Except.ok.inj (grammar_eq.symm.trans built)
  obtain ⟨next, written, _⟩ := atStart_ok_iff.mp ok
  intro inner mem
  obtain ⟨depth, floor, start, stop, reaches, inside⟩ := written.of_subtree inner mem
  have lies := (Cursor.liesIn_start source).reaches reaches
  exact ⟨inside.keepsLevels schemaBuilt.wellFormed, inside.ownText_eq lies, inside.isToken lies⟩

theorem nested_productOfSum : ∃ parsed,
    atStart ⟨table, [], 8⟩ "(1 + 2) * 3 ?? -(4) ** 2" = .ok parsed ∧
      ∀ inner ∈ parsed.tree.subtrees,
        KeepsLevels inner ∧ SpansTokens "(1 + 2) * 3 ?? -(4) ** 2" inner := by
  have accepted : (atStart ⟨table, [], 8⟩ "(1 + 2) * 3 ?? -(4) ** 2").isOk = true := by
    decide +kernel
  cases ok : atStart ⟨table, [], 8⟩ "(1 + 2) * 3 ?? -(4) ** 2" with
  | error failure =>
      rw [ok] at accepted
      cases accepted
  | ok parsed => exact ⟨parsed, rfl, nested_of_atStart grammar_eq .empty ok⟩

end Mixfix.Standard
