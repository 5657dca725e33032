import Mathlib.Data.List.TakeWhile
import Mixfix.Proofs.Parse.Advance
import Mixfix.Proofs.Tree.Spans

/-!
# Parsed trees are laid out

In every grammar that was built, an expression that is read starts at the first character that is
not blank and ends where the cursor is left (`Placed`); what it was made of lies inside of it, one
piece behind the other. So in the tree of a text every span lies in the text and encloses those of
the operands, which are apart, and the references start one behind the other
(`spans_of_atStart`).

The ends of spans are taken from the cursor, which goes back when a group or a candidate is given
up. A walk through a pattern has no such steps (`Reads`), so it is enough to follow a walk: what is
bound so far lies between the start of the walk and the cursor (`Walked`), and what an element binds
lies between two cursors. A left operand was read before the walk started.
-/

set_option autoImplicit false

namespace Mixfix

namespace Parse

variable {setting : Setting} {operand : Operand} {source : String} {cursor next : Cursor}

/-! ## Bindings -/

/-- The trees of two bindings are apart. -/
def Clear (first second : String × Binding) : Prop :=
  ∀ tree other, first.2 = .tree tree → second.2 = .tree other → tree.span.Apart other.span

theorem Clear.symm (first second : String × Binding) (clear : Clear first second) :
    Clear second first :=
  fun tree other here there => (clear other tree there here).symm

/-- The trees among bindings that are clear of each other are apart. -/
theorem apart_treesOf {bindings : Bindings} (clear : bindings.Pairwise Clear) :
    (Tree.treesOf bindings).Pairwise fun first second => first.2.span.Apart second.2.span := by
  induction bindings with
  | nil => exact .nil
  | cons binding bindings ih =>
      obtain ⟨among, clearRest⟩ := List.pairwise_cons.mp clear
      obtain ⟨name, tree | value⟩ := binding
      · refine List.pairwise_cons.mpr ⟨?_, ih clearRest⟩
        intro operand known
        exact among _ (Tree.mem_treesOf.mp known) tree operand.2 rfl rfl
      · exact ih clearRest

/-- The trees among bindings are spaced, apart from each other and between two offsets. -/
structure Spread (source : String) (start stop : Nat) (bindings : Bindings) : Prop where
  spaced : ∀ name tree, (name, .tree tree) ∈ bindings →
    tree.Spaced source ∧ tree.span.Within ⟨start, stop⟩
  clear : bindings.Pairwise Clear

namespace Spread

variable {start stop : Nat} {bindings added : Bindings}

theorem nothing (start stop : Nat) : Spread source start stop [] := by
  refine ⟨?_, .nil⟩
  intro name tree mem
  cases mem

/-- A single binding is spread if its tree is spaced. -/
theorem single {name : String} {binding : Binding}
    (spaced : ∀ tree, binding = .tree tree →
      tree.Spaced source ∧ tree.span.Within ⟨start, stop⟩) :
    Spread source start stop [(name, binding)] := by
  refine ⟨?_, List.pairwise_singleton _ _⟩
  intro key tree mem
  cases List.mem_singleton.mp mem
  exact spaced tree rfl

theorem widen {first last : Nat} (spread : Spread source start stop bindings)
    (before : first ≤ start) (behind : stop ≤ last) : Spread source first last bindings := by
  refine ⟨?_, spread.clear⟩
  intro name tree mem
  obtain ⟨spaced, within⟩ := spread.spaced name tree mem
  exact ⟨spaced, within.trans ⟨before, behind⟩⟩

/-- Bindings before an offset are clear of those behind it. -/
theorem clear_of_le {middle last : Nat} (before : Spread source start stop bindings)
    (behind : Spread source middle last added) (le : stop ≤ middle) :
    ∀ first ∈ bindings, ∀ second ∈ added, Clear first second := by
  rintro ⟨name, _⟩ mem ⟨other, _⟩ later tree inner rfl rfl
  have left := (before.spaced name tree mem).2.2
  have right := (behind.spaced other inner later).2.1
  exact .inl (Nat.le_trans left (Nat.le_trans le right))

theorem union (spread : Spread source start stop bindings) (spreadAdded : Spread source start stop added)
    (across : ∀ first ∈ bindings, ∀ second ∈ added, Clear first second) :
    Spread source start stop (Dict.union bindings added) := by
  refine ⟨?_, Dict.pairwise_union Clear.symm spread.clear spreadAdded.clear across⟩
  intro name tree mem
  rcases Dict.mem_of_mem_union mem with old | new
  · exact spread.spaced name tree old
  · exact spreadAdded.spaced name tree new

/-- What is bound behind an offset comes to what is bound before it. -/
theorem append {middle resumed last : Nat} (before : Spread source start middle bindings)
    (behind : Spread source resumed last added) (first : start ≤ resumed) (le : middle ≤ resumed)
    (forward : middle ≤ last) : Spread source start last (Dict.union bindings added) :=
  (before.widen (Nat.le_refl _) forward).union (behind.widen first (Nat.le_refl _))
    (before.clear_of_le behind le)

/-- What is bound before an offset comes to what is bound behind it. -/
theorem prepend {middle resumed last : Nat} (behind : Spread source resumed last bindings)
    (before : Spread source start middle added) (first : start ≤ resumed) (le : middle ≤ resumed)
    (forward : middle ≤ last) : Spread source start last (Dict.union bindings added) := by
  refine (behind.widen first (Nat.le_refl _)).union (before.widen (Nat.le_refl _) forward) ?_
  intro second mem first earlier
  exact (before.clear_of_le behind le first earlier second mem).symm

/-- A node over what is bound within its span is spaced. -/
theorem spaced_node {name : String} {type : Descriptor} {depth : Nat}
    (spread : Spread source start stop bindings) (lies : Span.LiesIn source ⟨start, stop⟩) :
    Tree.Spaced source (.node name bindings type depth (Extent.bare start stop)) := by
  refine Tree.spaced_of_operands ⟨lies, ?_, apart_treesOf spread.clear⟩ ?_
  · intro operand known
    exact (spread.spaced operand.1 operand.2 (Tree.mem_treesOf.mp known)).2
  · intro operand known
    exact (spread.spaced operand.1 operand.2 (Tree.mem_treesOf.mp known)).1

end Spread

/-! ## Leaves -/

/-- An expression starts at the first character that is not blank and ends at the cursor behind it,
and everything inside of it is laid out. -/
structure Placed (source : String) (cursor : Cursor) (parsed : Parsed) : Prop where
  span : parsed.1.span = ⟨cursor.skipBlanks.offset, parsed.2.offset⟩
  passes : cursor.skipBlanks.Passes parsed.2
  spaced : parsed.1.Spaced source

theorem liesIn_skipped (inside : cursor.LiesIn source) (passes : cursor.skipBlanks.Passes next) :
    Span.LiesIn source ⟨cursor.skipBlanks.offset, next.offset⟩ :=
  Span.liesIn_between (inside.reaches (Cursor.reaches_skipBlanks cursor)) passes

theorem placed_of_constant? {lexeme : Lexeme Value} (inside : cursor.LiesIn source)
    (found : constant? cursor = .ok (some lexeme)) :
    Placed source cursor (literalTree lexeme) := by
  obtain ⟨span, passes⟩ := starts_of_constant? found
  refine ⟨span, passes, Tree.spaced_leaf rfl ?_⟩
  change lexeme.span.LiesIn source
  rw [span]
  exact liesIn_skipped inside passes

theorem placed_of_reference? {parsed : Parsed} (inside : cursor.LiesIn source)
    (found : reference? setting.schema cursor = .ok (some parsed)) :
    Placed source cursor parsed := by
  have passes := passes_of_reference? found
  obtain ⟨tree, next⟩ := parsed
  obtain ⟨path, entry, _, _, _, rfl, _, _⟩ := reference?_ok found
  exact ⟨rfl, passes, Tree.spaced_leaf rfl (liesIn_skipped inside passes)⟩

/-- A literal element starts at the first character that is not blank, as does the reference that it
may bind. -/
theorem start_of_capture? {kind : LiteralKind} {capture : Capture} (inside : cursor.LiesIn source)
    (captured : capture? setting.schema kind cursor = .ok (some capture)) :
    capture.start = cursor.skipBlanks.offset ∧
      ∀ tree, capture.binding = .tree tree → Placed source cursor (tree, capture.next) := by
  cases kind with
  | number =>
      obtain ⟨lexeme, found, rfl⟩ := Option.map_eq_some_iff.mp (Except.ok.inj captured)
      refine ⟨congrArg Span.start (Lexeme.starts_of_number? found).1, ?_⟩
      intro tree same
      cases same
  | string =>
      obtain ⟨found?, found, same⟩ := Descriptor.ok_of_map captured
      obtain ⟨lexeme, rfl, rfl⟩ := Option.map_eq_some_iff.mp same
      refine ⟨congrArg Span.start (starts_of_stringValue? found).1, ?_⟩
      intro tree same
      cases same
  | identifier =>
      obtain ⟨found?, found, same⟩ := Descriptor.ok_of_map captured
      obtain ⟨⟨tree, next⟩, rfl, rfl⟩ := Option.map_eq_some_iff.mp same
      have placed := placed_of_reference? inside found
      refine ⟨congrArg Span.start placed.span, ?_⟩
      intro other same
      cases same
      exact placed
  | keyword keyword =>
      obtain ⟨lexeme, found, rfl⟩ := Option.map_eq_some_iff.mp (Except.ok.inj captured)
      refine ⟨congrArg Span.start (Lexeme.starts_of_keyword? found).1, ?_⟩
      intro tree same
      cases same

/-! ## Walks -/

/-- A walk that set out from a cursor has come to a progress: what was bound so far lies in between,
and the walk starts at the first character that is not blank, if it took any. -/
structure Walked (source : String) (origin : Cursor) (progress : Progress) : Prop where
  inside : progress.cursor.LiesIn source
  started : ∀ start, progress.start = some start →
    start = origin.skipBlanks.offset ∧ origin.skipBlanks.Passes progress.cursor
  still : progress.start = none → progress.cursor = origin
  spread : Spread source origin.skipBlanks.offset progress.cursor.offset progress.bindings

namespace Walked

variable {origin : Cursor} {progress : Progress}

theorem begin (inside : origin.LiesIn source) : Walked source origin (.begin origin) where
  inside := inside
  started := by
    intro start same
    cases same
  still := fun _ => rfl
  spread := .nothing _ _

/-- The next character that is not blank is not before the first one. -/
theorem reaches_skipped (walked : Walked source origin progress) :
    origin.skipBlanks.Reaches progress.cursor.skipBlanks := by
  cases start : progress.start with
  | none =>
      rw [walked.still start]
      exact .refl _
  | some start =>
      obtain ⟨_, passes⟩ := walked.started _ start
      exact passes.reaches.trans (Cursor.reaches_skipBlanks _)

/-- Whatever is matched from the next character that is not blank on goes on with the walk. -/
theorem moved (walked : Walked source origin progress)
    (passes : progress.cursor.skipBlanks.Passes next) :
    Walked source origin (progress.moved progress.cursor.skipBlanks.offset next) where
  inside := walked.inside.reaches ((Cursor.reaches_skipBlanks _).passes passes).reaches
  started := by
    intro start same
    refine ⟨?_, walked.reaches_skipped.passes passes⟩
    cases before : progress.start with
    | none =>
        rw [Progress.moved, before, walked.still before] at same
        exact (Option.some.inj same).symm
    | some first =>
        rw [Progress.moved, before] at same
        exact (Option.some.inj same) ▸ (walked.started first before).1
  still := by
    intro nothing
    cases nothing
  spread := walked.spread.widen (Nat.le_refl _)
    ((Cursor.reaches_skipBlanks _).passes passes).reaches.offset_le

/-- The walk goes on with what an element bound under its name. -/
theorem element (walked : Walked source origin progress) (name : Option String) {binding : Binding}
    (passes : progress.cursor.skipBlanks.Passes next)
    (placed : ∀ tree, binding = .tree tree → Placed source progress.cursor (tree, next)) :
    Walked source origin
      ((progress.moved progress.cursor.skipBlanks.offset next).bound name binding) := by
  have moved := walked.moved passes
  cases name with
  | none => exact moved
  | some name =>
      refine ⟨moved.inside, moved.started, moved.still, ?_⟩
      have single : Spread source progress.cursor.skipBlanks.offset next.offset
          [(name, binding)] := by
        refine Spread.single ?_
        intro tree same
        have here := placed tree same
        refine ⟨here.spaced, ?_⟩
        rw [here.span]
        exact ⟨Nat.le_refl _, Nat.le_refl _⟩
      exact walked.spread.append single walked.reaches_skipped.offset_le
        (Cursor.reaches_skipBlanks _).offset_le
        ((Cursor.reaches_skipBlanks _).passes passes).reaches.offset_le

/-- The walk goes on with a group that was walked through from where it stands. -/
theorem joined {group : Progress} (walked : Walked source origin progress)
    (inner : Walked source progress.cursor group) : Walked source origin (progress.joined group) := by
  have reaches : progress.cursor.Reaches group.cursor := by
    cases start : group.start with
    | none =>
        rw [inner.still start]
        exact .refl _
    | some start =>
        exact (Cursor.reaches_skipBlanks _).trans (inner.started _ start).2.reaches
  refine ⟨inner.inside, ?_, ?_, ?_⟩
  · intro start same
    cases before : progress.start with
    | none =>
        rw [Progress.joined, before] at same
        have own := walked.still before
        rw [← own]
        exact inner.started start same
    | some first =>
        rw [Progress.joined, before] at same
        cases same
        obtain ⟨begins, passes⟩ := walked.started _ before
        exact ⟨begins, passes.trans_reaches reaches⟩
  · intro nothing
    cases before : progress.start with
    | none =>
        rw [Progress.joined, before] at nothing
        exact (inner.still nothing).trans (walked.still before)
    | some first =>
        rw [Progress.joined, before] at nothing
        cases nothing
  · exact walked.spread.append inner.spread walked.reaches_skipped.offset_le
      (Cursor.reaches_skipBlanks _).offset_le reaches.offset_le

end Walked

/-- Every operand that is read from within the text is placed. -/
def PlacesOperands (source : String) (Operand : Precedence → Cursor → Parsed → Prop) : Prop :=
  ∀ floor cursor parsed, Cursor.LiesIn source cursor → Operand floor cursor parsed →
    Placed source cursor parsed

/-- A walk through elements goes on with any walk before it. -/
theorem Reads.walked {Operand : Precedence → Cursor → Parsed → Prop} {precedence : Precedence}
    (operands : PlacesOperands source Operand) {elements : List (Element Descriptor)}
    {progress final : Progress} (reads : Reads setting Operand precedence elements progress final)
    (nonempty : ∀ token ∈ patternTokens elements, token ≠ "") {origin : Cursor}
    (walked : Walked source origin progress) : Walked source origin final := by
  induction reads generalizing origin with
  | done progress => exact walked
  | text found _ ih =>
      obtain ⟨span, passes⟩ := Lexeme.starts_of_token? (nonempty _ List.mem_cons_self) found
      have moved := walked.moved passes
      rw [span] at ih
      exact ih (fun token mem => nonempty token (List.mem_cons_of_mem _ mem))
        ⟨moved.inside, moved.started, moved.still, moved.spread⟩
  | literal captured _ ih =>
      obtain ⟨start, placed⟩ := start_of_capture? walked.inside captured
      rw [start] at ih
      exact ih nonempty (walked.element _ (passes_of_capture? captured) placed)
  | operand read _ _ ih =>
      have placed := operands _ _ _ walked.inside read
      rw [placed.span] at ih
      refine ih nonempty (walked.element _ placed.passes ?_)
      rintro tree same
      cases same
      exact placed
  | present _ _ inside ih =>
      rw [patternTokens, elementTokens] at nonempty
      have inner := inside (fun token mem => nonempty token (List.mem_append_left _ mem))
        (.begin walked.inside)
      exact ih (fun token mem => nonempty token (List.mem_append_right _ mem)) (walked.joined inner)
  | absent _ ih =>
      rw [patternTokens, elementTokens] at nonempty
      exact ih (fun token mem => nonempty token (List.mem_append_right _ mem)) walked

/-! ## Expressions -/

/-- The bindings of a node with its left operand are spread from the start of the operand on. -/
theorem spread_withLeft {production : Production} {constraint : Option Descriptor}
    {name : Option String} {rest : List (Element Descriptor)} {left : Parsed} {final : Progress}
    (shape : production.elements = .operand .lhs constraint name :: rest)
    (placed : Placed source cursor left) (walked : Walked source left.2 final)
    (passes : left.2.Passes final.cursor) :
    Spread source cursor.skipBlanks.offset final.cursor.offset
      (withLeft production left.1 final.bindings) := by
  have before := placed.passes.reaches.offset_le
  have behind := (Cursor.reaches_skipBlanks left.2).offset_le
  unfold withLeft
  rw [shape]
  cases name with
  | none => exact walked.spread.widen (Nat.le_trans before behind) (Nat.le_refl _)
  | some name =>
      have single : Spread source cursor.skipBlanks.offset left.2.offset [(name, .tree left.1)] := by
        refine Spread.single ?_
        intro tree same
        cases same
        refine ⟨placed.spaced, ?_⟩
        rw [placed.span]
        exact ⟨Nat.le_refl _, Nat.le_refl _⟩
      exact walked.spread.prepend single (Nat.le_trans before behind) behind
        passes.reaches.offset_le

section Built

variable {definitions : List Definition} {parsed extended : Parsed}
  (built : Grammar.build definitions = .ok setting.grammar) (moving : MovingOperand operand)
  (operands : PlacesOperands source (Givable operand))
include built moving operands

theorem placed_of_firstStart {productions : List Production}
    (known : ∀ production ∈ productions, production ∈ setting.grammar.productions ∧
      (production.precedence = .atom ∨ production.isExtending = false))
    (inside : cursor.LiesIn source)
    (gives : (firstStart setting operand productions cursor).Gives (some parsed)) :
    Placed source cursor parsed := by
  obtain ⟨production, mem, found, matched, finished⟩ := firstStart_gives gives
  obtain ⟨rfl, _⟩ := finish_gives finished
  have checked := Grammar.isChecked_of_mem built (known production mem).1
  have passes := passes_of_matchOpening moving checked (known production mem).2 matched
  obtain ⟨final, reads, rfl⟩ := reads_of_matchPattern matched
  have walked := reads.walked operands checked.nonempty (.begin inside)
  cases start : final.start with
  | none =>
      -- A production that starts an expression cannot match nothing.
      have still := walked.still start
      have shorter := passes.length_lt
      rw [still] at shorter
      exact absurd shorter (Nat.lt_irrefl _)
  | some start =>
      obtain ⟨rfl, skipped⟩ := walked.started _ start
      exact ⟨rfl, skipped, walked.spread.spaced_node (liesIn_skipped inside skipped)⟩

theorem placed_of_firstExtension {floor : Precedence} (inside : cursor.LiesIn source)
    (placed : Placed source cursor parsed)
    (gives : (firstExtension setting operand parsed.1 (setting.grammar.extendingFrom floor)
      parsed.2).Gives (some extended)) : Placed source cursor extended := by
  have further := passes_of_firstExtension built moving gives
  obtain ⟨level, production, found, known, extending, matched, finished⟩ :=
    matched_of_firstExtension built gives
  obtain ⟨rfl, _⟩ := finish_gives finished
  have checked := Grammar.isChecked_of_mem built known
  obtain ⟨constraint, name, rest, shape, _⟩ := checked.starts.extending extending
  have nonempty := checked.nonempty_tail
  obtain ⟨_, matched⟩ := matchExtending_gives matched
  rw [shape, List.tail_cons] at matched nonempty
  obtain ⟨final, reads, rfl⟩ := reads_of_matchPattern matched
  have there := inside.reaches ((Cursor.reaches_skipBlanks cursor).passes placed.passes).reaches
  have walked := reads.walked operands nonempty (.begin there)
  have passes : cursor.skipBlanks.Passes final.cursor := placed.passes.trans_reaches further.reaches
  refine ⟨?_, passes, ?_⟩
  · rw [placed.span]
    rfl
  · have spread := spread_withLeft shape placed walked further
    rw [placed.span]
    exact spread.spaced_node (liesIn_skipped inside passes)

theorem placed_of_atom (inside : cursor.LiesIn source)
    (gives : (atom setting operand cursor).Gives parsed) : Placed source cursor parsed := by
  have there := inside.reaches (Cursor.reaches_skipBlanks cursor)
  have skipped : ∀ {other : Parsed}, Placed source cursor.skipBlanks other →
      Placed source cursor other := by
    rintro other ⟨span, passes, spaced⟩
    rw [Cursor.skipBlanks_skipBlanks] at span passes
    exact ⟨span, passes, spaced⟩
  apply skipped
  cases atom_gives gives with
  | atom started =>
      exact placed_of_firstStart built moving operands
        (fun production mem => (Grammar.mem_of_mem_atoms built mem).imp_right .inl) there started
  | @group opening closing tree next opened within closed =>
      obtain ⟨opens, passed⟩ := Lexeme.starts_of_token? (by decide) opened
      obtain ⟨closes, ended⟩ := Lexeme.starts_of_token? (by decide) closed
      have placed := operands _ _ _
        (there.reaches ((Cursor.reaches_skipBlanks _).passes passed).reaches) within
      have interior := (Cursor.reaches_skipBlanks opening.next).passes placed.passes
      have closes' := (Cursor.reaches_skipBlanks next).passes ended
      have passes := passed.trans_reaches (interior.reaches.trans closes'.reaches)
      rw [opens, closes]
      refine ⟨?_, passes, ?_⟩
      · rw [Tree.span, Tree.extent_widen]
      · refine placed.spaced.widen (liesIn_skipped there passes) ?_
        rw [placed.span]
        exact ⟨(passed.reaches.trans (Cursor.reaches_skipBlanks _)).offset_le,
          closes'.reaches.offset_le⟩
  | constant _ found => exact placed_of_constant? there found
  | opener _ _ started =>
      exact placed_of_firstStart built moving operands
        (fun production mem => (Grammar.mem_of_mem_openers built mem).imp_right .inr) there started
  | reference _ _ _ found => exact placed_of_reference? there found

end Built

/-- Every expression is placed. -/
theorem placed_of_expression {definitions : List Definition}
    (built : Grammar.build definitions = .ok setting.grammar) (depth : Nat) :
    PlacesOperands source (Givable (expression setting depth)) := by
  intro floor cursor parsed inside gives
  refine expression_induction (fun cursor parsed => cursor.LiesIn source →
    Placed source cursor parsed) ?_ ?_ depth _ _ _ gives inside
  · intro depth operands cursor parsed started inside
    exact placed_of_atom built (passes_of_expression built depth)
      (fun _ _ _ inside gives => operands _ _ _ gives inside) inside started
  · intro depth operands floor cursor parsed extended placed extension inside
    exact placed_of_firstExtension built (passes_of_expression built depth)
      (fun _ _ _ inside gives => operands _ _ _ gives inside) inside (placed inside) extension

/-! ## Whole trees -/

/-- The spans of what was read from the start of a text. -/
structure Arranged (source : String) (parsed : Partial) : Prop where
  /-- The tree starts at the first character that is not blank. -/
  first : ∃ blanks c text, source.toList = blanks ++ c :: text ∧
    (∀ blank ∈ blanks, Cursor.isBlank blank = true) ∧ Cursor.isBlank c = false ∧
    parsed.tree.span.start = byteLength blanks
  /-- What is left is the text behind the tree, without leading blanks. -/
  behind : ∃ before after, source.toList = before ++ after ∧
    parsed.tree.span.stop = byteLength before ∧ parsed.rest.rest = after.dropWhile Cursor.isBlank
  /-- Every span lies in the text and encloses those of the operands, which are apart. -/
  spaced : parsed.tree.Spaced source
  /-- The references are the identifiers among the subtrees, each of them once. -/
  references : parsed.tree.identifiers.Perm (parsed.tree.subtrees.filterMap Tree.reference?)
  /-- The references start one behind the other. -/
  ascending : parsed.tree.identifiers.Pairwise fun first second => first.2.start < second.2.start

/-- Behind leading blanks stands a character that is not blank, if any. -/
theorem first_of_passes {source : String} (passes : (Cursor.start source).skipBlanks.Passes next) :
    ∃ blanks c text, source.toList = blanks ++ c :: text ∧
      (∀ blank ∈ blanks, Cursor.isBlank blank = true) ∧ Cursor.isBlank c = false ∧
      (Cursor.start source).skipBlanks.offset = byteLength blanks := by
  have split : source.toList.takeWhile Cursor.isBlank ++ source.toList.dropWhile Cursor.isBlank =
      source.toList := List.takeWhile_append_dropWhile
  have skipped : (Cursor.start source).skipBlanks.offset =
      byteLength (source.toList.takeWhile Cursor.isBlank) := by
    have taken : source.toList.take (source.toList.takeWhile Cursor.isBlank).length =
        source.toList.takeWhile Cursor.isBlank :=
      (List.prefix_iff_eq_take.mp (List.takeWhile_prefix _)).symm
    simp only [Cursor.skipBlanks, Cursor.skipWhile, Cursor.advance, Cursor.start, taken,
      Nat.zero_add]
  have ahead := passes.length_lt
  rw [Cursor.skipBlanks, Cursor.rest_skipWhile] at ahead
  cases behind : source.toList.dropWhile Cursor.isBlank with
  | nil =>
      rw [Cursor.start, behind] at ahead
      exact absurd ahead (Nat.not_lt_zero _)
  | cons c text =>
      rw [behind] at split
      refine ⟨_, c, text, split.symm, ?_, ?_, skipped⟩
      · intro blank mem
        exact List.mem_takeWhile_imp mem
      · have head := List.head?_dropWhile_not Cursor.isBlank source.toList
        rw [behind] at head
        simpa using head

/-- **The spans of a tree.** In every grammar that was built, a tree that is read from the start of a
text starts at the first character that is not blank and ends where the text goes on. Every span in
it lies in the text and encloses the spans of the operands, which are apart from each other, and the
references start one behind the other. -/
theorem spans_of_atStart {definitions : List Definition} {grammar : Grammar}
    (built : Grammar.build definitions = .ok grammar) {schema : Schema} {limit : Nat}
    {source : String} {parsed : Partial}
    (read : atStart ⟨grammar, schema, limit⟩ source = .ok parsed) : Arranged source parsed := by
  unfold atStart at read
  split at read
  · next tree cursor ran =>
      cases read
      have gives : (expression ⟨grammar, schema, limit⟩ limit .loosest (.start source)).Gives
          (tree, cursor) := ⟨.empty, ran⟩
      have begins := Cursor.liesIn_start source
      have placed := placed_of_expression built limit _ _ _ begins gives
      have ends := begins.reaches ((Cursor.reaches_skipBlanks _).passes placed.passes).reaches
      refine ⟨?_, ?_, placed.spaced, ?_, Tree.starts_identifiers placed.spaced⟩
      · rw [congrArg Span.start placed.span]
        exact first_of_passes placed.passes
      · obtain ⟨before, whole, counted⟩ := ends
        rw [congrArg Span.stop placed.span]
        exact ⟨before, cursor.rest, whole, counted, Cursor.rest_skipWhile _ _⟩
      · rw [← Tree.references_eq]
        exact List.mergeSort_perm _ _
  · cases read

theorem spans_of_atStart_pick :
    ∃ grammar, Grammar.build Grammar.sampleDefinitions = .ok grammar ∧
      ∃ schema, Schema.addField [] "price" "number" = .ok schema ∧
        ∃ parsed, atStart ⟨grammar, schema, 8⟩ "  pick price at 3 + (pick price) ) 1" = .ok parsed ∧
          Arranged "  pick price at 3 + (pick price) ) 1" parsed := by
  have accepted : (match Grammar.build Grammar.sampleDefinitions,
        Schema.addField [] "price" "number" with
      | .ok grammar, .ok schema =>
        (atStart ⟨grammar, schema, 8⟩ "  pick price at 3 + (pick price) ) 1").isOk
      | _, _ => false) = true := by
    decide +kernel
  split at accepted
  · next grammar schema built added =>
      cases read : atStart ⟨grammar, schema, 8⟩ "  pick price at 3 + (pick price) ) 1" with
      | error failure =>
          rw [read] at accepted
          cases accepted
      | ok parsed =>
          exact ⟨grammar, built, schema, added, parsed, read, spans_of_atStart built read⟩
  · cases accepted

end Parse

end Mixfix
