import Mixfix.Proofs.Parse.Respacing
import Mixfix.Proofs.Standard.Grouping
import Mixfix.Proofs.Standard.Inlining

/-!
# Other blanks between the tokens of an expression

Between tokens it does not matter which blanks stand, as long as there are some: an expression stays
one when a run of blanks outside of its strings is replaced by another run, and its tree stays the same
but for its places (`whole_respaced_of_whole`). At the start and at the end of a text there can also be
none.

Two parses go through both texts side by side (`Respaceable`). Every leaf ends where the text behind it
cannot make it longer: before a mark, before a blank, or at the end. All but strings end before the gap
or start behind it, because no blank is part of them.
-/

set_option autoImplicit false

namespace Mixfix.Standard

open Parse Lexeme
open Cursor (isBlank)

variable {schema : Schema} {limit depth : Nat} {floor : Precedence} {tree : Tree}
  {cursor cursor' middle next : Cursor} {gap : Gap}

/-! ## Marks -/

section Marks

variable {token : String} {lexeme : Lexeme String} (along : Alongside gap cursor cursor')
include along

theorem sameMarks_alongside : SameMarks cursor' cursor := fun _ registered =>
  along.token?_isSome (fun token known => ⟨isMark_table token known, solid_tokens token known⟩)
    registered

theorem led_alongside (registered : token ∈ table.tokens)
    (led : token? table.tokens token cursor = some lexeme) :
    ∃ lexeme', token? table.tokens token cursor' = some lexeme' ∧
      Alongside gap lexeme.next lexeme'.next ∧
      (lexeme'.next.rest.head? = lexeme.next.rest.head? ∨
        lexeme'.next.rest.head?.all isBlank = true) := by
  obtain ⟨lexeme', led'⟩ := (sameMarks_alongside along).exists_led registered led
  exact ⟨lexeme', led', along.next_of_token? (solid_tokens token registered) led led'⟩

/-- The same operator comes next behind trees of the same shape. -/
theorem extender?_alongside {left left' : Tree} (shape : left'.unplaced = left.unplaced) :
    extender? left' cursor' = extender? left cursor :=
  extender?_congr (Tree.type_eq_of_unplaced shape) (sameMarks_alongside along).sameAhead

theorem stops_alongside {tree tree' : Tree} {floor : Precedence}
    (shape : tree'.unplaced = tree.unplaced) (stops : Stops floor tree cursor) :
    Stops floor tree' cursor' :=
  stops.congr (Tree.type_eq_of_unplaced shape) (sameMarks_alongside along).sameAhead.covered

/-- The mark of an operator before its operand is no literal in the other text either. -/
theorem Opener.noConstant_alongside {op : Opener} (known : op ∈ openers)
    (noConstant : constant? cursor = .ok none)
    (led : token? table.tokens op.token cursor = some lexeme) : constant? cursor' = .ok none := by
  obtain ⟨lexeme', led', _, heads⟩ := led_alongside along (op.token_mem known) led
  refine op.noConstant_moved known noConstant led led' fun _ noDigit => ?_
  rcases heads with same | blank
  · rwa [same]
  · exact head_of_endsPath (endsPath_of_blank blank)
      fun _ digit => .inl (isWordChar_of_isAsciiDigit digit)

end Marks

/-! ## Strings -/

/-- No string of a tree goes on across a gap. -/
def Avoids (gap : Gap) (tree : Tree) : Prop :=
  ∀ content extent, Tree.literal (.string content) extent ∈ tree.subtrees →
    extent.core.stop ≤ gap.start.offset ∨ gap.start.offset ≤ extent.core.start

theorem Avoids.operand (avoids : Avoids gap tree) {name : String} {operand : Tree}
    (known : (name, operand) ∈ tree.operands) : Avoids gap operand :=
  fun content extent mem => avoids content extent (Tree.mem_subtrees.mpr (.inr ⟨_, known, mem⟩))

theorem Avoids.of_widen {span : Span} (avoids : Avoids gap (tree.widen span)) : Avoids gap tree := by
  intro content extent mem
  rcases Tree.mem_subtrees.mp mem with rfl | ⟨operand, known, inside⟩
  · exact avoids content ⟨span, extent.core⟩ (Tree.self_mem_subtrees _)
  · refine avoids content extent (Tree.mem_subtrees.mpr (.inr ⟨operand, ?_, inside⟩))
    rwa [Tree.operands_widen]

/-! ## Reading both texts -/

/-- What is written is also written with other blanks in a gap, as a tree of the same shape. -/
def Respaceable (schema : Schema) (limit : Nat) (gap : Gap) (depth : Nat) (floor : Precedence)
    (tree : Tree) (cursor next : Cursor) : Prop :=
  endsPath next.rest = true → Avoids gap tree → ∀ cursor', Alongside gap cursor cursor' →
    ∃ tree' next', Alongside gap next next' ∧
      Written schema limit depth floor tree' cursor' next' ∧ tree'.unplaced = tree.unplaced

namespace Respaceable

theorem constant {lexeme : Lexeme Value} (shut : token? table.tokens openParen cursor = none)
    (found : constant? cursor = .ok (some lexeme)) :
    Respaceable schema limit gap (depth + 1) floor (literalTree lexeme).1 cursor lexeme.next := by
  intro ends avoids cursor' along
  have apart : ∀ content, lexeme.content = .string content →
      lexeme.span.stop ≤ gap.start.offset ∨ gap.start.offset ≤ lexeme.span.start := by
    intro content same
    refine avoids content ⟨lexeme.span, lexeme.span⟩ ?_
    rw [← same]
    exact Tree.self_mem_subtrees _
  obtain ⟨lexeme', found', content, behind⟩ := along.constant? found ends apart
  have shut' := (sameMarks_alongside along).missing paren_mem.1 shut
  refine ⟨_, _, behind, .constant shut' found', ?_⟩
  simp only [literalTree, Tree.unplaced, content]

theorem field (shut : token? table.tokens openParen cursor = none)
    (noConstant : constant? cursor = .ok none)
    (noOpener : ∀ op ∈ openers, token? table.tokens op.token cursor = none)
    (found : reference? schema cursor = .ok (some (tree, next))) :
    Respaceable schema limit gap (depth + 1) floor tree cursor next := by
  intro ends _ cursor' along
  obtain ⟨path, type, extent, extent', next', rfl, found', noConstant', behind⟩ :=
    along.reference? found noConstant ends
  have same := sameMarks_alongside along
  refine ⟨_, next', behind, .field (same.missing paren_mem.1 shut) noConstant'
    (fun op known => same.missing (op.token_mem known) (noOpener op known)) found', ?_⟩
  simp only [Tree.unplaced]

theorem group {opening closing : Lexeme String}
    (opened : token? table.tokens openParen cursor = some opening)
    (inside : Respaceable schema limit gap depth .loosest tree opening.next next)
    (ends : Stops .loosest tree next)
    (closed : token? table.tokens closeParen next = some closing) :
    Respaceable schema limit gap (depth + 1) floor
      (tree.widen ⟨opening.span.start, closing.span.stop⟩) cursor closing.next := by
  intro _ avoids cursor' along
  obtain ⟨opening', opened', start, _⟩ := led_alongside along paren_mem.1 opened
  obtain ⟨tree', next', behind, within, shape⟩ :=
    inside (endsPath_of_led paren_mem.2 closed) avoids.of_widen _ start
  obtain ⟨closing', closed', last, _⟩ := led_alongside behind paren_mem.2 closed
  refine ⟨_, _, last, .group opened' within (stops_alongside behind shape ends) closed', ?_⟩
  rw [Tree.unplaced_widen, Tree.unplaced_widen, shape]

theorem opener {op : Opener} {lexeme : Lexeme String} {operand : Tree} (known : op ∈ openers)
    (shut : token? table.tokens openParen cursor = none)
    (noConstant : constant? cursor = .ok none)
    (led : token? table.tokens op.token cursor = some lexeme)
    (inside : Respaceable schema limit gap depth openerFloor operand lexeme.next next)
    (ends : Stops openerFloor operand next)
    (accepted : ∀ type ∈ op.demand.type?, type.accepts operand.type = true)
    (shallow : (op.node operand lexeme.span.start next).depth ≤ limit) :
    Respaceable schema limit gap (depth + 1) floor (op.node operand lexeme.span.start next) cursor
      next := by
  intro clear avoids cursor' along
  obtain ⟨lexeme', led', start, _⟩ := led_alongside along (op.token_mem known) led
  obtain ⟨operand', next', behind, within, shape⟩ :=
    inside clear (avoids.operand List.mem_cons_self) _ start
  have node : (op.node operand' lexeme'.span.start next').unplaced =
      (op.node operand lexeme.span.start next).unplaced := op.unplaced_node shape
  exact ⟨_, next', behind, .opener known ((sameMarks_alongside along).missing paren_mem.1 shut)
    (Opener.noConstant_alongside along known noConstant led) led' within
    (stops_alongside behind shape ends) (by rwa [Tree.type_eq_of_unplaced shape])
    (by rwa [Tree.depth_eq_of_unplaced node]), node⟩

theorem between {left right : Tree} {op : Infix} {lexeme : Lexeme String} (known : op ∈ infixes)
    (tight : floor.atMost (.level op.level) = true)
    (before : Respaceable schema limit gap (depth + 1) floor left cursor middle)
    (chosen : extender? left middle = some op.candidate)
    (led : token? table.tokens op.token middle = some lexeme)
    (inside : Respaceable schema limit gap depth op.rightFloor right lexeme.next next)
    (ends : Stops op.rightFloor right next)
    (accepted : ∀ type ∈ op.demand.type?, type.accepts right.type = true)
    (shallow : (op.node left right next).depth ≤ limit) :
    Respaceable schema limit gap (depth + 1) floor (op.node left right next) cursor next := by
  intro clear avoids cursor' along
  obtain ⟨left', middle', there, first, leftShape⟩ := before
    (endsPath_of_led (op.token_mem known) led) (avoids.operand List.mem_cons_self) cursor' along
  obtain ⟨lexeme', led', start, _⟩ := led_alongside there (op.token_mem known) led
  obtain ⟨right', next', behind, second, rightShape⟩ := inside clear
    (avoids.operand (List.mem_cons_of_mem _ List.mem_cons_self)) _ start
  have node : (op.node left' right' next').unplaced = (op.node left right next).unplaced :=
    op.unplaced_node leftShape rightShape
  rw [← extender?_alongside there leftShape] at chosen
  exact ⟨_, next', behind, .between known tight first chosen led' second
    (stops_alongside behind rightShape ends) (by rwa [Tree.type_eq_of_unplaced rightShape])
    (by rwa [Tree.depth_eq_of_unplaced node]), node⟩

theorem chosen {behind : Cursor} {condition positive negative : Tree} {mark colon : Lexeme String}
    (tight : floor.atMost choiceFloor = true)
    (before : Respaceable schema limit gap (depth + 1) floor condition cursor middle)
    (extended : extender? condition middle = some (1, choice))
    (led : token? table.tokens "?" middle = some mark)
    (inside : Respaceable schema limit gap depth .loosest positive mark.next behind)
    (ends : Stops .loosest positive behind)
    (divided : token? table.tokens ":" behind = some colon)
    (last : Respaceable schema limit gap depth choiceFloor negative colon.next next)
    (lastEnds : Stops choiceFloor negative next)
    (shallow : (choiceNode condition positive negative next).depth ≤ limit) :
    Respaceable schema limit gap (depth + 1) floor (choiceNode condition positive negative next)
      cursor next := by
  intro clear avoids cursor' along
  obtain ⟨condition', middle', there, first, conditionShape⟩ := before
    (endsPath_of_led choice_mem.1 led) (avoids.operand List.mem_cons_self) cursor' along
  obtain ⟨mark', led', start, _⟩ := led_alongside there choice_mem.1 led
  obtain ⟨positive', behind', further, second, positiveShape⟩ := inside
    (endsPath_of_led choice_mem.2 divided)
    (avoids.operand (List.mem_cons_of_mem _ (List.mem_cons_of_mem _ List.mem_cons_self))) _ start
  obtain ⟨colon', divided', lastStart, _⟩ := led_alongside further choice_mem.2 divided
  obtain ⟨negative', next', final, third, negativeShape⟩ := last clear
    (avoids.operand (List.mem_cons_of_mem _ List.mem_cons_self)) _ lastStart
  have node : (choiceNode condition' positive' negative' next').unplaced =
      (choiceNode condition positive negative next).unplaced :=
    unplaced_choiceNode conditionShape positiveShape negativeShape
  rw [← extender?_alongside there conditionShape] at extended
  exact ⟨_, next', final, .chosen tight first extended led' second
    (stops_alongside further positiveShape ends) divided' third
    (stops_alongside final negativeShape lastEnds)
    (by rwa [Tree.depth_eq_of_unplaced node]), node⟩

end Respaceable

/-- What is written is also written with other blanks in a gap. -/
theorem Written.respaceable (gap : Gap)
    (written : Written schema limit depth floor tree cursor next) :
    Respaceable schema limit gap depth floor tree cursor next := by
  induction written with
  | constant shut found => exact .constant shut found
  | field shut noConstant noOpener found => exact .field shut noConstant noOpener found
  | group opened _ ends closed inside => exact .group opened inside ends closed
  | opener known shut noConstant led _ ends accepted shallow inside =>
      exact .opener known shut noConstant led inside ends accepted shallow
  | between known tight _ chosen led _ ends accepted shallow before inside =>
      exact .between known tight before chosen led inside ends accepted shallow
  | chosen tight _ extended led _ ends divided _ lastEnds shallow before inside last =>
      exact .chosen tight before extended led inside ends divided last lastEnds shallow

/-! ## Whole texts -/

/-- A run of blanks in a text that goes on to neither side, and another run. Only at the start and at
the end of the text one of the runs can be empty. -/
structure Respacing where
  before : List Char
  run : List Char
  other : List Char
  after : List Char
  blank : ∀ c ∈ run, isBlank c = true
  otherBlank : ∀ c ∈ other, isBlank c = true
  solidBefore : before.getLast?.all (fun c => !isBlank c) = true
  solidAfter : after.head?.all (fun c => !isBlank c) = true
  apart : before ≠ [] → after ≠ [] → run ≠ [] ∧ other ≠ []

namespace Respacing

variable (respacing : Respacing)

/-- The text with the run. -/
def text : String := String.ofList (respacing.before ++ (respacing.run ++ respacing.after))

/-- The text with the other run in place of it. -/
def respaced : String := String.ofList (respacing.before ++ (respacing.other ++ respacing.after))

/-- Where the run stands in the text. -/
def span : Span :=
  ⟨byteLength respacing.before, byteLength respacing.before + byteLength respacing.run⟩

/-- Both texts are the same but for a gap where the run starts. -/
theorem exists_gap : ∃ gap : Gap, gap.start.offset = respacing.span.start ∧
    Alongside gap (.start respacing.text) (.start respacing.respaced) := by
  obtain ⟨before, run, other, after, blank, otherBlank, solid, _, apart⟩ := respacing
  have same : (other ++ after).dropWhile isBlank = (run ++ after).dropWhile isBlank := by
    rw [List.dropWhile_append_of_pos otherBlank, List.dropWhile_append_of_pos blank]
  by_cases atStart : before = []
  · subst atStart
    refine ⟨⟨⟨0, []⟩, [], rfl, rfl, rfl⟩, rfl, .behind ?_⟩
    simp only [rest_skipBlanks, Cursor.start, text, respaced, String.toList_ofList, List.nil_append,
      same]
  · have headed (blanks : List Char) (blank : ∀ c ∈ blanks, isBlank c = true)
        (present : after ≠ [] → blanks ≠ []) : (blanks ++ after).head?.all isBlank = true := by
      cases blanks with
      | nil =>
          obtain rfl : after = [] := by
            by_contra something
            exact present something rfl
          rfl
      | cons c blanks => exact blank c List.mem_cons_self
    have solidBefore : endsSolid before = true := by
      obtain ⟨last, same⟩ := Option.isSome_iff_exists.mp (List.getLast?_isSome.mpr atStart)
      rw [same] at solid
      rw [endsSolid, same]
      exact solid
    exact ⟨⟨⟨byteLength before, run ++ after⟩, other ++ after,
        headed run blank fun something => (apart atStart something).1,
        headed other otherBlank fun something => (apart atStart something).2, same⟩, rfl,
      .before solidBefore ⟨String.toList_ofList, (Nat.zero_add _).symm⟩ String.toList_ofList⟩

end Respacing

/-- **Blanks between tokens.** An expression of the standard language stays one when a run of blanks
outside of its strings is replaced by another one, with the same tree but for its places. -/
theorem whole_respaced_of_whole {grammar : Grammar} (built : Standard.grammar = .ok grammar)
    (respacing : Respacing) (ok : whole ⟨grammar, schema, limit⟩ respacing.text = .ok tree)
    (outside : ∀ content extent, Tree.literal (.string content) extent ∈ tree.subtrees →
      extent.core.stop ≤ respacing.span.start ∨ respacing.span.stop ≤ extent.core.start) :
    ∃ same : Tree, whole ⟨grammar, schema, limit⟩ respacing.respaced = .ok same ∧
      same.unplaced = tree.unplaced := by
  obtain rfl : table = grammar := Except.ok.inj (grammar_eq.symm.trans built)
  obtain ⟨next, written, stops, atEnd⟩ := whole_ok_iff.mp ok
  obtain ⟨gap, place, along⟩ := respacing.exists_gap
  have avoids : Avoids gap tree := by
    intro content extent mem
    have clear := outside content extent mem
    have ordered : respacing.span.start ≤ respacing.span.stop := Nat.le_add_right _ _
    omega
  have clear : endsPath next.rest = true := endsPath_of_skipBlanks (by rw [atEnd]; rfl)
  obtain ⟨tree', next', behind, written', shape⟩ :=
    written.respaceable gap clear avoids _ along
  have atEnd' := behind.atEnd atEnd
  have stops' := stops.congr (Tree.type_eq_of_unplaced shape) (covered_of_atEnd atEnd')
  exact ⟨tree', whole_ok_iff.mpr ⟨next', written', stops', atEnd'⟩, shape⟩

/-- A text of two strings, with blanks before the second one and other blanks in place of them. -/
def spacedGreeting : Respacing where
  before := "'to be' +".toList
  run := "  ".toList
  other := "\n\t ".toList
  after := "note + '  '".toList
  blank := List.all_eq_true.mp (by decide)
  otherBlank := List.all_eq_true.mp (by decide)
  solidBefore := by decide
  solidAfter := by decide
  apart := by decide

/-- Whether a tree is not a string that a span reaches into. -/
def clearOf (span : Span) : Tree → Bool
  | .literal (.string _) extent =>
    decide (extent.core.stop ≤ span.start ∨ span.stop ≤ extent.core.start)
  | _ => true

theorem whole_respaced_greeting : ∃ tree same,
    whole ⟨table, [("note", .type .string)], 8⟩ "'to be' +  note + '  '" = .ok tree ∧
      whole ⟨table, [("note", .type .string)], 8⟩ "'to be' +\n\t note + '  '" = .ok same ∧
      same.unplaced = tree.unplaced := by
  have accepted : ((whole ⟨table, [("note", .type .string)], 8⟩
      "'to be' +  note + '  '").toOption.any fun tree =>
        tree.subtrees.all (clearOf spacedGreeting.span)) = true := by
    decide +kernel
  obtain ⟨tree, ok, clear⟩ := exists_ok_of_any accepted
  obtain ⟨same, ok', shape⟩ := whole_respaced_of_whole grammar_eq spacedGreeting ok
    fun content extent mem => of_decide_eq_true (List.all_eq_true.mp clear _ mem)
  exact ⟨tree, same, ok, ok', shape⟩

end Mixfix.Standard
