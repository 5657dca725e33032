import Mixfix.Proofs.Parse.Clipping
import Mixfix.Proofs.Standard.Enclosure
import Mixfix.Proofs.Standard.Notes
import Mixfix.Proofs.Text.Slices

/-!
# Expressions cut out of a text

What is written within a piece of a text is written in the piece alone (`Written.clip`). The cursors
in between are places in the piece, and each of them, but for the last, stands before a lexeme of
the expression, so the same operators stand ahead in the piece. At the last one none may stand in
the piece that does not stand in the text; at the end of the piece none does.

**Own texts.** A subtree of what the standard parser gives is read with a floor, deeper in the
nesting, and before the text of its parents. Its own text is read without a floor, from the outside,
and up to its end. It is read as the same tree (`whole_slice_of_atStart`).
-/

set_option autoImplicit false

namespace Mixfix.Standard

open Parse Lexeme

variable {schema : Schema} {limit depth : Nat} {floor : Precedence} {tree : Tree}
  {lead : Nat} {tail : List Char} {cursor other next : Cursor}

/-! ## What is written -/

theorem covered_of_atEnd (atEnd : cursor.skipBlanks.rest = []) : Covered cursor other := by
  intro c mem stands
  rw [calm_of_atEnd atEnd 0 c mem (Nat.zero_le _)] at stands
  cases stands

theorem Infix.embedded_node (op : Infix) (left right : Tree) (next : Cursor) :
    op.node (left.shifted lead) (right.shifted lead) (next.embedded lead tail) =
      (op.node left right next).shifted lead :=
  (op.shifted_node (.leading lead) left right next).symm

theorem Opener.embedded_node (op : Opener) (operand : Tree) (start : Nat) (next : Cursor) :
    op.node (operand.shifted lead) (lead + start) (next.embedded lead tail) =
      (op.node operand start next).shifted lead :=
  (op.shifted_node (.leading lead) operand start next).symm

theorem embedded_choiceNode (condition positive negative : Tree) (next : Cursor) :
    choiceNode (condition.shifted lead) (positive.shifted lead) (negative.shifted lead)
        (next.embedded lead tail) =
      (choiceNode condition positive negative next).shifted lead :=
  (shifted_choiceNode (.leading lead) condition positive negative next).symm

/-- A registered text behind which something ends within a piece is found in the piece. -/
theorem token?_led_clip {token : String} (registered : token ∈ table.tokens)
    {lexeme : Lexeme String}
    (found : token? table.tokens token (cursor.embedded lead tail) = some lexeme)
    (further : lexeme.next.Reaches (next.embedded lead tail)) :
    ∃ clipped, token? table.tokens token cursor = some clipped ∧
      lexeme = clipped.embedded lead tail := by
  exact token?_clip isMark_table registered found
    (Nat.le_trans next.length_le_rest_embedded further.length_le)

/-- A place between two places in a piece is a place in the piece. -/
theorem exists_embedded_between {middle : Cursor}
    (reaches : (cursor.embedded lead tail).Reaches middle)
    (further : middle.Reaches (next.embedded lead tail)) :
    ∃ clipped : Cursor, middle = clipped.embedded lead tail := by
  obtain ⟨clipped, same, _⟩ := Cursor.exists_embedded reaches
    (Nat.le_trans next.length_le_rest_embedded further.length_le)
  exact ⟨clipped, same⟩

theorem shut_clip (shut : token? table.tokens openParen (cursor.embedded lead tail) = none)
    (something : cursor.skipBlanks.rest ≠ []) : token? table.tokens openParen cursor = none := by
  rw [token?_openParen_eq_none_iff] at shut ⊢
  rwa [Cursor.skipBlanks_embedded_of_ne_nil something, Cursor.rest_embedded, List.head?_append,
    List.head?_eq_some_head something, Option.some_or, ← List.head?_eq_some_head something] at shut

/-- Where an operator before its operand stands there is no parenthesis. -/
theorem Opener.shut {op : Opener} (known : op ∈ openers) {lexeme : Lexeme String}
    (led : token? table.tokens op.token cursor = some lexeme) :
    token? table.tokens openParen cursor = none := by
  cases opened : token? table.tokens openParen cursor with
  | none => rfl
  | some opening =>
      have same := token?_unique (op.token_mem known) paren_mem.1 (Option.isSome_of_eq_some led)
        (Option.isSome_of_eq_some opened)
      exact absurd same (op.token_ne_paren known).1

/-- A literal does not come into being at an operator before its operand. -/
theorem Opener.noConstant_clip {op : Opener} (known : op ∈ openers) {lexeme : Lexeme String}
    (led : token? table.tokens op.token cursor = some lexeme)
    (noConstant : constant? (cursor.embedded lead tail) = .ok none) :
    constant? cursor = .ok none := by
  have mark : ∀ op ∈ openers, op.token.toList.head?.all (fun c => !isWordChar c) = true := by
    decide
  have something := (starts_of_standard (op.token_mem known) led).2.rest_ne_nil
  refine constant?_none_clip something ?_ noConstant
  -- no word is ahead that could be cut
  obtain ⟨behind, ahead⟩ := prefix_of_standsAt (standsAt_of_token? led)
  have apart := mark op known
  rw [Cursor.skipBlanks_embedded_of_ne_nil something, Cursor.rest_embedded, ← ahead]
  cases text : op.token.toList with
  | nil => exact absurd (String.toList_eq_nil_iff.mp text) (isMark_table _ (op.token_mem known)).1
  | cons c rest =>
      rw [text, List.head?_cons, Option.all_some, Bool.not_eq_true'] at apart
      rw [List.cons_append, List.cons_append, List.dropWhile_cons_of_neg (by rw [apart]; decide),
        ← List.cons_append, List.length_append]
      exact Nat.le_add_left _ _

/-- Where a reference stands no registered text does. -/
theorem token?_eq_none_of_reference? {token : String} (registered : token ∈ table.tokens)
    (found : reference? schema cursor = .ok (some (tree, next))) :
    token? table.tokens token cursor = none := by
  obtain ⟨path, _, _, words, nonempty, _, ⟨behind, ahead⟩, _⟩ := reference?_ok found
  obtain ⟨name, segments, rfl⟩ := List.exists_cons_of_ne_nil nonempty
  obtain ⟨c, rest, same, letter, _⟩ := isWord_iff.mp (words name List.mem_cons_self)
  have begins : cursor.skipBlanks.rest = c :: (rest ++ dotted segments ++ behind) := by
    rw [← ahead, pathText, same]
    rfl
  exact token?_eq_none_of_isAlphabetic registered begins letter

/-- Where something starts and ends within a piece of a text, it is written in the piece, up to a
place where no operator stands that does not stand in the text. -/
def Clippable (schema : Schema) (limit lead : Nat) (tail : List Char) (depth : Nat)
    (floor : Precedence) (tree : Tree) (cursor next : Cursor) : Prop :=
  ∀ start stop : Cursor, cursor = start.embedded lead tail → next = stop.embedded lead tail →
    Covered stop next → ∃ clipped : Tree, tree = clipped.shifted lead ∧
      Written schema limit depth floor clipped start stop

namespace Clippable

variable {middle behind : Cursor}

theorem constant {lexeme : Lexeme Value} (shut : token? table.tokens openParen cursor = none)
    (found : constant? cursor = .ok (some lexeme)) :
    Clippable schema limit lead tail (depth + 1) floor (literalTree lexeme).1 cursor
      lexeme.next := by
  rintro start stop rfl ends covered
  have inside : tail.length ≤ lexeme.next.rest.length := ends ▸ stop.length_le_rest_embedded
  obtain ⟨clipped, own, rfl⟩ := constant?_clip found inside
  obtain rfl := Cursor.embedded_injective ends
  refine ⟨(literalTree clipped).1, ?_, .constant ?_ own⟩
  · simp only [literalTree, Lexeme.embedded, Tree.shifted, Extent.shifted]
  · exact shut_clip shut (starts_of_constant? own).2.rest_ne_nil

theorem field (noConstant : constant? cursor = .ok none)
    (found : reference? schema cursor = .ok (some (tree, next))) :
    Clippable schema limit lead tail (depth + 1) floor tree cursor next := by
  rintro start stop rfl rfl covered
  obtain ⟨clipped, behind, own, rfl, ends, word⟩ :=
    reference?_clip found stop.length_le_rest_embedded
  obtain rfl := Cursor.embedded_injective ends
  have something := (passes_of_reference? own).rest_ne_nil
  exact ⟨clipped, rfl, .field (token?_eq_none_of_reference? paren_mem.1 own)
    (constant?_none_clip something word noConstant)
    (fun op known => token?_eq_none_of_reference? (op.token_mem known) own) own⟩

theorem group {opening closing : Lexeme String}
    (opened : token? table.tokens openParen cursor = some opening)
    (inside : Written schema limit depth .loosest tree opening.next next)
    (ends : Stops .loosest tree next)
    (closed : token? table.tokens closeParen next = some closing)
    (within : Clippable schema limit lead tail depth .loosest tree opening.next next) :
    Clippable schema limit lead tail (depth + 1) floor
      (tree.widen ⟨opening.span.start, closing.span.stop⟩) cursor closing.next := by
  rintro start stop rfl last covered
  have behind := last ▸ reaches_led paren_mem.2 closed
  obtain ⟨opening, own, rfl⟩ := token?_led_clip paren_mem.1 opened (inside.reaches.trans behind)
  obtain ⟨middle, rfl⟩ := exists_embedded_between inside.reaches behind
  obtain ⟨closing, ownClosing, rfl⟩ :=
    token?_clip isMark_table paren_mem.2 closed (last ▸ stop.length_le_rest_embedded)
  obtain rfl := Cursor.embedded_injective last
  have coveredBehind := (sameAhead_of_token paren_mem.2 ownClosing closed).covered
  obtain ⟨clipped, rfl, alone⟩ := within _ _ rfl rfl coveredBehind
  exact ⟨clipped.widen ⟨opening.span.start, closing.span.stop⟩,
    (clipped.shifted_widen lead ⟨opening.span.start, closing.span.stop⟩).symm, .group own alone
      (ends.congr (clipped.type_shifted lead).symm coveredBehind) ownClosing⟩

theorem opener {operand : Tree} {op : Opener} {lexeme : Lexeme String} (known : op ∈ openers)
    (noConstant : constant? cursor = .ok none)
    (led : token? table.tokens op.token cursor = some lexeme)
    (inside : Written schema limit depth openerFloor operand lexeme.next next)
    (ends : Stops openerFloor operand next)
    (accepted : ∀ type ∈ op.demand.type?, type.accepts operand.type = true)
    (shallow : (op.node operand lexeme.span.start next).depth ≤ limit)
    (within : Clippable schema limit lead tail depth openerFloor operand lexeme.next next) :
    Clippable schema limit lead tail (depth + 1) floor (op.node operand lexeme.span.start next)
      cursor next := by
  rintro start stop rfl rfl covered
  obtain ⟨clipped, own, rfl⟩ := token?_led_clip (op.token_mem known) led inside.reaches
  obtain ⟨operand, rfl, alone⟩ := within _ _ rfl rfl covered
  have node : op.node (operand.shifted lead) (clipped.embedded lead tail).span.start
      (stop.embedded lead tail) = (op.node operand clipped.span.start stop).shifted lead :=
    op.embedded_node operand clipped.span.start stop
  rw [node] at shallow ⊢
  rw [Tree.depth_shifted] at shallow
  exact ⟨_, rfl, .opener known (op.shut known own) (op.noConstant_clip known own noConstant) own
    alone (ends.congr (operand.type_shifted lead).symm covered)
    (by simpa only [Tree.type_shifted] using accepted) shallow⟩

theorem between {left right : Tree} {op : Infix} {lexeme : Lexeme String} (known : op ∈ infixes)
    (tight : floor.atMost (.level op.level) = true)
    (before : Written schema limit (depth + 1) floor left cursor middle)
    (chosen : extender? left middle = some op.candidate)
    (led : token? table.tokens op.token middle = some lexeme)
    (inside : Written schema limit depth op.rightFloor right lexeme.next next)
    (ends : Stops op.rightFloor right next)
    (accepted : ∀ type ∈ op.demand.type?, type.accepts right.type = true)
    (shallow : (op.node left right next).depth ≤ limit)
    (first : Clippable schema limit lead tail (depth + 1) floor left cursor middle)
    (second : Clippable schema limit lead tail depth op.rightFloor right lexeme.next next) :
    Clippable schema limit lead tail (depth + 1) floor (op.node left right next) cursor next := by
  rintro start stop rfl rfl covered
  obtain ⟨middle, rfl⟩ := exists_embedded_between before.reaches
    ((reaches_led (op.token_mem known) led).trans inside.reaches)
  obtain ⟨clipped, own, rfl⟩ := token?_led_clip (op.token_mem known) led inside.reaches
  have same := sameAhead_of_token (op.token_mem known) own led
  obtain ⟨left, rfl, leftAlone⟩ := first _ _ rfl rfl same.covered
  obtain ⟨right, rfl, rightAlone⟩ := second _ _ rfl rfl covered
  rw [op.embedded_node] at shallow ⊢
  rw [Tree.depth_shifted] at shallow
  rw [← extender?_congr (left.type_shifted lead).symm same] at chosen
  exact ⟨_, rfl, .between known tight leftAlone chosen own rightAlone
    (ends.congr (right.type_shifted lead).symm covered)
    (by simpa only [Tree.type_shifted] using accepted) shallow⟩

theorem chosen {condition positive negative : Tree} {mark colon : Lexeme String}
    (tight : floor.atMost choiceFloor = true)
    (before : Written schema limit (depth + 1) floor condition cursor middle)
    (extended : extender? condition middle = some (1, choice))
    (led : token? table.tokens "?" middle = some mark)
    (inside : Written schema limit depth .loosest positive mark.next behind)
    (ends : Stops .loosest positive behind)
    (divided : token? table.tokens ":" behind = some colon)
    (last : Written schema limit depth choiceFloor negative colon.next next)
    (lastEnds : Stops choiceFloor negative next)
    (shallow : (choiceNode condition positive negative next).depth ≤ limit)
    (first : Clippable schema limit lead tail (depth + 1) floor condition cursor middle)
    (second : Clippable schema limit lead tail depth .loosest positive mark.next behind)
    (third : Clippable schema limit lead tail depth choiceFloor negative colon.next next) :
    Clippable schema limit lead tail (depth + 1) floor (choiceNode condition positive negative next)
      cursor next := by
  rintro start stop rfl rfl covered
  have behindColon := (reaches_led choice_mem.2 divided).trans last.reaches
  have behindMark := inside.reaches.trans behindColon
  obtain ⟨middle, rfl⟩ := exists_embedded_between before.reaches
    ((reaches_led choice_mem.1 led).trans behindMark)
  obtain ⟨mark, ownMark, rfl⟩ := token?_led_clip choice_mem.1 led behindMark
  obtain ⟨behind, rfl⟩ := exists_embedded_between inside.reaches behindColon
  obtain ⟨colon, ownColon, rfl⟩ := token?_led_clip choice_mem.2 divided last.reaches
  have same := sameAhead_of_token choice_mem.1 ownMark led
  have coveredBehind := (sameAhead_of_token choice_mem.2 ownColon divided).covered
  obtain ⟨condition, rfl, conditionAlone⟩ := first _ _ rfl rfl same.covered
  obtain ⟨positive, rfl, positiveAlone⟩ := second _ _ rfl rfl coveredBehind
  obtain ⟨negative, rfl, negativeAlone⟩ := third _ _ rfl rfl covered
  rw [embedded_choiceNode] at shallow ⊢
  rw [Tree.depth_shifted] at shallow
  rw [← extender?_congr (condition.type_shifted lead).symm same] at extended
  exact ⟨_, rfl, .chosen tight conditionAlone extended ownMark positiveAlone
    (ends.congr (positive.type_shifted lead).symm coveredBehind) ownColon negativeAlone
    (lastEnds.congr (negative.type_shifted lead).symm covered) shallow⟩

end Clippable

/-- What is written within a piece of a text is written in the piece. -/
theorem Written.clip (written : Written schema limit depth floor tree cursor next) :
    Clippable schema limit lead tail depth floor tree cursor next := by
  induction written with
  | constant shut found => exact .constant shut found
  | field _ noConstant _ found => exact .field noConstant found
  | group opened inside ends closed within => exact .group opened inside ends closed within
  | opener known _ noConstant led inside ends accepted shallow within =>
      exact .opener known noConstant led inside ends accepted shallow within
  | between known tight before chosen led inside ends accepted shallow first second =>
      exact .between known tight before chosen led inside ends accepted shallow first second
  | chosen tight before extended led inside ends divided last lastEnds shallow first second third =>
      exact .chosen tight before extended led inside ends divided last lastEnds shallow first second
        third

/-! ## Own texts -/

/-- What is written is written with more depth. -/
theorem Written.deeper (written : Written schema limit depth floor tree cursor next) {deeper : Nat}
    (le : depth ≤ deeper) : Written schema limit deeper floor tree cursor next := by
  obtain ⟨extra, rfl⟩ := Nat.exists_eq_add_of_le le
  have same (place : Cursor) : place.enclosed (.leading 0) = place := by
    simp only [Cursor.enclosed, Enclosure.leading, Nat.zero_add, List.append_nil]
  have further := written.enclosed (.leading 0) (Nat.le_refl limit) extra
  rwa [same, same, Enclosure.leading, Tree.shifted_zero] at further

/-- What is written from the first character on is written in its own text, up to the end. -/
theorem Written.own {text : List Char} (written : Written schema limit depth floor tree cursor next)
    (spells : cursor.Spells text next) :
    ∃ alone : Tree, tree = alone.shifted cursor.offset ∧
      Written schema limit depth floor alone ⟨0, text⟩ ⟨byteLength text, []⟩ := by
  have first : cursor = (⟨0, text⟩ : Cursor).embedded cursor.offset next.rest := by
    simp only [Cursor.embedded, ← spells.1, Nat.add_zero]
  have last : next = (⟨byteLength text, []⟩ : Cursor).embedded cursor.offset next.rest := by
    simp only [Cursor.embedded, ← spells.2, List.nil_append]
  exact written.clip _ _ first last (covered_of_atEnd rfl)

/-- **Own texts.** Throughout a tree that the parser of the standard language gives for some text,
the text of a subtree is an expression by itself, and its tree is the subtree, placed from the start
of its own text on. -/
theorem whole_slice_of_atStart {grammar : Grammar} (built : Standard.grammar = .ok grammar)
    {source : String} {parsed : Partial}
    (ok : atStart ⟨grammar, schema, limit⟩ source = .ok parsed) :
    ∀ inner ∈ parsed.tree.subtrees, ∃ alone : Tree,
      whole ⟨grammar, schema, limit⟩ (String.ofList (slice source inner.span)) = .ok alone ∧
        inner = alone.shifted inner.span.start := by
  obtain rfl : table = grammar := Except.ok.inj (grammar_eq.symm.trans built)
  obtain ⟨next, written, _⟩ := atStart_ok_iff.mp ok
  intro inner mem
  obtain ⟨depth, shallow, floor, start, stop, reaches, inside⟩ :=
    written.within_of_subtree inner mem
  have spanned := inside.stands.2
  have lies := (Cursor.liesIn_start source).reaches (reaches.trans start.reaches_skipBlanks)
  obtain ⟨text, spells⟩ := inside.skipBlanks.reaches.spells
  obtain ⟨alone, same, own⟩ := inside.skipBlanks.own spells
  refine ⟨alone, whole_ok_iff.mpr ⟨⟨byteLength text, []⟩, ?_, ?_, rfl⟩, by rw [spanned]; exact same⟩
  · rw [spanned, slice_of_spells lies spells, Cursor.start, String.toList_ofList]
    exact (own.deeper shallow).loosest
  · exact fun c known _ _ => calm_of_atEnd rfl 0 c known (Nat.zero_le _)

theorem whole_slice_productOfSum : ∃ parsed,
    atStart ⟨table, [], 8⟩ "(1 + 2) * 3 ?? -(4) ** 2" = .ok parsed ∧
      ∀ inner ∈ parsed.tree.subtrees, ∃ alone : Tree,
        whole ⟨table, [], 8⟩
            (String.ofList (slice "(1 + 2) * 3 ?? -(4) ** 2" inner.span)) = .ok alone ∧
          inner = alone.shifted inner.span.start := by
  have accepted : (atStart ⟨table, [], 8⟩ "(1 + 2) * 3 ?? -(4) ** 2").isOk = true := by
    decide +kernel
  cases ok : atStart ⟨table, [], 8⟩ "(1 + 2) * 3 ?? -(4) ** 2" with
  | error failure =>
      rw [ok] at accepted
      cases accepted
  | ok parsed => exact ⟨parsed, rfl, whole_slice_of_atStart grammar_eq ok⟩

end Mixfix.Standard
