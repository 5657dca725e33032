import Mathlib.Order.Monotone.Basic
import Mixfix.Proofs.Parse.Advance
import Mixfix.Proofs.Parse.Metered

/-!
# A bound for the steps of a parse

The steps of a parse are bounded by the size of the grammar and the length of the text alone
(`terminates_of_build`); in particular the limit of the parse has no part in the bound. The interpreter that
counts steps never runs out of them, nor does it ever meet an expression that does not start behind
the one that it is inside of, or an extension that takes nothing.

The argument is on the start of an expression. Every expression inside of it starts behind its start,
because a pattern moves on before it comes to its first operand: it starts with an exact text or a
literal, or the expression is its left operand and stands before the rest. So if expressions that
start behind a place are afforded by some count of steps, then a production is afforded by a multiple
of its size (`affords_matchPattern`), an atom by a multiple of the size of the grammar
(`affords_atom`), and the extensions by as many turns as there are characters ahead
(`affords_extend`). The induction is on the depth, and the count of steps on the characters ahead.
-/

set_option autoImplicit false

namespace Mixfix

/-! ## Sizes and bounds -/

/-- The count of elements of a production, and one for the production itself. -/
def Production.size (production : Production) : Nat :=
  (elementsWithin production.elements).length + 1

/-- The size of productions together. -/
def totalSize : List Production → Nat
  | [] => 0
  | production :: productions => production.size + totalSize productions

theorem totalSize_append (first second : List Production) :
    totalSize (first ++ second) = totalSize first + totalSize second := by
  induction first with
  | nil => exact (Nat.zero_add _).symm
  | cons production first ih => rw [List.cons_append, totalSize, totalSize, ih, Nat.add_assoc]

/-- The size of all productions of a grammar, and one for parentheses. -/
def Grammar.size (grammar : Grammar) : Nat :=
  totalSize grammar.atoms + totalSize grammar.openers +
    totalSize (grammar.levels.flatMap (·.extending)) + 1

namespace Parse

/-- The steps for an expression with some characters ahead, where the expressions inside of it take
some steps each: one, an atom, and a turn for every character. -/
def stepRound (size length inner : Nat) : Nat :=
  1 + size * (inner + 1) + length * (size * (inner + 1) + 1)

/-- A count of steps for an expression with some characters ahead, in a grammar of some size. -/
def stepBound (size : Nat) : Nat → Nat
  | 0 => stepRound size 0 0
  | length + 1 => stepRound size (length + 1) (stepBound size length)

theorem stepBound_le_succ (size length : Nat) : stepBound size length ≤ stepBound size (length + 1) := by
  have grows (size : Nat) {length length' inner inner' : Nat} (longer : length ≤ length')
      (more : inner ≤ inner') : stepRound size length inner ≤ stepRound size length' inner' := by
    have each : size * (inner + 1) ≤ size * (inner' + 1) :=
      Nat.mul_le_mul_left size (Nat.succ_le_succ more)
    have all := Nat.mul_le_mul longer (Nat.add_le_add_right each 1)
    unfold stepRound
    omega
  induction length with
  | zero => exact grows size (Nat.zero_le _) (Nat.zero_le _)
  | succ length ih => exact grows size (Nat.le_succ _) ih

theorem stepBound_mono (size : Nat) : Monotone (stepBound size) :=
  monotone_nat_of_le_succ (stepBound_le_succ size)

/-! ## Patterns -/

section Patterns

variable {setting : Setting} {metered : MeteredOperand} {operand : Operand} {start : Cursor}
  {inner : Nat} {node : String} {precedence : Precedence}

/-- Expressions that start behind a place are afforded by a count of steps. -/
def AffordsBehind (metered : MeteredOperand) (operand : Operand) (start : Cursor) (inner : Nat) :
    Prop :=
  ∀ floor cursor, start.Passes cursor →
    AffordsStep (metered floor cursor) (operand floor cursor) inner

/-- Elements are matched behind a place, or at it if they start with an exact text or a literal. -/
def Ready (start cursor : Cursor) (elements : List (Element Descriptor)) : Prop :=
  start.Passes cursor ∨
    start.Reaches cursor ∧ ∃ element rest, elements = element :: rest ∧ element.shape = .fixed

/-- Behind an element that was matched one stands behind the start. -/
theorem passes_of_matched (moving : MovingOperand operand) {element : Element Descriptor}
    {rest : List (Element Descriptor)} {progress middle : Progress}
    (nonempty : ∀ token ∈ elementTokens element, token ≠ "")
    (ready : Ready start progress.cursor (element :: rest))
    (ends : Ends (matchElement setting operand node precedence element progress)
      (.matched middle)) : start.Passes middle.cursor := by
  have reads := matchElement_reads element ends (.done middle)
  have moves := reads.moves moving (by simpa [patternTokens] using nonempty)
  rcases ready with behind | ⟨reaches, first, _, same, fixed⟩
  · exact behind.trans_reaches moves.1
  · cases same
    exact reaches.passes (moves.2 ⟨_, List.mem_cons_self, by simp [fixed]⟩)

theorem affords_matchOperand (affords : AffordsBehind metered operand start inner)
    {floor : Precedence} {constraint : Option Descriptor} {name : Option String}
    {progress : Progress} (behind : start.Passes progress.cursor) :
    Affords (Metered.matchOperand metered node floor constraint name progress)
      (matchOperand operand node floor constraint name progress) inner :=
  Affords.bind (affords floor progress.cursor behind) fun _ _ => .free _

mutual
theorem affords_matchElement (moving : MovingOperand operand)
    (affords : AffordsBehind metered operand start inner) :
    (element : Element Descriptor) → {progress : Progress} →
    (∀ token ∈ elementTokens element, token ≠ "") →
    (start.Passes progress.cursor ∨ element.shape = .fixed) →
    Affords (Metered.matchElement setting metered node precedence element progress)
      (matchElement setting operand node precedence element progress)
      ((elementParts element).length * (inner + 1))
  | .text token, progress, _, _ => by
      have one : 0 + 1 ≤ (elementParts (.text token)).length * (inner + 1) := by
        simp [elementParts]
      rw [Metered.matchElement, matchElement]
      refine (Affords.spend ?_).mono one
      cases Lexeme.token? setting.grammar.tokens token progress.cursor with
      | none => exact .of_pure _
      | some lexeme => exact .of_pure _
  | .literal kind name, progress, _, _ => by
      have one : 0 + 1 ≤ (elementParts (.literal kind name)).length * (inner + 1) := by
        simp [elementParts]
      rw [Metered.matchElement, matchElement]
      exact (Affords.spend (.free _)).mono one
  | .operand role constraint name, progress, _, ready => by
      have one : inner + 1 ≤ (elementParts (.operand role constraint name)).length * (inner + 1) := by
        simp [elementParts]
      have behind : start.Passes progress.cursor := ready.resolve_right nofun
      rw [Metered.matchElement, matchElement]
      exact (Affords.spend (affords_matchOperand affords behind)).mono one
  | .optional group, progress, nonempty, ready => by
      have whole : (elementsWithin group).length * (inner + 1) + 1 ≤
          (elementParts (.optional group)).length * (inner + 1) := by
        rw [elementParts, List.length_cons, Nat.add_mul]
        omega
      have behind : start.Passes (Progress.begin progress.cursor).cursor := ready.resolve_right nofun
      rw [Metered.matchElement, matchElement]
      refine (Affords.spend (Affords.bind_free
        (affords_matchElements moving affords group nonempty (.inl behind)) fun outcome _ => ?_)).mono whole
      cases outcome with
      | matched inner => exact .of_pure _
      | unmatched => exact .of_pure _
      | failed failure committed =>
          dsimp only
          split
          · exact .of_pure _
          · exact Affords.bind_free (.free _) fun _ _ => .of_pure _
theorem affords_matchElements (moving : MovingOperand operand)
    (affords : AffordsBehind metered operand start inner) :
    (elements : List (Element Descriptor)) → {progress : Progress} →
    (∀ token ∈ patternTokens elements, token ≠ "") → Ready start progress.cursor elements →
    Affords (Metered.matchElements setting metered node precedence elements progress)
      (matchElements setting operand node precedence elements progress)
      ((elementsWithin elements).length * (inner + 1))
  | [], progress, _, _ => by
      rw [Metered.matchElements, matchElements]
      exact (Affords.of_pure _).mono (Nat.zero_le _)
  | element :: elements, progress, nonempty, ready => by
      have first := fun token mem => nonempty token (List.mem_append_left _ mem)
      have later := fun token mem => nonempty token (List.mem_append_right _ mem)
      have begins : start.Passes progress.cursor ∨ element.shape = .fixed := by
        rcases ready with behind | ⟨_, _, _, same, fixed⟩
        · exact .inl behind
        · cases same
          exact .inr fixed
      rw [Metered.matchElements, matchElements, elementsWithin, List.length_append, Nat.add_mul]
      refine Affords.bind (affords_matchElement moving affords element first begins) fun outcome ends => ?_
      cases outcome with
      | matched middle =>
          exact affords_matchElements moving affords elements later
            (.inl (passes_of_matched moving first ready ends))
      | unmatched =>
          refine Affords.mono ?_ (Nat.zero_le _)
          dsimp only
          split
          · exact .free _
          · exact .of_pure _
      | failed failure committed => exact (Affords.of_pure _).mono (Nat.zero_le _)
end

/-- A pattern is afforded by the steps for an expression inside of it and one more, as often as it
has elements, and once more. -/
theorem affords_matchPattern (moving : MovingOperand operand)
    (affords : AffordsBehind metered operand start inner) {production : Production}
    {elements : List (Element Descriptor)} {cursor : Cursor}
    (nonempty : ∀ token ∈ patternTokens elements, token ≠ "")
    (ready : Ready start cursor elements) :
    AffordsStep (Metered.matchPattern setting metered production precedence elements cursor)
      (matchPattern setting operand production precedence elements cursor)
      (((elementsWithin elements).length + 1) * (inner + 1)) := by
  have whole : (elementsWithin elements).length * (inner + 1) + 1 ≤
      ((elementsWithin elements).length + 1) * (inner + 1) := by
    rw [Nat.add_mul]
    omega
  have begins : Ready start (Progress.begin cursor).cursor elements := ready
  refine (AffordsStep.spend (AffordsStep.bind_free
    (.lift (affords_matchElements moving affords elements nonempty begins))
    fun outcome _ => ?_)).mono whole
  cases outcome with
  | matched progress => exact .of_pure _
  | unmatched => exact .of_pure _
  | failed failure committed =>
      dsimp only
      split
      · exact .free _
      · exact AffordsStep.bind_free (.free _) fun _ _ => .of_pure _

theorem affords_matchExtending (moving : MovingOperand operand)
    (affords : AffordsBehind metered operand start inner) {production : Production} {left : Tree}
    {cursor : Cursor} (checked : production.IsChecked) (behind : start.Passes cursor) :
    AffordsStep (Metered.matchExtending setting metered production precedence left cursor)
      (matchExtending setting operand production precedence left cursor)
      (production.size * (inner + 1)) := by
  have fewer : (elementsWithin production.elements.tail).length + 1 ≤ production.size := by
    rw [Production.size]
    cases production.elements with
    | nil => exact Nat.le_refl _
    | cons element rest =>
        rw [List.tail_cons, elementsWithin, List.length_append]
        omega
  have pattern : AffordsStep
      (Metered.matchPattern setting metered production precedence production.elements.tail cursor)
      (matchPattern setting operand production precedence production.elements.tail cursor)
      (production.size * (inner + 1)) :=
    (affords_matchPattern moving affords checked.nonempty_tail (.inl behind)).mono
      (Nat.mul_le_mul_right (inner + 1) fewer)
  unfold Metered.matchExtending matchExtending
  cases leftConstraint production with
  | none => exact pattern
  | some type =>
      by_cases accepts : type.accepts left.type = true
      · simp only [accepts, if_true]
        exact pattern
      · simp only [accepts]
        refine (AffordsStep.spend (AffordsStep.bind_free (.free _) fun _ _ => .of_pure _)).mono ?_
        exact Nat.mul_pos (Nat.succ_pos _) (Nat.succ_pos _)

theorem affords_parenthesized (affords : AffordsBehind metered operand start inner)
    {opening : Lexeme String} (behind : start.Passes opening.next) :
    AffordsStep (Metered.parenthesized setting metered opening)
      (parenthesized setting operand opening) inner := by
  refine AffordsStep.bind_free (affords _ _ behind) fun parsed _ => ?_
  obtain ⟨tree, next⟩ := parsed
  dsimp only
  cases Lexeme.token? setting.grammar.tokens closeParen next with
  | none => exact .free _
  | some closing => exact .of_pure _

end Patterns

/-! ## Productions -/

section Built

variable {definitions : List Definition} {setting : Setting} {metered : MeteredOperand}
  {operand : Operand} {start cursor : Cursor} {inner : Nat}
  (built : Grammar.build definitions = .ok setting.grammar) (moving : MovingOperand operand)
  (affords : AffordsBehind metered operand start inner)
include built moving affords

/-- Productions that start an expression are afforded by the steps for an expression inside of it and
one more, as often as their size. -/
theorem affords_firstStart (reaches : start.Reaches cursor) {productions : List Production}
    (known : ∀ production ∈ productions, production ∈ setting.grammar.productions ∧
      (production.precedence = .atom ∨ production.isExtending = false)) :
    AffordsStep (Metered.firstStart setting metered productions cursor)
      (firstStart setting operand productions cursor)
      (totalSize productions * (inner + 1)) := by
  induction productions with
  | nil => exact (AffordsStep.of_pure _).mono (Nat.zero_le _)
  | cons production productions ih =>
      obtain ⟨inside, opening⟩ := known production List.mem_cons_self
      have checked := Grammar.isChecked_of_mem built inside
      have ready : Ready start cursor production.elements :=
        .inr ⟨reaches, checked.starts.opening opening⟩
      rw [Metered.firstStart, firstStart, totalSize, Nat.add_mul]
      refine AffordsStep.bind (affords_matchPattern moving affords checked.nonempty ready)
        fun found _ => ?_
      cases found with
      | none => exact ih fun other mem => known other (List.mem_cons_of_mem _ mem)
      | some found =>
          exact (AffordsStep.bind_free (.free _) fun _ _ => .of_pure _).mono (Nat.zero_le _)

/-- Productions that extend an expression are afforded likewise, behind the start. -/
theorem affords_firstExtension {left : Tree} {candidates : List (UInt32 × Production)}
    (behind : start.Passes cursor)
    (known : ∀ candidate ∈ candidates, candidate.2 ∈ setting.grammar.productions) :
    AffordsStep (Metered.firstExtension setting metered left candidates cursor)
      (firstExtension setting operand left candidates cursor)
      (totalSize (candidates.map Prod.snd) * (inner + 1)) := by
  induction candidates with
  | nil => exact (AffordsStep.of_pure _).mono (Nat.zero_le _)
  | cons candidate candidates ih =>
      obtain ⟨level, production⟩ := candidate
      have checked := Grammar.isChecked_of_mem built (known _ List.mem_cons_self)
      rw [Metered.firstExtension, firstExtension, List.map_cons, totalSize, Nat.add_mul]
      refine AffordsStep.bind (affords_matchExtending moving affords checked behind) fun found _ => ?_
      cases found with
      | none => exact ih fun other mem => known other (List.mem_cons_of_mem _ mem)
      | some found =>
          exact (AffordsStep.bind_free (.free _) fun _ _ => .of_pure _).mono (Nat.zero_le _)

/-! ## Atoms -/

theorem affords_openerOrReference (reaches : start.Reaches cursor) :
    AffordsStep (Metered.openerOrReference setting metered cursor)
      (openerOrReference setting operand cursor)
      (totalSize setting.grammar.openers * (inner + 1)) := by
  have known : ∀ production ∈ setting.grammar.openers, production ∈ setting.grammar.productions ∧
      (production.precedence = .atom ∨ production.isExtending = false) :=
    fun production mem => (Grammar.mem_of_mem_openers built mem).imp_right .inr
  refine AffordsStep.bind_free (affords_firstStart built moving affords reaches known)
    fun outcome _ => ?_
  cases outcome with
  | some parsed => exact .of_pure _
  | none =>
      dsimp only
      rcases reference? setting.schema cursor with failure | _ | parsed
      · exact .free _
      · exact .free _
      · exact .of_pure _

theorem affords_literalOrLater (reaches : start.Reaches cursor) :
    AffordsStep (Metered.literalOrLater setting metered cursor)
      (literalOrLater setting operand cursor)
      (totalSize setting.grammar.openers * (inner + 1)) := by
  unfold Metered.literalOrLater literalOrLater
  cases Lexeme.number? cursor with
  | some lexeme => exact (AffordsStep.of_pure _).mono (Nat.zero_le _)
  | none =>
      rcases stringValue? cursor with failure | _ | lexeme
      · exact (AffordsStep.free _).mono (Nat.zero_le _)
      · cases keywordValue? cursor with
        | some lexeme => exact (AffordsStep.of_pure _).mono (Nat.zero_le _)
        | none => exact affords_openerOrReference built moving affords reaches
      · exact (AffordsStep.of_pure _).mono (Nat.zero_le _)

/-- An atom is afforded by the steps for an expression inside of it and one more, as often as the
size of the productions that start an expression, and once more for parentheses. -/
theorem affords_atom :
    AffordsStep (Metered.atom setting metered start) (atom setting operand start)
      ((totalSize setting.grammar.atoms + (totalSize setting.grammar.openers + 1)) * (inner + 1)) := by
  have reaches := Cursor.reaches_skipBlanks start
  have known : ∀ production ∈ setting.grammar.atoms, production ∈ setting.grammar.productions ∧
      (production.precedence = .atom ∨ production.isExtending = false) :=
    fun production mem => (Grammar.mem_of_mem_atoms built mem).imp_right .inl
  rw [Nat.add_mul]
  refine AffordsStep.bind (affords_firstStart built moving affords reaches known)
    fun outcome _ => ?_
  cases outcome with
  | some parsed => exact (AffordsStep.of_pure _).mono (Nat.zero_le _)
  | none =>
      dsimp only
      cases opened : Lexeme.token? setting.grammar.tokens openParen start.skipBlanks with
      | some opening =>
          have opens := Lexeme.starts_of_token? (by decide) opened
          rw [Cursor.skipBlanks_skipBlanks] at opens
          refine (affords_parenthesized affords (reaches.passes opens.2)).mono ?_
          rw [Nat.add_mul]
          omega
      | none =>
          refine (affords_literalOrLater built moving affords reaches).mono ?_
          exact Nat.mul_le_mul_right _ (Nat.le_succ _)

end Built

/-! ## Extensions -/

/-- The candidates from a precedence up are not larger than all productions that extend an
expression. -/
theorem totalSize_extendingFrom_le (grammar : Grammar) (floor : Precedence) :
    totalSize ((grammar.extendingFrom floor).map Prod.snd) ≤
      totalSize (grammar.levels.flatMap (·.extending)) := by
  rw [Grammar.extendingFrom]
  induction grammar.levels with
  | nil => exact Nat.le_refl _
  | cons level levels ih =>
      rw [List.flatMap_cons, totalSize_append, List.filter_cons]
      split
      · rw [List.flatMap_cons, List.map_append, totalSize_append, List.map_map]
        exact Nat.add_le_add (by simp [Function.comp_def]) ih
      · exact Nat.le_add_left_of_le ih

section Built

variable {definitions : List Definition} {setting : Setting} {metered : MeteredOperand}
  {operand : Operand} {start : Cursor} {inner : Nat}
  (built : Grammar.build definitions = .ok setting.grammar) (moving : MovingOperand operand)
  (affords : AffordsBehind metered operand start inner)
include built moving affords

/-- Extensions are afforded by a turn for every character ahead and one more, where a turn takes one
step and those for the candidates. -/
theorem affords_extend {floor : Precedence} {steps : Nat} :
    ∀ {parsed : Parsed} {turns : Nat}, start.Passes parsed.2 → parsed.2.rest.length < steps →
      parsed.2.rest.length < turns →
      AffordsStep
        (Metered.extend setting metered (setting.grammar.extendingFrom floor) turns parsed)
        (extend setting operand (setting.grammar.extendingFrom floor) steps parsed)
        ((parsed.2.rest.length + 1) *
          (totalSize ((setting.grammar.extendingFrom floor).map Prod.snd) * (inner + 1) + 1)) := by
  have known : ∀ candidate ∈ setting.grammar.extendingFrom floor,
      candidate.2 ∈ setting.grammar.productions :=
    fun candidate mem => (Grammar.mem_of_mem_extendingFrom built mem).1
  induction steps with
  | zero => exact fun _ enough => absurd enough (Nat.not_lt_zero _)
  | succ steps ih =>
      rintro ⟨left, cursor⟩ turns behind enough enoughTurns
      cases turns with
      | zero => exact absurd enoughTurns (Nat.not_lt_zero _)
      | succ turns =>
          dsimp only at behind enough enoughTurns ⊢
          have turn : AffordsStep
              (Metered.firstExtension setting metered left (setting.grammar.extendingFrom floor) cursor)
              (firstExtension setting operand left (setting.grammar.extendingFrom floor) cursor) _ :=
            affords_firstExtension built moving affords behind known
          generalize totalSize ((setting.grammar.extendingFrom floor).map Prod.snd) * (inner + 1) =
            candidates at turn ih ⊢
          have whole : candidates + cursor.rest.length * (candidates + 1) + 1 ≤
              (cursor.rest.length + 1) * (candidates + 1) := by
            rw [Nat.add_mul (cursor.rest.length) 1]
            omega
          refine (AffordsStep.spend (AffordsStep.bind turn fun outcome gives => ?_)).mono whole
          cases outcome with
          | none => exact (AffordsStep.of_pure _).mono (Nat.zero_le _)
          | some extended =>
              have passes : cursor.Passes extended.2 := passes_of_firstExtension built moving gives
              have shorter := passes.length_lt
              refine AffordsStep.insist (decide_eq_true passes.offset_lt) ((ih ?_ ?_ ?_).mono ?_)
              · exact behind.trans_reaches passes.reaches
              · omega
              · omega
              · exact Nat.mul_le_mul_right _ shorter

/-- An expression is afforded by the steps for its atom and a turn for every character ahead. -/
theorem affords_climb {floor : Precedence} :
    AffordsStep (Metered.climb setting metered floor start) (climb setting operand floor start)
      (setting.grammar.size * (inner + 1) +
        start.rest.length * (setting.grammar.size * (inner + 1) + 1)) := by
  have atomSize : totalSize setting.grammar.atoms + (totalSize setting.grammar.openers + 1) ≤
      setting.grammar.size := by
    rw [Grammar.size]
    omega
  have turnSize : totalSize ((setting.grammar.extendingFrom floor).map Prod.snd) ≤
      setting.grammar.size := by
    have fewer := totalSize_extendingFrom_le setting.grammar floor
    rw [Grammar.size]
    omega
  refine AffordsStep.bind ((affords_atom built moving affords).mono
    (Nat.mul_le_mul_right _ atomSize)) fun parsed gives => ?_
  have behind : start.Passes parsed.2 := passes_of_atom built moving gives
  refine (AffordsStep.left fun turns enough => affords_extend built moving affords behind
    (Nat.lt_succ_self _) ?_).mono ?_
  · exact Nat.lt_of_lt_of_le (Nat.lt_of_lt_of_le (Nat.lt_succ_self _)
      (Nat.le_mul_of_pos_right _ (Nat.succ_pos _))) enough
  · exact Nat.mul_le_mul behind.length_lt
      (Nat.add_le_add_right (Nat.mul_le_mul_right _ turnSize) 1)

end Built

/-! ## Expressions -/

/-- If expressions of some depth are afforded, then those inside of an expression are, by the steps
that the bound for this expression counts on. -/
theorem exists_affordsBehind {setting : Setting} {depth : Nat} {size : Nat} (start : Cursor)
    (affords : ∀ floor cursor, AffordsStep (Metered.expression setting depth floor cursor)
      (expression setting depth floor cursor) (stepBound size cursor.rest.length)) :
    ∃ inner, stepBound size start.rest.length = stepRound size start.rest.length inner ∧
      AffordsBehind (Metered.inside start (Metered.expression setting depth))
        (expression setting depth) start inner := by
  cases ahead : start.rest.length with
  | zero =>
      refine ⟨0, rfl, fun floor cursor passes => ?_⟩
      have fewer := passes.length_lt
      omega
  | succ length =>
      refine ⟨stepBound size length, rfl, fun floor cursor passes => ?_⟩
      have fewer := passes.length_lt
      exact AffordsStep.insist (decide_eq_true passes.offset_lt)
        ((affords floor cursor).mono (stepBound_mono size (by omega)))

/-- An expression is afforded by steps that only depend on the grammar and on the characters
ahead. -/
theorem affords_expression {definitions : List Definition} {setting : Setting}
    (built : Grammar.build definitions = .ok setting.grammar) (depth : Nat) (floor : Precedence)
    (start : Cursor) :
    AffordsStep (Metered.expression setting depth floor start) (expression setting depth floor start)
      (stepBound setting.grammar.size start.rest.length) := by
  induction depth generalizing floor start with
  | zero =>
      refine (AffordsStep.spend (.free _)).mono ?_
      cases start.rest.length <;> simp only [stepBound, stepRound] <;> omega
  | succ depth ih =>
      obtain ⟨inner, bound, affords⟩ := exists_affordsBehind start ih
      have moving := passes_of_expression built depth
      refine (AffordsStep.spend (affords_climb built moving affords)).mono (Nat.le_of_eq ?_)
      rw [bound, stepRound]
      omega

theorem run_eq {definitions : List Definition} {setting : Setting}
    (built : Grammar.build definitions = .ok setting.grammar) {source : String} {steps : Nat}
    (enough : stepBound setting.grammar.size source.length ≤ steps) :
    Metered.run setting source steps = some (run setting source) := by
  have affords : AffordsStep (Metered.expression setting setting.limit .loosest (.start source))
      (expression setting setting.limit .loosest (.start source))
      (stepBound setting.grammar.size source.length) := affords_expression built _ _ _
  obtain ⟨left, _, ran⟩ := affords .empty (steps - stepBound setting.grammar.size source.length)
  rw [Nat.add_sub_of_le enough] at ran
  rw [Metered.run, ran]
  rfl

/-- In a setting, a parse of any text moves on and comes to an end. -/
structure Terminates (setting : Setting) : Prop where
  /-- An expression takes some of the text. -/
  expression : ∀ depth floor cursor parsed, (expression setting depth floor cursor).Gives parsed →
    cursor.offset < parsed.2.offset
  /-- A production that starts an expression takes some of the text. -/
  opening : ∀ production ∈ setting.grammar.productions, production.isExtending = false →
    ∀ depth precedence cursor found,
      (matchPattern setting (Parse.expression setting depth) production precedence
        production.elements cursor).Gives (some found) → cursor.offset < found.next.offset
  /-- A production that extends an expression takes some of the text behind it. -/
  extending : ∀ production ∈ setting.grammar.productions, production.isExtending = true →
    ∀ depth precedence left cursor found,
      (matchExtending setting (Parse.expression setting depth) production precedence left
        cursor).Gives (some found) → cursor.offset < found.next.offset
  /-- A turn in which an expression is extended takes some of the text. -/
  turn : ∀ depth floor left cursor extended,
    (firstExtension setting (Parse.expression setting depth) left
      (setting.grammar.extendingFrom floor) cursor).Gives (some extended) →
    cursor.offset < extended.2.offset
  /-- With as many steps as the size of the grammar and the length of the text give, the interpreter
  that counts them comes to the results of the parser. It would stop where an expression inside of
  another one did not start behind the start of that. -/
  bounded : ∀ source steps, stepBound setting.grammar.size source.length ≤ steps →
    Metered.atStart setting source steps = some (atStart setting source) ∧
      Metered.whole setting source steps = some (whole setting source)

/-- Whatever definitions a grammar was built from, parsing moves on and comes to an end. -/
theorem terminates_of_build {definitions : List Definition} {setting : Setting}
    (built : Grammar.build definitions = .ok setting.grammar) : Terminates setting := by
  have moving (depth : Nat) : MovingOperand (expression setting depth) :=
    passes_of_expression built depth
  refine ⟨?_, ?_, ?_, ?_, ?_⟩
  · intro depth floor cursor parsed gives
    exact (moving depth floor cursor parsed gives).offset_lt
  · intro production mem opening depth precedence cursor found gives
    have checked := Grammar.isChecked_of_mem built mem
    exact (passes_of_matchOpening (moving depth) checked (.inr opening) gives).offset_lt
  · intro production mem extending depth precedence left cursor found gives
    have checked := Grammar.isChecked_of_mem built mem
    exact (passes_of_matchExtending (moving depth) checked extending gives).offset_lt
  · intro depth floor left cursor extended gives
    exact (passes_of_firstExtension built (moving depth) gives).offset_lt
  · intro source steps enough
    have ran := run_eq built enough
    constructor
    · rw [Metered.atStart, ran, atStart]
      dsimp only [Option.bind_eq_bind, Option.bind_some]
      cases (run setting source).1 <;> rfl
    · rw [Metered.whole, ran, whole]
      dsimp only [Option.bind_eq_bind, Option.bind_some]
      rcases run setting source with ⟨failure | ⟨tree, cursor⟩, trail⟩
      · rfl
      · dsimp only
        split <;> rfl

theorem terminates_of_build_sample :
    ∃ grammar, Grammar.build Grammar.sampleDefinitions = .ok grammar ∧
      ∀ schema limit, Terminates ⟨grammar, schema, limit⟩ := by
  have accepted : (Grammar.build Grammar.sampleDefinitions).isOk = true := by decide +kernel
  cases built : Grammar.build Grammar.sampleDefinitions with
  | error failure =>
      rw [built] at accepted
      cases accepted
  | ok grammar => exact ⟨grammar, rfl, fun schema limit => terminates_of_build built⟩

end Parse

end Mixfix
