import Mixfix.Proofs.Grammar.TokenLed
import Mixfix.Proofs.Parse.Candidates
import Mixfix.Proofs.Parse.References
import Mixfix.Proofs.Parse.Selection
import Mixfix.Proofs.Standard.Table

/-!
# No failure is swallowed

A parser gives up a pattern or a group only if it did not commit to it. Where all of them start with
an exact text, it commits as soon as anything was matched at all, so what it gives up took nothing
of the text but blanks (`matchElements_of_text`), and a failure met on the way is never given up:
each step of the parse fails if a failure was met in it, and only then (`Heeds`).

Failures that leave the parse going are notes: that the expression before a node is not of the type
that the node asks for is kept in mind before the node has begun (`Failure.isNote`).

Altogether a parse in a grammar of token-led definitions fails exactly if it met a failure that is
not a note (`swallows_nothing_of_build`).
-/

set_option autoImplicit false

namespace Mixfix

/-- Whether a failure only says that a node was not considered for the expression before it. -/
def Failure.isNote (failure : Failure) : Bool :=
  match failure.cause with
  | .leftOperand _ _ _ => true
  | _ => false

/-- A trail of notes only. -/
def Trail.IsClear (trail : Trail) : Prop := ∀ failure ∈ trail.seen, failure.isNote = true

namespace Trail

variable {trail : Trail} {failure : Failure}

theorem not_isClear_see (met : failure.isNote = false) : ¬ (trail.see failure).IsClear := by
  intro clear
  rw [clear failure List.mem_cons_self] at met
  cases met

theorem isClear_see (note : failure.isNote = true) (clear : trail.IsClear) :
    (trail.see failure).IsClear := by
  intro other mem
  rcases List.mem_cons.mp mem with rfl | before
  · exact note
  · exact clear other before

theorem isClear_record : (trail.record failure).IsClear ↔ trail.IsClear := by
  rw [IsClear, IsClear, seen_record]

end Trail

namespace Parse

variable {α β : Type}

/-! ## Actions that heed failures -/

/-- From a trail of notes, an action ends in a given way exactly if it leaves a trail of notes. -/
def Heeds (Succeeded : α → Prop) (action : StateM Trail α) : Prop :=
  ∀ before, before.IsClear → ((action.run before).2.IsClear ↔ Succeeded (action.run before).1)

namespace Heeds

variable {Succeeded : α → Prop} {Succeeded' : β → Prop}

theorem of_pure {a : α} (succeeded : Succeeded a) : Heeds Succeeded (pure a) :=
  fun _ clear => iff_of_true clear succeeded

/-- Actions that heed failures one after the other, where the second one ends the parse if the first
one met a failure. -/
theorem bind {first : StateM Trail α} {next : α → StateM Trail β} (start : Heeds Succeeded first)
    (goes : ∀ a, Ends first a → Succeeded a → Heeds Succeeded' (next a))
    (stays : ∀ a, Ends first a → ¬ Succeeded a → ∀ before, ¬ before.IsClear →
      ¬ ((next a).run before).2.IsClear ∧ ¬ Succeeded' ((next a).run before).1) :
    Heeds Succeeded' (first >>= next) := by
  intro before clear
  rw [StateT.run_bind]
  have ends : Ends first (first.run before).1 := ⟨before, rfl⟩
  by_cases succeeded : Succeeded (first.run before).1
  · exact goes _ ends succeeded _ ((start before clear).mpr succeeded)
  · have unclear : ¬ (first.run before).2.IsClear := fun after =>
      succeeded ((start before clear).mp after)
    obtain ⟨left, failed⟩ := stays _ ends succeeded _ unclear
    exact iff_of_false left failed

end Heeds

/-- A step did not fail. -/
def Succeeds : Except Failure α → Prop
  | .ok _ => True
  | .error _ => False

/-- Matching did not fail. -/
def Outcome.Succeeds : Outcome → Prop
  | .failed _ _ => False
  | _ => True

/-- A step that fails exactly if it met a failure. -/
abbrev HeedsStep (step : Step α) : Prop := Heeds Succeeds step.run

/-- A way of matching elements that fails exactly if it met a failure. -/
abbrev HeedsMatch (action : StateM Trail Outcome) : Prop := Heeds Outcome.Succeeds action

namespace HeedsStep

theorem of_pure (a : α) : HeedsStep (pure a : Step α) :=
  Heeds.of_pure (a := Except.ok a) trivial

theorem bind {first : Step α} {next : α → Step β} (start : HeedsStep first)
    (rest : ∀ a, HeedsStep (next a)) : HeedsStep (first >>= next) := by
  show Heeds _ (first.run >>= ExceptT.bindCont next)
  refine Heeds.bind start ?_ ?_
  · rintro (failure | a) _ succeeded
    · exact succeeded.elim
    · exact rest a
  · rintro (failure | a) _ failed before unclear
    · exact ⟨unclear, failed⟩
    · exact absurd trivial failed

/-- A step that goes on from how matching ended. -/
theorem bind_match {first : StateM Trail Outcome} {next : Outcome → Step α}
    (start : HeedsMatch first)
    (goes : ∀ outcome, Ends first outcome → outcome.Succeeds → HeedsStep (next outcome))
    (stays : ∀ outcome, Ends first outcome → ¬ outcome.Succeeds → ∀ before, ¬ before.IsClear →
      ¬ ((next outcome).run.run before).2.IsClear ∧ ¬ Succeeds ((next outcome).run.run before).1) :
    HeedsStep (ExceptT.lift first >>= next) := by
  show Heeds _ (first >>= fun outcome => (next outcome).run)
  exact Heeds.bind start goes stays

theorem raise {failure : Failure} (met : failure.isNote = false) :
    HeedsStep (Step.raise failure : Step α) :=
  fun _ _ => iff_of_false (Trail.not_isClear_see met) id

theorem raiseSettled {failure : Failure} (met : failure.isNote = false) :
    HeedsStep (Step.raiseSettled failure : Step α) :=
  fun _ _ => iff_of_false (Trail.not_isClear_see met) id

theorem note {failure : Failure} (note : failure.isNote = true) : HeedsStep (Step.note failure) :=
  fun _ clear => iff_of_true (Trail.isClear_record.mpr (Trail.isClear_see note clear)) trivial

end HeedsStep

/-! ## Leaves -/

section Leaves

variable {schema : Schema} {cursor : Cursor} {failure : Failure}

theorem isNote_of_stringValue? (read : stringValue? cursor = .error failure) :
    failure.isNote = false := by
  unfold stringValue? at read
  split at read <;> cases read
  rfl

theorem isNote_of_reference? (read : reference? schema cursor = .error failure) :
    failure.isNote = false := by
  obtain ⟨name, -, rfl | ⟨stop, segment, path, -, -, rfl⟩⟩ := reference?_error read <;> rfl

theorem isNote_of_capture? {kind : LiteralKind}
    (read : capture? schema kind cursor = .error failure) : failure.isNote = false := by
  rcases capture?_error read with string | reference
  · exact isNote_of_stringValue? string
  · exact isNote_of_reference? reference

end Leaves

/-! ## Elements -/

section Elements

variable {setting : Setting} {operand : Operand} {node : String} {precedence : Precedence}

/-- What matching gives up. -/
def Outcome.isGivenUp : Outcome → Bool
  | .matched _ => false
  | .unmatched => true
  | .failed failure committed => !(failure.isFatal || committed)

/-- Where a text stands that elements start with, matching them commits to them. -/
theorem matchElements_of_text {token : String} {rest : List (Element Descriptor)}
    {cursor : Cursor} {outcome : Outcome}
    (ends : Ends (matchElements setting operand node precedence (.text token :: rest)
      (.begin cursor)) outcome) :
    outcome = .unmatched ∧ Lexeme.token? setting.grammar.tokens token cursor = none ∨
      (∃ progress, outcome = .matched progress) ∨ ∃ failure, outcome = .failed failure true := by
  cases found : Lexeme.token? setting.grammar.tokens token cursor with
  | none =>
      rw [matchElements, matchElement] at ends
      simp only [Progress.begin, found] at ends
      exact .inl ⟨Ends.of_pure ends, rfl⟩
  | some lexeme =>
      rw [matchElements_text found] at ends
      obtain ⟨bound, matched⟩ := matchElements_committed rest rfl ends
      cases outcome with
      | matched progress => exact .inr (.inl ⟨progress, rfl⟩)
      | unmatched => exact absurd rfl matched
      | failed failure committed =>
          cases (bound : committed = true)
          exact .inr (.inr ⟨failure, rfl⟩)

/-- Elements that start with a text are given up only where the text does not stand. -/
theorem token?_eq_none_of_isGivenUp {token : String} {rest : List (Element Descriptor)}
    {cursor : Cursor} {outcome : Outcome}
    (ends : Ends (matchElements setting operand node precedence (.text token :: rest)
      (.begin cursor)) outcome) (given : outcome.isGivenUp = true) :
    Lexeme.token? setting.grammar.tokens token cursor = none := by
  rcases matchElements_of_text ends with ⟨_, missing⟩ | ⟨progress, rfl⟩ | ⟨failure, rfl⟩
  · exact missing
  · cases given
  · rw [Outcome.isGivenUp, Bool.or_true] at given
    cases given

theorem heeds_fails {failure : Failure} (met : failure.isNote = false) (committed : Bool) :
    HeedsMatch (fails failure committed) :=
  fun _ _ => iff_of_false (Trail.not_isClear_see met) id

theorem heeds_matchLiteral (kind : LiteralKind) (name : Option String) (progress : Progress) :
    HeedsMatch (matchLiteral setting kind name progress) := by
  unfold matchLiteral
  split
  · next failed => exact heeds_fails (isNote_of_capture? failed) _
  · exact .of_pure trivial
  · exact .of_pure trivial

/-- Operands heed failures. -/
abbrev HeedOperands (operand : Operand) : Prop :=
  ∀ floor cursor, HeedsStep (operand floor cursor)

theorem heeds_matchOperand (operands : HeedOperands operand) (floor : Precedence)
    (constraint : Option Descriptor) (name : Option String) (progress : Progress) :
    HeedsMatch (matchOperand operand node floor constraint name progress) := by
  refine Heeds.bind (operands floor progress.cursor) ?_ ?_
  · rintro (failure | ⟨tree, next⟩) _ succeeded
    · exact succeeded.elim
    · cases constraint with
      | none => exact .of_pure trivial
      | some type =>
          dsimp only
          split
          · exact .of_pure trivial
          · exact heeds_fails rfl _
  · rintro (failure | ⟨tree, next⟩) _ failed before unclear
    · exact ⟨unclear, failed⟩
    · exact absurd trivial failed

mutual
theorem heeds_matchElement (operands : HeedOperands operand) :
    ∀ (element : Element Descriptor) (progress : Progress), hasLedGroups element = true →
      HeedsMatch (matchElement setting operand node precedence element progress)
  | .text token, progress, _ => by
      rw [matchElement]
      split
      · exact .of_pure trivial
      · exact .of_pure trivial
  | .literal kind name, progress, _ => by
      rw [matchElement]
      exact heeds_matchLiteral kind name progress
  | .operand role constraint name, progress, _ => by
      rw [matchElement]
      exact heeds_matchOperand operands _ constraint name progress
  | .optional group, progress, led => by
      rw [hasLedGroups, Bool.and_eq_true] at led
      obtain ⟨token, rest, rfl⟩ := exists_token led.1
      rw [matchElement]
      refine Heeds.bind (heeds_matchElements operands _ _ led.2) ?_ ?_
      · rintro (inner | _ | ⟨failure, committed⟩) _ succeeded
        · exact .of_pure trivial
        · exact .of_pure trivial
        · exact succeeded.elim
      · rintro (inner | _ | ⟨failure, committed⟩) ends failed before unclear
        · exact absurd trivial failed
        · exact absurd trivial failed
        · -- The group is committed, so its failure is not given up.
          rcases matchElements_of_text ends with ⟨same, _⟩ | ⟨_, same⟩ | ⟨_, same⟩
          · cases same
          · cases same
          · cases same
            simp only [Bool.or_true, if_true]
            exact ⟨unclear, id⟩
theorem heeds_matchElements (operands : HeedOperands operand) :
    ∀ (elements : List (Element Descriptor)) (progress : Progress), haveLedGroups elements = true →
      HeedsMatch (matchElements setting operand node precedence elements progress)
  | [], progress, _ => by
      rw [matchElements]
      exact .of_pure trivial
  | element :: elements, progress, led => by
      rw [haveLedGroups, Bool.and_eq_true] at led
      rw [matchElements]
      refine Heeds.bind (heeds_matchElement operands element progress led.1) ?_ ?_
      · rintro (progress | _ | ⟨failure, committed⟩) _ succeeded
        · exact heeds_matchElements operands elements progress led.2
        · dsimp only
          split
          · exact heeds_fails rfl _
          · exact .of_pure trivial
        · exact succeeded.elim
      · rintro (progress | _ | ⟨failure, committed⟩) _ failed before unclear
        · exact absurd trivial failed
        · exact absurd trivial failed
        · exact ⟨unclear, id⟩
end

end Elements

/-! ## Candidates -/

section Candidates

variable {setting : Setting} {operand : Operand}

theorem heeds_noteLeft (production : Production) (left : Tree) (type : Descriptor)
    (cursor : Cursor) : HeedsStep (noteLeft setting production left type cursor) := by
  unfold noteLeft
  split
  · split
    · exact .note rfl
    · exact .of_pure ()
  · exact .of_pure ()

theorem heeds_finish (production : Production) (bindings : Bindings) (start : Nat)
    (next : Cursor) : HeedsStep (finish setting production bindings start next) := by
  unfold finish
  dsimp only
  split
  · exact .raise rfl
  · exact .of_pure _

variable (operands : HeedOperands operand)
include operands

theorem heeds_matchPattern (production : Production) (precedence : Precedence)
    {elements : List (Element Descriptor)} (starts : startsWithText elements = true)
    (led : haveLedGroups elements = true) (cursor : Cursor) :
    HeedsStep (matchPattern setting operand production precedence elements cursor) := by
  obtain ⟨token, rest, rfl⟩ := exists_token starts
  refine HeedsStep.bind_match (heeds_matchElements operands _ _ led) ?_ ?_
  · rintro (progress | _ | ⟨failure, committed⟩) _ succeeded
    · exact HeedsStep.of_pure _
    · exact HeedsStep.of_pure _
    · exact succeeded.elim
  · rintro (progress | _ | ⟨failure, committed⟩) ends failed before unclear
    · exact absurd trivial failed
    · exact absurd trivial failed
    · rcases matchElements_of_text ends with ⟨same, _⟩ | ⟨_, same⟩ | ⟨_, same⟩
      · cases same
      · cases same
      · cases same
        simp only [Bool.or_true, if_true]
        exact ⟨unclear, id⟩

theorem heeds_firstStart {productions : List Production}
    (led : ∀ production ∈ productions,
      startsWithText production.elements = true ∧ haveLedGroups production.elements = true)
    (cursor : Cursor) : HeedsStep (firstStart setting operand productions cursor) := by
  induction productions with
  | nil => exact .of_pure _
  | cons production productions ih =>
      obtain ⟨starts, groups⟩ := led production List.mem_cons_self
      rw [firstStart]
      refine (heeds_matchPattern operands _ _ starts groups _).bind fun found => ?_
      cases found with
      | none => exact ih fun other mem => led other (List.mem_cons_of_mem _ mem)
      | some found => exact (heeds_finish _ _ _ _).bind fun _ => .of_pure _

theorem heeds_matchExtending {production : Production}
    (starts : startsWithText production.elements.tail = true)
    (led : haveLedGroups production.elements.tail = true) (precedence : Precedence) (left : Tree)
    (cursor : Cursor) :
    HeedsStep (matchExtending setting operand production precedence left cursor) := by
  unfold matchExtending
  split
  · split
    · exact heeds_matchPattern operands _ _ starts led _
    · exact (heeds_noteLeft _ _ _ _).bind fun _ => .of_pure _
  · exact heeds_matchPattern operands _ _ starts led _

theorem heeds_firstExtension {candidates : List (UInt32 × Production)}
    (led : ∀ candidate ∈ candidates, startsWithText candidate.2.elements.tail = true ∧
      haveLedGroups candidate.2.elements.tail = true)
    (left : Tree) (cursor : Cursor) :
    HeedsStep (firstExtension setting operand left candidates cursor) := by
  induction candidates with
  | nil => exact .of_pure _
  | cons candidate candidates ih =>
      obtain ⟨starts, groups⟩ := led candidate List.mem_cons_self
      rw [firstExtension]
      refine (heeds_matchExtending operands starts groups _ _ _).bind fun found => ?_
      cases found with
      | none => exact ih fun other mem => led other (List.mem_cons_of_mem _ mem)
      | some found => exact (heeds_finish _ _ _ _).bind fun _ => .of_pure _

theorem heeds_extend {candidates : List (UInt32 × Production)}
    (led : ∀ candidate ∈ candidates, startsWithText candidate.2.elements.tail = true ∧
      haveLedGroups candidate.2.elements.tail = true)
    (steps : Nat) (parsed : Parsed) :
    HeedsStep (extend setting operand candidates steps parsed) := by
  induction steps generalizing parsed with
  | zero => exact .of_pure _
  | succ steps ih =>
      obtain ⟨left, cursor⟩ := parsed
      rw [extend]
      refine (heeds_firstExtension operands led left cursor).bind fun outcome => ?_
      cases outcome with
      | none => exact .of_pure _
      | some extended => exact ih extended

theorem heeds_parenthesized (opening : Lexeme String) :
    HeedsStep (parenthesized setting operand opening) := by
  refine (operands _ _).bind fun ⟨tree, next⟩ => ?_
  dsimp only
  split
  · exact .of_pure _
  · exact .raiseSettled rfl

end Candidates

/-! ## Expressions -/

section Built

variable {definitions : List Definition} {setting : Setting} {operand : Operand}

section

variable (built : Grammar.build definitions = .ok setting.grammar)
  (led : ∀ definition ∈ definitions, definition.isTokenLed = true)
include built led

/-- A pattern that starts an expression starts with an exact text. -/
theorem led_of_opening {production : Production} (mem : production ∈ setting.grammar.productions)
    (opens : production.precedence = .atom ∨ production.isExtending = false) :
    startsWithText production.elements = true ∧ haveLedGroups production.elements = true := by
  have isLed := isTokenLed_of_build built led production mem
  obtain ⟨element, rest, shape, fixed⟩ := (Grammar.isChecked_of_mem built mem).starts.opening opens
  rw [isTokenLed, shape, Bool.and_eq_true] at isLed
  rw [shape]
  cases element with
  | operand role constraint name => cases fixed
  | _ => exact isLed

/-- A pattern that extends an expression goes on with an exact text behind it. -/
theorem led_of_extending {production : Production} (mem : production ∈ setting.grammar.productions)
    (extends? : production.isExtending = true) :
    startsWithText production.elements.tail = true ∧
      haveLedGroups production.elements.tail = true := by
  have isLed := isTokenLed_of_build built led production mem
  obtain ⟨constraint, name, rest, shape, _⟩ :=
    (Grammar.isChecked_of_mem built mem).starts.extending extends?
  rw [isTokenLed, shape, haveLedGroups, hasLedGroups, Bool.true_and, Bool.and_eq_true] at isLed
  rw [shape]
  exact isLed

variable (operands : HeedOperands operand)
include operands

theorem heeds_openerOrReference (cursor : Cursor) :
    HeedsStep (openerOrReference setting operand cursor) := by
  have openers : ∀ production ∈ setting.grammar.openers,
      startsWithText production.elements = true ∧ haveLedGroups production.elements = true := by
    intro production mem
    obtain ⟨known, opens⟩ := Grammar.mem_of_mem_openers built mem
    exact led_of_opening built led known (.inr opens)
  refine (heeds_firstStart operands openers cursor).bind fun outcome => ?_
  cases outcome with
  | some parsed => exact .of_pure _
  | none =>
      dsimp only
      split
      · exact .of_pure _
      · exact .raiseSettled rfl
      · next failed => exact .raiseSettled (isNote_of_reference? failed)

theorem heeds_literalOrLater (cursor : Cursor) :
    HeedsStep (literalOrLater setting operand cursor) := by
  unfold literalOrLater
  split
  · exact .of_pure _
  · split
    · next failed => exact .raise (isNote_of_stringValue? failed)
    · exact .of_pure _
    · split
      · exact .of_pure _
      · exact heeds_openerOrReference built led operands cursor

theorem heeds_atom (cursor : Cursor) : HeedsStep (atom setting operand cursor) := by
  have atoms : ∀ production ∈ setting.grammar.atoms,
      startsWithText production.elements = true ∧ haveLedGroups production.elements = true := by
    intro production mem
    obtain ⟨known, atomic⟩ := Grammar.mem_of_mem_atoms built mem
    exact led_of_opening built led known (.inl atomic)
  refine (heeds_firstStart operands atoms cursor.skipBlanks).bind fun outcome => ?_
  cases outcome with
  | some parsed => exact .of_pure _
  | none =>
      dsimp only
      split
      · exact heeds_parenthesized operands _
      · exact heeds_literalOrLater built led operands _

end

/-- An expression fails exactly if a failure was met in it. -/
theorem heeds_expression (built : Grammar.build definitions = .ok setting.grammar)
    (led : ∀ definition ∈ definitions, definition.isTokenLed = true) (depth : Nat) :
    HeedOperands (expression setting depth) := by
  induction depth with
  | zero => exact fun floor cursor => .raise rfl
  | succ depth ih =>
      intro floor cursor
      refine (heeds_atom built led ih cursor).bind fun parsed => ?_
      refine heeds_extend ih (fun candidate mem => ?_) _ parsed
      obtain ⟨known, _, extends?⟩ := Grammar.mem_of_mem_extendingFrom built mem
      exact led_of_extending built led known extends?

end Built

/-! ## Whole texts -/

variable {grammar : Grammar} {schema : Schema} {limit : Nat} {source : String}

/-- In a grammar of token-led definitions, an expression is found at the start of a text exactly if
no failure was met but notes; in particular no other one was met in a text that is one expression.
What is given up on the way is an alternative whose first text does not stand ahead. -/
theorem swallows_nothing_of_build {definitions : List Definition}
    (built : Grammar.build definitions = .ok grammar)
    (led : ∀ definition ∈ definitions, definition.isTokenLed = true) (schema : Schema)
    (limit : Nat) (source : String) :
    ((∃ found, atStart ⟨grammar, schema, limit⟩ source = .ok found) ↔
      ∀ failure ∈ (run ⟨grammar, schema, limit⟩ source).2.seen, failure.isNote = true) ∧
    ((∃ tree, whole ⟨grammar, schema, limit⟩ source = .ok tree) →
      ∀ failure ∈ (run ⟨grammar, schema, limit⟩ source).2.seen, failure.isNote = true) ∧
    ∀ production ∈ grammar.productions, ∀ alternative ∈ production.alternatives,
      ∀ (operand : Operand) (node : String) (precedence : Precedence) (cursor : Cursor)
        (outcome : Outcome),
        Ends (matchElements ⟨grammar, schema, limit⟩ operand node precedence alternative
          (.begin cursor)) outcome → outcome.isGivenUp = true →
        ∃ token rest, alternative = .text token :: rest ∧
          Lexeme.token? grammar.tokens token cursor = none := by
  have operands : HeedOperands (expression ⟨grammar, schema, limit⟩ limit) :=
    heeds_expression built led limit
  have heeds : (run ⟨grammar, schema, limit⟩ source).2.IsClear ↔
      Succeeds (run ⟨grammar, schema, limit⟩ source).1 :=
    operands .loosest (.start source) .empty nofun
  refine ⟨?_, ?_, ?_⟩
  · refine Iff.trans ?_ heeds.symm
    rw [atStart]
    cases (run ⟨grammar, schema, limit⟩ source).1 with
    | ok parsed => exact iff_of_true ⟨_, rfl⟩ trivial
    | error failure => exact iff_of_false nofun id
  · rintro ⟨tree, accepted⟩
    refine heeds.mpr ?_
    rw [whole] at accepted
    split at accepted
    · cases accepted
    · next ran =>
        rw [ran]
        trivial
  · intro production mem alternative among operand node precedence cursor outcome ends given
    obtain ⟨token, rest, rfl⟩ :=
      exists_token_of_alternative (isTokenLed_of_build built led production mem) among
    exact ⟨token, rest, rfl, token?_eq_none_of_isGivenUp ends given⟩

theorem swallows_nothing_of_build_standard :
    Grammar.build Standard.definitions = .ok Standard.table ∧
      (∀ definition ∈ Standard.definitions, definition.isTokenLed = true) ∧
      (∃ failure ∈ (run ⟨Standard.table, [], 8⟩ "'a' + 1").2.seen, failure.isNote = true) ∧
      (∃ failure ∈ (run ⟨Standard.table, [], 8⟩ "'a' + 1").2.seen, failure.isNote = false) ∧
      (¬ ∃ found, atStart ⟨Standard.table, [], 8⟩ "'a' + 1" = .ok found) ∧
      ∀ production ∈ Standard.table.productions, ∀ alternative ∈ production.alternatives,
        ∀ (operand : Operand) (node : String) (precedence : Precedence) (cursor : Cursor)
          (outcome : Outcome),
          Ends (matchElements ⟨Standard.table, [], 8⟩ operand node precedence alternative
            (.begin cursor)) outcome → outcome.isGivenUp = true →
          ∃ token rest, alternative = .text token :: rest ∧
            Lexeme.token? Standard.table.tokens token cursor = none := by
  have led : ∀ definition ∈ Standard.definitions, definition.isTokenLed = true := by
    decide +kernel
  have notes : (run ⟨Standard.table, [], 8⟩ "'a' + 1").2.seen.map Failure.isNote =
      [false, true] := by
    decide +kernel
  have noted : true ∈ (run ⟨Standard.table, [], 8⟩ "'a' + 1").2.seen.map Failure.isNote := by
    rw [notes]
    decide
  have met : false ∈ (run ⟨Standard.table, [], 8⟩ "'a' + 1").2.seen.map Failure.isNote := by
    rw [notes]
    decide
  obtain ⟨heeds, _, commits⟩ :=
    swallows_nothing_of_build Standard.grammar_eq led [] 8 "'a' + 1"
  refine ⟨Standard.grammar_eq, led, List.mem_map.mp noted, List.mem_map.mp met, fun found => ?_,
    commits⟩
  obtain ⟨failure, mem, serious⟩ := List.mem_map.mp met
  rw [heeds.mp found failure mem] at serious
  cases serious

end Parse

end Mixfix
