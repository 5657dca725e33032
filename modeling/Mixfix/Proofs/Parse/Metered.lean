import Mixfix.Proofs.Parse.Candidates

/-!
# Parsing with a meter

An interpreter of the parser that counts its steps. It takes a step for every expression that it
starts to read, for every element that it tries to match, for every production that it tries and for
every turn in which an expression may be extended, and it stops without an outcome when no steps are
left. Beyond that it only follows the parser: what a part does that reads no expression is taken over
as it is (`Meter.free`).

Nothing else bounds it. Extensions go on for as long as there are steps, and the depth to which
expressions nest is the limit of the parse, whatever that is. In return it watches what the parser
relies on, and stops as well where an expression inside of another one does not start behind the
start of the latter, or where an extension does not take any of the text.

An action of the parser is afforded by a count of steps (`Affords`) if the interpreter comes to the
same result with at least so many steps, and uses no more of them.
-/

set_option autoImplicit false

namespace Mixfix.Parse

variable {α β : Type}

/-! ## Meters -/

/-- An action of a parse that takes steps from those that are left, and stops without a result when
there are not enough. -/
abbrev Meter (α : Type) := StateT (Trail × Nat) Option α

namespace Meter

/-- Takes a step. -/
def spend : Meter Unit := fun (trail, steps) =>
  match steps with
  | 0 => none
  | left + 1 => some ((), trail, left)

/-- Stops unless a condition holds. -/
def insist (condition : Bool) : Meter Unit := fun state =>
  if condition then some ((), state) else none

/-- The count of steps that are left. -/
def left : Meter Nat := fun state => some (state.2, state)

/-- An action that takes no steps. -/
def free (action : StateM Trail α) : Meter α := fun (trail, steps) =>
  some ((action.run trail).1, (action.run trail).2, steps)

end Meter

/-- A step of a parse with a meter. -/
abbrev MeteredStep (α : Type) := ExceptT Failure Meter α

/-- A step of a parse that takes no steps from the meter. -/
def MeteredStep.free (step : Step α) : MeteredStep α := ExceptT.mk (Meter.free step.run)

/-- Reads an expression of at least a precedence, with a meter. -/
abbrev MeteredOperand := Precedence → Cursor → MeteredStep Parsed

/-! ## The interpreter -/

namespace Metered

open Meter

/-- Matches an operand. -/
def matchOperand (operand : MeteredOperand) (node : String) (floor : Precedence)
    (constraint : Option Descriptor) (name : Option String) (progress : Progress) :
    Meter Outcome := do
  let answer ← (operand floor progress.cursor).run
  free (Parse.matchOperand (fun _ _ => ExceptT.mk (pure answer)) node floor constraint name progress)

mutual
/-- Matches an element. -/
def matchElement (setting : Setting) (operand : MeteredOperand) (node : String)
    (precedence : Precedence) : Element Descriptor → Progress → Meter Outcome
  | .text token, progress => do
    spend
    match Lexeme.token? setting.grammar.tokens token progress.cursor with
    | some lexeme =>
      pure (.matched { progress.moved lexeme.span.start lexeme.next with committed := true })
    | none => pure .unmatched
  | .literal kind name, progress => do
    spend
    free (matchLiteral setting kind name progress)
  | .operand role constraint name, progress => do
    spend
    matchOperand operand node (role.floor precedence) constraint name progress
  | .optional group, progress => do
    spend
    match ← matchElements setting operand node precedence group (.begin progress.cursor) with
    | .matched inner => pure (.matched (progress.joined inner))
    | .unmatched => pure (.matched progress)
    | .failed failure committed =>
      if failure.isFatal || committed then pure (.failed failure true)
      else
        free (modify (Trail.record failure))
        pure (.matched progress)
/-- Matches elements one after the other. -/
def matchElements (setting : Setting) (operand : MeteredOperand) (node : String)
    (precedence : Precedence) : List (Element Descriptor) → Progress → Meter Outcome
  | [], progress => pure (.matched progress)
  | element :: elements, progress => do
    match ← matchElement setting operand node precedence element progress with
    | .matched progress => matchElements setting operand node precedence elements progress
    | .unmatched =>
      if progress.committed then
        let cursor := progress.cursor.skipBlanks
        free (fails ⟨cursor.offset, .expectedElement node (wanted element) cursor.upcoming⟩ true)
      else pure .unmatched
    | .failed failure committed => pure (.failed failure committed)
end

/-- Matches elements of a production; nothing is matched when they are given up. -/
def matchPattern (setting : Setting) (operand : MeteredOperand) (production : Production)
    (precedence : Precedence) (elements : List (Element Descriptor)) (cursor : Cursor) :
    MeteredStep (Option Match) := do
  spend
  match ← matchElements setting operand production.name precedence elements (.begin cursor) with
  | .matched progress =>
    pure (some ⟨progress.bindings, progress.start.getD cursor.offset, progress.cursor⟩)
  | .unmatched => pure none
  | .failed failure committed =>
    if failure.isFatal || committed then .free (Step.settle failure)
    else
      MeteredStep.free (Step.abandon failure)
      pure none

/-- Matches a production that extends an expression. -/
def matchExtending (setting : Setting) (operand : MeteredOperand) (production : Production)
    (precedence : Precedence) (left : Tree) (cursor : Cursor) : MeteredStep (Option Match) :=
  match leftConstraint production with
  | some type =>
    if type.accepts left.type then
      matchPattern setting operand production precedence production.elements.tail cursor
    else do
      spend
      MeteredStep.free (noteLeft setting production left type cursor)
      pure none
  | none => matchPattern setting operand production precedence production.elements.tail cursor

/-- The first match of productions that start an expression. -/
def firstStart (setting : Setting) (operand : MeteredOperand) :
    List Production → Cursor → MeteredStep (Option Parsed)
  | [], _ => pure none
  | production :: productions, cursor => do
    match ← matchPattern setting operand production production.precedence production.elements
        cursor with
    | some found =>
      return some (← .free (finish setting production found.bindings found.start found.next))
    | none => firstStart setting operand productions cursor

/-- The expression in parentheses, behind the opening one. -/
def parenthesized (setting : Setting) (operand : MeteredOperand) (opening : Lexeme String) :
    MeteredStep Parsed := do
  let (tree, cursor) ← operand .loosest opening.next
  match Lexeme.token? setting.grammar.tokens closeParen cursor with
  | some closing => pure (tree.widen ⟨opening.span.start, closing.span.stop⟩, closing.next)
  | none => .free (Step.raiseSettled ⟨opening.span.start, .unclosedParen cursor.upcoming⟩)

/-- A node of a numbered level that starts an expression, or a reference. -/
def openerOrReference (setting : Setting) (operand : MeteredOperand) (cursor : Cursor) :
    MeteredStep Parsed := do
  match ← firstStart setting operand setting.grammar.openers cursor with
  | some parsed => pure parsed
  | none =>
    match reference? setting.schema cursor with
    | .ok (some parsed) => pure parsed
    | .ok none => .free (Step.raiseSettled ⟨cursor.offset, .expectedExpression cursor.upcoming⟩)
    | .error failure => .free (Step.raiseSettled failure)

/-- A literal, or what comes behind literals in the order of atoms. -/
def literalOrLater (setting : Setting) (operand : MeteredOperand) (cursor : Cursor) :
    MeteredStep Parsed :=
  match Lexeme.number? cursor with
  | some lexeme => pure (literalTree lexeme)
  | none =>
    match stringValue? cursor with
    | .error failure => .free (Step.raise failure)
    | .ok (some lexeme) => pure (literalTree lexeme)
    | .ok none =>
      match keywordValue? cursor with
      | some lexeme => pure (literalTree lexeme)
      | none => openerOrReference setting operand cursor

/-- The atom ahead. -/
def atom (setting : Setting) (operand : MeteredOperand) (cursor : Cursor) : MeteredStep Parsed := do
  let cursor := cursor.skipBlanks
  match ← firstStart setting operand setting.grammar.atoms cursor with
  | some parsed => pure parsed
  | none =>
    match Lexeme.token? setting.grammar.tokens openParen cursor with
    | some opening => parenthesized setting operand opening
    | none => literalOrLater setting operand cursor

/-- The first match of productions that extend an expression. -/
def firstExtension (setting : Setting) (operand : MeteredOperand) (left : Tree) :
    List (UInt32 × Production) → Cursor → MeteredStep (Option Parsed)
  | [], _ => pure none
  | (level, production) :: candidates, cursor => do
    match ← matchExtending setting operand production (.level level) left cursor with
    | some found =>
      let bindings := withLeft production left found.bindings
      return some (← .free (finish setting production bindings left.span.start found.next))
    | none => firstExtension setting operand left candidates cursor

/-- Extends an expression by candidates for as many turns as are given. -/
def extend (setting : Setting) (operand : MeteredOperand) (candidates : List (UInt32 × Production)) :
    Nat → Parsed → MeteredStep Parsed
  | 0, parsed => do
    insist false
    pure parsed
  | turns + 1, (left, cursor) => do
    spend
    match ← firstExtension setting operand left candidates cursor with
    | some extended =>
      insist (cursor.offset < extended.2.offset)
      extend setting operand candidates turns extended
    | none => pure (left, cursor)

/-- An atom and its extensions of at least a precedence. A turn takes a step, so the count of steps
that are left does not bound the turns any further than the meter does. -/
def climb (setting : Setting) (operand : MeteredOperand) : MeteredOperand := fun floor cursor => do
  let parsed ← atom setting operand cursor
  extend setting operand (setting.grammar.extendingFrom floor) (← left) parsed

/-- Reads an expression inside of one with a start, and stops if it does not start behind that. -/
def inside (start : Cursor) (operand : MeteredOperand) : MeteredOperand := fun floor cursor => do
  insist (start.offset < cursor.offset)
  operand floor cursor

/-- Reads an expression in which expressions can be nested up to a depth. -/
def expression (setting : Setting) : Nat → MeteredOperand
  | 0 => fun _ cursor => do
    spend
    .free (Step.raise ⟨cursor.skipBlanks.offset, .tooDeep setting.limit⟩)
  | depth + 1 => fun floor start => do
    spend
    climb setting (inside start (expression setting depth)) floor start

/-- Runs a parse of a text from its start with a count of steps. -/
def run (setting : Setting) (source : String) (steps : Nat) :
    Option (Except Failure Parsed × Trail) :=
  ((expression setting setting.limit .loosest (.start source)).run.run (.empty, steps)).map
    fun (outcome, trail, _) => (outcome, trail)

/-- Parses an expression at the start of a text with a count of steps. -/
def atStart (setting : Setting) (source : String) (steps : Nat) : Option (Except Failure Partial) := do
  match (← run setting source steps).1 with
  | .ok (tree, cursor) => some (.ok ⟨tree, cursor.skipBlanks⟩)
  | .error failure => some (.error failure)

/-- Parses a text as exactly one expression with a count of steps. -/
def whole (setting : Setting) (source : String) (steps : Nat) : Option (Except Failure Tree) := do
  match ← run setting source steps with
  | (.error failure, _) => some (.error failure)
  | (.ok (tree, cursor), trail) =>
    let cursor := cursor.skipBlanks
    if cursor.rest.isEmpty then some (.ok tree)
    else some (.error (trailingFailure tree cursor trail))

end Metered

/-! ## What steps afford -/

/-- With as many steps as are given or more, the action with a meter comes to the result of the
action without one, and takes no more steps than are given. -/
def Affords (metered : Meter α) (action : StateM Trail α) (steps : Nat) : Prop :=
  ∀ trail spare, ∃ left, spare ≤ left ∧
    metered.run (trail, steps + spare) = some ((action.run trail).1, (action.run trail).2, left)

/-- The same for steps that may fail. -/
abbrev AffordsStep (metered : MeteredStep α) (step : Step α) (steps : Nat) : Prop :=
  Affords metered.run step.run steps

namespace Affords

variable {metered : Meter α} {action : StateM Trail α} {steps more : Nat}

theorem mono (affords : Affords metered action steps) (le : steps ≤ more) :
    Affords metered action more := by
  intro trail spare
  obtain ⟨left, enough, ran⟩ := affords trail (more - steps + spare)
  refine ⟨left, by omega, ?_⟩
  rw [← ran]
  congr 2
  omega

theorem of_pure (a : α) : Affords (pure a) (pure a) 0 :=
  fun trail spare => ⟨spare, Nat.le_refl _, by rw [Nat.zero_add]; rfl⟩

theorem free (action : StateM Trail α) : Affords (Meter.free action) action 0 :=
  fun trail spare => ⟨spare, Nat.le_refl _, by rw [Nat.zero_add]; rfl⟩

theorem bind {next : α → Meter β} {nextAction : α → StateM Trail β}
    (first : Affords metered action steps)
    (rest : ∀ a, Ends action a → Affords (next a) (nextAction a) more) :
    Affords (metered >>= next) (action >>= nextAction) (steps + more) := by
  intro trail spare
  obtain ⟨between, enough, ran⟩ := first trail (more + spare)
  obtain ⟨left, enough', ran'⟩ := rest _ ⟨trail, rfl⟩ (action.run trail).2 (between - more)
  refine ⟨left, by omega, ?_⟩
  have count : more + (between - more) = between := by omega
  rw [count] at ran'
  rw [StateT.run_bind, Nat.add_assoc, ran]
  exact ran'

/-- What follows an action may take no steps. -/
theorem bind_free {next : α → Meter β} {nextAction : α → StateM Trail β}
    (first : Affords metered action steps)
    (rest : ∀ a, Ends action a → Affords (next a) (nextAction a) 0) :
    Affords (metered >>= next) (action >>= nextAction) steps :=
  first.bind rest

/-- Taking a step affords an action with one step more. -/
theorem spend {next : Meter α} (affords : Affords next action steps) :
    Affords (Meter.spend >>= fun _ => next) action (steps + 1) := by
  intro trail spare
  obtain ⟨left, enough, ran⟩ := affords trail spare
  refine ⟨left, enough, ?_⟩
  have count : steps + 1 + spare = steps + spare + 1 := by omega
  rw [count]
  exact ran

end Affords

namespace AffordsStep

variable {metered : MeteredStep α} {step : Step α} {steps more : Nat}

theorem of_pure (a : α) : AffordsStep (pure a) (pure a) 0 := Affords.of_pure (Except.ok a)

theorem free (step : Step α) : AffordsStep (.free step) step 0 := Affords.free step.run

theorem bind {next : α → MeteredStep β} {nextStep : α → Step β}
    (first : AffordsStep metered step steps)
    (rest : ∀ a, step.Gives a → AffordsStep (next a) (nextStep a) more) :
    AffordsStep (metered >>= next) (step >>= nextStep) (steps + more) := by
  show Affords (metered.run >>= ExceptT.bindCont next) (step.run >>= ExceptT.bindCont nextStep) _
  refine Affords.bind first fun outcome ends => ?_
  cases outcome with
  | ok a => exact rest a ends
  | error failure => exact (Affords.of_pure (Except.error failure)).mono (Nat.zero_le _)

theorem bind_free {next : α → MeteredStep β} {nextStep : α → Step β}
    (first : AffordsStep metered step steps)
    (rest : ∀ a, step.Gives a → AffordsStep (next a) (nextStep a) 0) :
    AffordsStep (metered >>= next) (step >>= nextStep) steps :=
  first.bind rest

/-- An action that cannot fail is afforded as a step. -/
theorem lift {metered : Meter α} {action : StateM Trail α} (affords : Affords metered action steps) :
    AffordsStep (ExceptT.lift metered) (ExceptT.lift action) steps := by
  show Affords (metered >>= fun a => pure (Except.ok a)) (action >>= fun a => pure (Except.ok a)) _
  exact affords.bind fun a _ => .of_pure (Except.ok a)

theorem spend (affords : AffordsStep metered step steps) :
    AffordsStep (liftM Meter.spend >>= fun _ => metered) step (steps + 1) := by
  intro trail spare
  obtain ⟨left, enough, ran⟩ := affords trail spare
  refine ⟨left, enough, ?_⟩
  have count : steps + 1 + spare = steps + spare + 1 := by omega
  rw [count]
  exact ran

/-- A condition that holds takes no steps. -/
theorem insist {condition : Bool} (holds : condition = true)
    (affords : AffordsStep metered step steps) :
    AffordsStep (liftM (Meter.insist condition) >>= fun _ => metered) step steps := by
  intro trail spare
  obtain ⟨left, enough, ran⟩ := affords trail spare
  refine ⟨left, enough, ?_⟩
  rw [holds]
  exact ran

/-- A step may depend on the count that is left, as far as it is afforded with each count that it can
meet. -/
theorem left {next : Nat → MeteredStep α}
    (affords : ∀ count, steps ≤ count → AffordsStep (next count) step steps) :
    AffordsStep (liftM Meter.left >>= next) step steps := by
  intro trail spare
  exact affords (steps + spare) (Nat.le_add_right _ _) trail spare

end AffordsStep

end Mixfix.Parse
