import Mixfix.Parse.Expression

/-!
# The parser in other monads

The parser acts on a trail, and it calls itself for the expressions inside of an expression. Here its
functions are written for any monad that actions on a trail can be lifted to, so that the calls can
do what the parser itself does not, such as keeping a count. What a part does that makes no calls is
taken over as it is (`HostedStep.of`).

A simulation is a relation between the actions of such a monad and those of the parser that is kept
when actions are put together (`Simulation`). What is related for the calls is related for the
functions that make them, up to a whole climb (`Simulation.climb`). Equality is a simulation of the
parser by itself, so in its own monad these functions are those of the parser (`climb_self`).
-/

set_option autoImplicit false

namespace Mixfix.Parse

variable {α β : Type} {m : Type → Type} [Monad m] [MonadLiftT (StateM Trail) m]

/-- A step of a parse in a monad. -/
abbrev HostedStep (m : Type → Type) (α : Type) := ExceptT Failure m α

/-- A step of the parser as it is. -/
def HostedStep.of (step : Step α) : HostedStep m α := ExceptT.mk (liftM step.run)

/-- Reads an expression of at least a precedence in a monad. -/
abbrev HostedOperand (m : Type → Type) := Precedence → Cursor → HostedStep m Parsed

/-! ## The functions of the parser -/

namespace Hosted

/-- Matches an operand. -/
def matchOperand (operand : HostedOperand m) (node : String) (floor : Precedence)
    (constraint : Option Descriptor) (name : Option String) (progress : Progress) : m Outcome := do
  let answer ← (operand floor progress.cursor).run
  liftM (Parse.matchOperand (fun _ _ => ExceptT.mk (pure answer)) node floor constraint name progress)

mutual
/-- Matches an element. -/
def matchElement (setting : Setting) (operand : HostedOperand m) (node : String)
    (precedence : Precedence) : Element Descriptor → Progress → m Outcome
  | .text token, progress =>
    match Lexeme.token? setting.grammar.tokens token progress.cursor with
    | some lexeme =>
      pure (.matched { progress.moved lexeme.span.start lexeme.next with committed := true })
    | none => pure .unmatched
  | .literal kind name, progress => liftM (matchLiteral setting kind name progress)
  | .operand role constraint name, progress =>
    matchOperand operand node (role.floor precedence) constraint name progress
  | .optional group, progress => do
    match ← matchElements setting operand node precedence group (.begin progress.cursor) with
    | .matched inner => pure (.matched (progress.joined inner))
    | .unmatched => pure (.matched progress)
    | .failed failure committed =>
      if failure.isFatal || committed then pure (.failed failure true)
      else
        liftM (modify (Trail.record failure) : StateM Trail Unit)
        pure (.matched progress)
/-- Matches elements one after the other. -/
def matchElements (setting : Setting) (operand : HostedOperand m) (node : String)
    (precedence : Precedence) : List (Element Descriptor) → Progress → m Outcome
  | [], progress => pure (.matched progress)
  | element :: elements, progress => do
    match ← matchElement setting operand node precedence element progress with
    | .matched progress => matchElements setting operand node precedence elements progress
    | .unmatched =>
      if progress.committed then
        let cursor := progress.cursor.skipBlanks
        liftM (fails ⟨cursor.offset, .expectedElement node (wanted element) cursor.upcoming⟩ true)
      else pure .unmatched
    | .failed failure committed => pure (.failed failure committed)
end

/-- Matches elements of a production; nothing is matched when they are given up. -/
def matchPattern (setting : Setting) (operand : HostedOperand m) (production : Production)
    (precedence : Precedence) (elements : List (Element Descriptor)) (cursor : Cursor) :
    HostedStep m (Option Match) := do
  match ← ExceptT.lift
      (matchElements setting operand production.name precedence elements (.begin cursor)) with
  | .matched progress =>
    pure (some ⟨progress.bindings, progress.start.getD cursor.offset, progress.cursor⟩)
  | .unmatched => pure none
  | .failed failure committed =>
    if failure.isFatal || committed then .of (Step.settle failure)
    else
      HostedStep.of (Step.abandon failure)
      pure none

/-- Matches a production that extends an expression. -/
def matchExtending (setting : Setting) (operand : HostedOperand m) (production : Production)
    (precedence : Precedence) (left : Tree) (cursor : Cursor) : HostedStep m (Option Match) :=
  match leftConstraint production with
  | some type =>
    if type.accepts left.type then
      matchPattern setting operand production precedence production.elements.tail cursor
    else do
      HostedStep.of (noteLeft setting production left type cursor)
      pure none
  | none => matchPattern setting operand production precedence production.elements.tail cursor

/-- The first match of productions that start an expression. -/
def firstStart (setting : Setting) (operand : HostedOperand m) :
    List Production → Cursor → HostedStep m (Option Parsed)
  | [], _ => pure none
  | production :: productions, cursor => do
    match ← matchPattern setting operand production production.precedence production.elements
        cursor with
    | some found =>
      return some (← .of (finish setting production found.bindings found.start found.next))
    | none => firstStart setting operand productions cursor

/-- The expression in parentheses, behind the opening one. -/
def parenthesized (setting : Setting) (operand : HostedOperand m) (opening : Lexeme String) :
    HostedStep m Parsed := do
  let (tree, cursor) ← operand .loosest opening.next
  match Lexeme.token? setting.grammar.tokens closeParen cursor with
  | some closing => pure (tree.widen ⟨opening.span.start, closing.span.stop⟩, closing.next)
  | none => .of (Step.raiseSettled ⟨opening.span.start, .unclosedParen cursor.upcoming⟩)

/-- A node of a numbered level that starts an expression, or a reference. -/
def openerOrReference (setting : Setting) (operand : HostedOperand m) (cursor : Cursor) :
    HostedStep m Parsed := do
  match ← firstStart setting operand setting.grammar.openers cursor with
  | some parsed => pure parsed
  | none =>
    match reference? setting.schema cursor with
    | .ok (some parsed) => pure parsed
    | .ok none => .of (Step.raiseSettled ⟨cursor.offset, .expectedExpression cursor.upcoming⟩)
    | .error failure => .of (Step.raiseSettled failure)

/-- A literal, or what comes behind literals in the order of atoms. -/
def literalOrLater (setting : Setting) (operand : HostedOperand m) (cursor : Cursor) :
    HostedStep m Parsed :=
  match Lexeme.number? cursor with
  | some lexeme => pure (literalTree lexeme)
  | none =>
    match stringValue? cursor with
    | .error failure => .of (Step.raise failure)
    | .ok (some lexeme) => pure (literalTree lexeme)
    | .ok none =>
      match keywordValue? cursor with
      | some lexeme => pure (literalTree lexeme)
      | none => openerOrReference setting operand cursor

/-- The atom ahead. -/
def atom (setting : Setting) (operand : HostedOperand m) (cursor : Cursor) :
    HostedStep m Parsed := do
  let cursor := cursor.skipBlanks
  match ← firstStart setting operand setting.grammar.atoms cursor with
  | some parsed => pure parsed
  | none =>
    match Lexeme.token? setting.grammar.tokens openParen cursor with
    | some opening => parenthesized setting operand opening
    | none => literalOrLater setting operand cursor

/-- The first match of productions that extend an expression. -/
def firstExtension (setting : Setting) (operand : HostedOperand m) (left : Tree) :
    List (UInt32 × Production) → Cursor → HostedStep m (Option Parsed)
  | [], _ => pure none
  | (level, production) :: candidates, cursor => do
    match ← matchExtending setting operand production (.level level) left cursor with
    | some found =>
      let bindings := withLeft production left found.bindings
      return some (← .of (finish setting production bindings left.span.start found.next))
    | none => firstExtension setting operand left candidates cursor

/-- Extends an expression by candidates, at most the given number of times. -/
def extend (setting : Setting) (operand : HostedOperand m)
    (candidates : List (UInt32 × Production)) : Nat → Parsed → HostedStep m Parsed
  | 0, parsed => pure parsed
  | steps + 1, (left, cursor) => do
    match ← firstExtension setting operand left candidates cursor with
    | some extended => extend setting operand candidates steps extended
    | none => pure (left, cursor)

/-- An atom and its extensions of at least a precedence. -/
def climb (setting : Setting) (operand : HostedOperand m) : HostedOperand m := fun floor cursor => do
  let parsed ← atom setting operand cursor
  extend setting operand (setting.grammar.extendingFrom floor) (parsed.2.rest.length + 1) parsed

end Hosted

/-! ## Simulations -/

/-- A relation between the actions of a monad and those of the parser that is kept when actions are
put together. -/
structure Simulation (m : Type → Type) [Monad m] [MonadLiftT (StateM Trail) m] where
  Rel : {α : Type} → m α → StateM Trail α → Prop
  of_pure {α : Type} (a : α) : Rel (pure a) (pure a)
  bind {α β : Type} {hosted : m α} {action : StateM Trail α} {next : α → m β}
    {nextAction : α → StateM Trail β} (first : Rel hosted action)
    (rest : ∀ a, Rel (next a) (nextAction a)) : Rel (hosted >>= next) (action >>= nextAction)
  of_lift {α : Type} (action : StateM Trail α) : Rel (liftM action) action

namespace Simulation

variable (simulation : Simulation m)

/-- Steps are related. -/
abbrev RelStep (hosted : HostedStep m α) (step : Step α) : Prop :=
  simulation.Rel hosted.run step.run

/-- What reads expressions is related. -/
abbrev RelOperand (hosted : HostedOperand m) (operand : Operand) : Prop :=
  ∀ floor cursor, simulation.RelStep (hosted floor cursor) (operand floor cursor)

theorem pure_step (a : α) : simulation.RelStep (pure a) (pure a) := simulation.of_pure (Except.ok a)

theorem of_step (step : Step α) : simulation.RelStep (.of step) step := simulation.of_lift step.run

theorem bind_step {hosted : HostedStep m α} {step : Step α} {next : α → HostedStep m β}
    {nextStep : α → Step β} (first : simulation.RelStep hosted step)
    (rest : ∀ a, simulation.RelStep (next a) (nextStep a)) :
    simulation.RelStep (hosted >>= next) (step >>= nextStep) := by
  show simulation.Rel (hosted.run >>= ExceptT.bindCont next) (step.run >>= ExceptT.bindCont nextStep)
  refine simulation.bind first fun outcome => ?_
  cases outcome with
  | ok a => exact rest a
  | error failure => exact simulation.of_pure (Except.error failure)

/-- An action that cannot fail is related as a step. -/
theorem lift_step [LawfulMonad m] {hosted : m α} {action : StateM Trail α}
    (related : simulation.Rel hosted action) :
    simulation.RelStep (ExceptT.lift hosted) (ExceptT.lift action) := by
  show simulation.Rel (Except.ok <$> hosted) (Except.ok <$> action)
  rw [← bind_pure_comp, ← bind_pure_comp]
  exact simulation.bind related fun a => simulation.of_pure (Except.ok a)

/-! ## What is related for calls -/

section Operands

variable {setting : Setting} {hosted : HostedOperand m} {operand : Operand} {node : String}
  {precedence : Precedence}

theorem rel_matchOperand (operands : simulation.RelOperand hosted operand) (floor : Precedence)
    (constraint : Option Descriptor) (name : Option String) (progress : Progress) :
    simulation.Rel (Hosted.matchOperand hosted node floor constraint name progress)
      (matchOperand operand node floor constraint name progress) :=
  simulation.bind (operands floor progress.cursor) fun _ => simulation.of_lift _

mutual
theorem rel_matchElement (operands : simulation.RelOperand hosted operand) :
    ∀ (element : Element Descriptor) (progress : Progress),
    simulation.Rel (Hosted.matchElement setting hosted node precedence element progress)
      (matchElement setting operand node precedence element progress)
  | .text token, progress => by
      rw [Hosted.matchElement, matchElement]
      cases Lexeme.token? setting.grammar.tokens token progress.cursor with
      | none => exact simulation.of_pure _
      | some lexeme => exact simulation.of_pure _
  | .literal kind name, progress => by
      rw [Hosted.matchElement, matchElement]
      exact simulation.of_lift _
  | .operand role constraint name, progress => by
      rw [Hosted.matchElement, matchElement]
      exact simulation.rel_matchOperand operands _ constraint name progress
  | .optional group, progress => by
      rw [Hosted.matchElement, matchElement]
      refine simulation.bind (rel_matchElements operands group _) fun outcome => ?_
      cases outcome with
      | matched inner => exact simulation.of_pure _
      | unmatched => exact simulation.of_pure _
      | failed failure committed =>
          dsimp only
          split
          · exact simulation.of_pure _
          · exact simulation.bind (simulation.of_lift _) fun _ => simulation.of_pure _
theorem rel_matchElements (operands : simulation.RelOperand hosted operand) :
    ∀ (elements : List (Element Descriptor)) (progress : Progress),
    simulation.Rel (Hosted.matchElements setting hosted node precedence elements progress)
      (matchElements setting operand node precedence elements progress)
  | [], progress => by
      rw [Hosted.matchElements, matchElements]
      exact simulation.of_pure _
  | element :: elements, progress => by
      rw [Hosted.matchElements, matchElements]
      refine simulation.bind (rel_matchElement operands element progress) fun outcome => ?_
      cases outcome with
      | matched middle => exact rel_matchElements operands elements middle
      | unmatched =>
          dsimp only
          split
          · exact simulation.of_lift _
          · exact simulation.of_pure _
      | failed failure committed => exact simulation.of_pure _
end

variable (operands : simulation.RelOperand hosted operand)
include operands

theorem rel_parenthesized (opening : Lexeme String) :
    simulation.RelStep (Hosted.parenthesized setting hosted opening)
      (parenthesized setting operand opening) := by
  refine simulation.bind_step (operands .loosest opening.next) fun parsed => ?_
  obtain ⟨tree, next⟩ := parsed
  dsimp only
  cases Lexeme.token? setting.grammar.tokens closeParen next with
  | none => exact simulation.of_step _
  | some closing => exact simulation.pure_step _

variable [LawfulMonad m]

theorem rel_matchPattern (production : Production) (elements : List (Element Descriptor))
    (cursor : Cursor) :
    simulation.RelStep (Hosted.matchPattern setting hosted production precedence elements cursor)
      (matchPattern setting operand production precedence elements cursor) := by
  refine simulation.bind_step
    (simulation.lift_step (simulation.rel_matchElements operands elements _)) fun outcome => ?_
  cases outcome with
  | matched progress => exact simulation.pure_step _
  | unmatched => exact simulation.pure_step _
  | failed failure committed =>
      dsimp only
      split
      · exact simulation.of_step _
      · exact simulation.bind_step (simulation.of_step _) fun _ => simulation.pure_step _

theorem rel_matchExtending (production : Production) (left : Tree) (cursor : Cursor) :
    simulation.RelStep (Hosted.matchExtending setting hosted production precedence left cursor)
      (matchExtending setting operand production precedence left cursor) := by
  unfold Hosted.matchExtending matchExtending
  cases leftConstraint production with
  | none => exact simulation.rel_matchPattern operands production _ cursor
  | some type =>
      dsimp only
      split
      · exact simulation.rel_matchPattern operands production _ cursor
      · exact simulation.bind_step (simulation.of_step _) fun _ => simulation.pure_step _

theorem rel_firstStart (productions : List Production) (cursor : Cursor) :
    simulation.RelStep (Hosted.firstStart setting hosted productions cursor)
      (firstStart setting operand productions cursor) := by
  induction productions with
  | nil => exact simulation.pure_step _
  | cons production productions ih =>
      rw [Hosted.firstStart, firstStart]
      refine simulation.bind_step (simulation.rel_matchPattern operands production _ cursor)
        fun found => ?_
      cases found with
      | none => exact ih
      | some found =>
          exact simulation.bind_step (simulation.of_step _) fun _ => simulation.pure_step _

theorem rel_openerOrReference (cursor : Cursor) :
    simulation.RelStep (Hosted.openerOrReference setting hosted cursor)
      (openerOrReference setting operand cursor) := by
  refine simulation.bind_step (simulation.rel_firstStart operands _ cursor) fun outcome => ?_
  cases outcome with
  | some parsed => exact simulation.pure_step _
  | none =>
      dsimp only
      rcases reference? setting.schema cursor with failure | _ | parsed
      · exact simulation.of_step _
      · exact simulation.of_step _
      · exact simulation.pure_step _

theorem rel_literalOrLater (cursor : Cursor) :
    simulation.RelStep (Hosted.literalOrLater setting hosted cursor)
      (literalOrLater setting operand cursor) := by
  unfold Hosted.literalOrLater literalOrLater
  cases Lexeme.number? cursor with
  | some lexeme => exact simulation.pure_step _
  | none =>
      rcases stringValue? cursor with failure | _ | lexeme
      · exact simulation.of_step _
      · cases keywordValue? cursor with
        | some lexeme => exact simulation.pure_step _
        | none => exact simulation.rel_openerOrReference operands cursor
      · exact simulation.pure_step _

theorem rel_atom (cursor : Cursor) :
    simulation.RelStep (Hosted.atom setting hosted cursor) (atom setting operand cursor) := by
  refine simulation.bind_step (simulation.rel_firstStart operands _ _) fun outcome => ?_
  cases outcome with
  | some parsed => exact simulation.pure_step _
  | none =>
      dsimp only
      cases Lexeme.token? setting.grammar.tokens openParen cursor.skipBlanks with
      | some opening => exact simulation.rel_parenthesized operands opening
      | none => exact simulation.rel_literalOrLater operands _

theorem rel_firstExtension (left : Tree) (candidates : List (UInt32 × Production)) (cursor : Cursor) :
    simulation.RelStep (Hosted.firstExtension setting hosted left candidates cursor)
      (firstExtension setting operand left candidates cursor) := by
  induction candidates with
  | nil => exact simulation.pure_step _
  | cons candidate candidates ih =>
      obtain ⟨level, production⟩ := candidate
      rw [Hosted.firstExtension, firstExtension]
      refine simulation.bind_step (simulation.rel_matchExtending operands production left cursor)
        fun found => ?_
      cases found with
      | none => exact ih
      | some found =>
          exact simulation.bind_step (simulation.of_step _) fun _ => simulation.pure_step _

theorem rel_extend (candidates : List (UInt32 × Production)) (steps : Nat) (parsed : Parsed) :
    simulation.RelStep (Hosted.extend setting hosted candidates steps parsed)
      (extend setting operand candidates steps parsed) := by
  induction steps generalizing parsed with
  | zero => exact simulation.pure_step _
  | succ steps ih =>
      obtain ⟨left, cursor⟩ := parsed
      refine simulation.bind_step (simulation.rel_firstExtension operands left candidates cursor)
        fun outcome => ?_
      cases outcome with
      | none => exact simulation.pure_step _
      | some extended => exact ih extended

/-- What is related for calls is related for climbs. -/
theorem rel_climb : simulation.RelOperand (Hosted.climb setting hosted) (climb setting operand) := by
  intro floor cursor
  refine simulation.bind_step (simulation.rel_atom operands cursor) fun parsed => ?_
  exact simulation.rel_extend operands _ _ parsed

end Operands

/-- Equality in the parser's own monad. -/
def self : Simulation (StateM Trail) where
  Rel hosted action := hosted = action
  of_pure _ := rfl
  bind first rest := by
    rw [first, funext rest]
  of_lift _ := rfl

end Simulation

/-- In the parser's own monad, climbing is what the parser does. -/
theorem climb_self (setting : Setting) (operand : Operand) :
    Hosted.climb (m := StateM Trail) setting operand = climb setting operand := by
  funext floor cursor
  exact Simulation.self.rel_climb (fun _ _ => rfl) floor cursor

end Mixfix.Parse
