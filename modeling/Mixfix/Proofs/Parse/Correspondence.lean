import Mixfix.Proofs.Parse.Runs
import Mixfix.Parse.Expression

/-!
# Parses that correspond

Two parses of the same text in the same language that differ in their limit only take the same steps,
up to the point where the expressions are nested too deep for the lower limit. From there on nothing
is said of the other parse, and the first one is bound to end with this failure: no alternative is
tried after it.

`Corresponds` says this of two actions, together with what is known of the trail before and after
them. It splits where actions are put together (`Corresponds.bind`). What is kept of the trail is a
parameter (`TrailInvariant`): something that holds while a parse goes on, something that holds once a
failure was met, and something that holds when it is reported. The parser only ever sees a failure,
gives an alternative up because of it, or reports what the trail has in its place, so an invariant has
to say what these three do and holds for all parses then (`corresponds_expression`).

With one limit on both sides this is a statement about one parse and its trail.
-/

set_option autoImplicit false

namespace Mixfix.Parse

variable {α β : Type}

/-! ## Corresponding actions -/

/-- From a trail of which something is known, the first action either goes too deep or does what the
second one does, and something is known of the result and of the trail that is left. -/
def Corresponds (Before : Trail → Prop) (Deep : α → Prop) (After : α → Trail → Prop)
    (low high : StateM Trail α) : Prop :=
  ∀ trail, Before trail → Deep (low.run trail).1 ∨
    low.run trail = high.run trail ∧ After (low.run trail).1 (low.run trail).2

namespace Corresponds

variable {Before : Trail → Prop} {Deep : α → Prop} {After : α → Trail → Prop}

theorem of_pure {a : α} (kept : ∀ trail, Before trail → After a trail) :
    Corresponds Before Deep After (pure a) (pure a) :=
  fun trail before => .inr ⟨rfl, kept trail before⟩

/-- Corresponding actions that go on in corresponding ways correspond, if the first does not find its
way back from being too deep. -/
theorem bind {low high : StateM Trail α} {next next' : α → StateM Trail β} {Deep' : β → Prop}
    {After' : β → Trail → Prop} (first : Corresponds Before Deep After low high)
    (stays : ∀ a, Deep a → ∀ trail, Deep' ((next a).run trail).1)
    (rest : ∀ a, Corresponds (After a) Deep' After' (next a) (next' a)) :
    Corresponds Before Deep' After' (low >>= next) (high >>= next') := by
  intro trail before
  rw [StateT.run_bind, StateT.run_bind]
  rcases first trail before with deep | ⟨same, after⟩
  · exact .inl (stays _ deep _)
  · rw [← same]
    exact rest _ _ after

end Corresponds

/-! ## What is kept of the trail -/

/-- What is known of the trail in the course of a parse. -/
structure TrailInvariant where
  /-- While the parse goes on. -/
  Going : Trail → Prop
  /-- Once a failure was met that is not dealt with yet. -/
  Met : Failure → Trail → Prop
  /-- When a failure is what a part of the parse fails with. -/
  Reported : Failure → Trail → Prop
  /-- A failure that is seen was met. -/
  met_see {failure : Failure} {trail : Trail} (going : Going trail) :
    Met failure (trail.see failure)
  /-- What a part of the parse fails with was met by the whole. -/
  met_of_reported {failure : Failure} {trail : Trail} (reported : Reported failure trail) :
    Met failure trail
  /-- What the trail chooses in place of a failure can be reported. -/
  reported_choose {failure : Failure} {trail : Trail} (met : Met failure trail) :
    Reported (trail.choose failure) trail
  /-- The parse goes on after an alternative was given up. -/
  going_record {failure : Failure} {trail : Trail} (met : Met failure trail)
    (mild : failure.isFatal = false) : Going (trail.record failure)

namespace TrailInvariant

variable (invariant : TrailInvariant)

/-- What is known after a step. -/
def AfterStep : Except Failure α → Trail → Prop
  | .ok _, trail => invariant.Going trail
  | .error failure, trail => invariant.Reported failure trail

/-- What is known after elements were matched. -/
def AfterMatch : Outcome → Trail → Prop
  | .failed failure _, trail => invariant.Met failure trail
  | _, trail => invariant.Going trail

end TrailInvariant

/-- A step failed because expressions are nested too deep. -/
def FailsDeep : Except Failure α → Prop
  | .ok _ => False
  | .error failure => failure.kind = .nestingTooDeep

/-- Matching failed because expressions are nested too deep. -/
def Outcome.FailsDeep : Outcome → Prop
  | .failed failure _ => failure.kind = .nestingTooDeep
  | _ => False

theorem isFatal_of_tooDeep {failure : Failure} (deep : failure.kind = .nestingTooDeep) :
    failure.isFatal = true := by
  rw [Failure.isFatal, deep]
  rfl

theorem choose_of_isFatal {failure : Failure} (fatal : failure.isFatal = true) (trail : Trail) :
    trail.choose failure = failure := by
  rw [Trail.choose, if_pos fatal]

/-- Steps correspond under an invariant. -/
abbrev CorrespondStep (invariant : TrailInvariant) (low high : Step α) : Prop :=
  Corresponds invariant.Going FailsDeep invariant.AfterStep low.run high.run

/-- Ways of matching elements correspond under an invariant. -/
abbrev CorrespondMatch (invariant : TrailInvariant) (low high : StateM Trail Outcome) : Prop :=
  Corresponds invariant.Going Outcome.FailsDeep invariant.AfterMatch low high

variable {invariant : TrailInvariant}

namespace CorrespondStep

theorem of_pure (a : α) : CorrespondStep invariant (pure a : Step α) (pure a) :=
  Corresponds.of_pure (a := Except.ok a) fun _ going => going

theorem bind {low high : Step α} {next next' : α → Step β} (first : CorrespondStep invariant low high)
    (rest : ∀ a, CorrespondStep invariant (next a) (next' a)) :
    CorrespondStep invariant (low >>= next) (high >>= next') := by
  show Corresponds _ _ _ (low.run >>= ExceptT.bindCont next) (high.run >>= ExceptT.bindCont next')
  refine Corresponds.bind first ?_ ?_
  · rintro (failure | a) deep trail
    · exact deep
    · exact deep.elim
  · rintro (failure | a)
    · exact Corresponds.of_pure (a := Except.error failure) fun _ reported => reported
    · exact rest a

/-- A step that goes on from how matching ended. -/
theorem bind_match {low high : StateM Trail Outcome} {next next' : Outcome → Step α}
    (first : CorrespondMatch invariant low high)
    (stays : ∀ outcome, outcome.FailsDeep → ∀ trail, FailsDeep ((next outcome).run.run trail).1)
    (rest : ∀ outcome, Corresponds (invariant.AfterMatch outcome) FailsDeep invariant.AfterStep
      (next outcome).run (next' outcome).run) :
    CorrespondStep invariant (ExceptT.lift low >>= next) (ExceptT.lift high >>= next') := by
  show Corresponds _ _ _ (low >>= fun outcome => (next outcome).run)
    (high >>= fun outcome => (next' outcome).run)
  exact Corresponds.bind first stays rest

/-- A failure that is reported in place of one that was met. -/
theorem settle (failure : Failure) :
    Corresponds (invariant.Met failure) FailsDeep (invariant.AfterStep (α := α))
      (Step.settle failure).run (Step.settle failure).run :=
  fun _ met => .inr ⟨rfl, invariant.reported_choose met⟩

theorem raise {failure : Failure} (fatal : failure.isFatal = true) :
    CorrespondStep invariant (Step.raise failure : Step α) (Step.raise failure) := by
  intro trail going
  refine .inr ⟨rfl, ?_⟩
  have met : invariant.Met failure (trail.see failure) := invariant.met_see going
  have reported := invariant.reported_choose met
  rwa [choose_of_isFatal fatal] at reported

theorem raiseSettled (failure : Failure) :
    CorrespondStep invariant (Step.raiseSettled failure : Step α) (Step.raiseSettled failure) :=
  fun _ going => .inr ⟨rfl, invariant.reported_choose (invariant.met_see going)⟩

theorem note {failure : Failure} (mild : failure.isFatal = false) :
    CorrespondStep invariant (Step.note failure) (Step.note failure) :=
  fun _ going => .inr ⟨rfl, invariant.going_record (invariant.met_see going) mild⟩

/-- Whatever the second step does, the first one may go too deep. -/
theorem of_deep {failure : Failure} (deep : failure.kind = .nestingTooDeep) (high : Step α) :
    CorrespondStep invariant (Step.raise failure) high :=
  fun _ _ => .inl deep

end CorrespondStep

/-! ## Elements -/

section Elements

variable {grammar : Grammar} {schema : Schema} {low high : Nat} {lower upper : Operand}
  {node : String} {precedence : Precedence}

theorem corresponds_fails (failure : Failure) (committed : Bool) :
    CorrespondMatch invariant (fails failure committed) (fails failure committed) :=
  fun _ going => .inr ⟨rfl, invariant.met_see going⟩

theorem corresponds_matchLiteral (kind : LiteralKind) (name : Option String) (progress : Progress) :
    CorrespondMatch invariant (matchLiteral ⟨grammar, schema, low⟩ kind name progress)
      (matchLiteral ⟨grammar, schema, high⟩ kind name progress) := by
  unfold matchLiteral
  rcases capture? schema kind progress.cursor with failure | _ | capture
  · exact corresponds_fails _ _
  · exact .of_pure fun _ going => going
  · exact .of_pure fun _ going => going

/-- Operands of two parses correspond. -/
abbrev CorrespondOperands (invariant : TrailInvariant) (lower upper : Operand) : Prop :=
  ∀ floor cursor, CorrespondStep invariant (lower floor cursor) (upper floor cursor)

theorem corresponds_matchOperand (operands : CorrespondOperands invariant lower upper)
    (floor : Precedence) (constraint : Option Descriptor) (name : Option String)
    (progress : Progress) :
    CorrespondMatch invariant (matchOperand lower node floor constraint name progress)
      (matchOperand upper node floor constraint name progress) := by
  refine Corresponds.bind (operands floor progress.cursor) ?_ ?_
  · rintro (failure | ⟨tree, next⟩) deep trail
    · exact deep
    · exact deep.elim
  · rintro (failure | ⟨tree, next⟩)
    · exact .of_pure fun _ reported => invariant.met_of_reported reported
    · cases constraint with
      | none => exact .of_pure fun _ going => going
      | some type =>
          dsimp only
          split
          · exact .of_pure fun _ going => going
          · exact corresponds_fails _ _

mutual
theorem corresponds_matchElement (operands : CorrespondOperands invariant lower upper) :
    ∀ (element : Element Descriptor) (progress : Progress),
    CorrespondMatch invariant
      (matchElement ⟨grammar, schema, low⟩ lower node precedence element progress)
      (matchElement ⟨grammar, schema, high⟩ upper node precedence element progress)
  | .text token, progress => by
      rw [matchElement, matchElement]
      dsimp only
      cases Lexeme.token? grammar.tokens token progress.cursor with
      | none => exact .of_pure fun _ going => going
      | some lexeme => exact .of_pure fun _ going => going
  | .literal kind name, progress => by
      rw [matchElement, matchElement]
      exact corresponds_matchLiteral kind name progress
  | .operand role constraint name, progress => by
      rw [matchElement, matchElement]
      exact corresponds_matchOperand operands _ constraint name progress
  | .optional group, progress => by
      rw [matchElement, matchElement]
      refine Corresponds.bind (corresponds_matchElements operands group _) ?_ ?_
      · rintro (_ | _ | ⟨failure, committed⟩) deep trail
        · exact deep.elim
        · exact deep.elim
        · simp only [isFatal_of_tooDeep deep, Bool.true_or, if_true]
          exact deep
      · rintro (inner | _ | ⟨failure, committed⟩)
        · exact .of_pure fun _ going => going
        · exact .of_pure fun _ going => going
        · dsimp only
          split
          · exact .of_pure fun _ met => met
          · next recovers =>
              rw [Bool.or_eq_true, not_or, Bool.not_eq_true] at recovers
              exact fun _ met => .inr ⟨rfl, invariant.going_record met recovers.1⟩
theorem corresponds_matchElements (operands : CorrespondOperands invariant lower upper) :
    ∀ (elements : List (Element Descriptor)) (progress : Progress),
    CorrespondMatch invariant
      (matchElements ⟨grammar, schema, low⟩ lower node precedence elements progress)
      (matchElements ⟨grammar, schema, high⟩ upper node precedence elements progress)
  | [], progress => by
      rw [matchElements, matchElements]
      exact .of_pure fun _ going => going
  | element :: elements, progress => by
      rw [matchElements, matchElements]
      refine Corresponds.bind (corresponds_matchElement operands element progress) ?_ ?_
      · rintro (_ | _ | ⟨failure, committed⟩) deep trail
        · exact deep.elim
        · exact deep.elim
        · exact deep
      · rintro (progress | _ | ⟨failure, committed⟩)
        · exact corresponds_matchElements operands elements progress
        · dsimp only
          split
          · exact corresponds_fails _ _
          · exact .of_pure fun _ going => going
        · exact .of_pure fun _ met => met
end

end Elements

/-! ## Candidates -/

section Candidates

variable {grammar : Grammar} {schema : Schema} {low high : Nat} {lower upper : Operand}

theorem corresponds_noteLeft (production : Production) (left : Tree) (type : Descriptor)
    (cursor : Cursor) :
    CorrespondStep invariant (noteLeft ⟨grammar, schema, low⟩ production left type cursor)
      (noteLeft ⟨grammar, schema, high⟩ production left type cursor) := by
  unfold noteLeft
  split
  · dsimp only
    split
    · exact .note rfl
    · exact .of_pure ()
  · exact .of_pure ()

/-- A tree that is not too deep under the lower limit is not too deep under the higher one. -/
theorem corresponds_finish (le : low ≤ high) (production : Production) (bindings : Bindings)
    (start : Nat) (next : Cursor) :
    CorrespondStep invariant (finish ⟨grammar, schema, low⟩ production bindings start next)
      (finish ⟨grammar, schema, high⟩ production bindings start next) := by
  unfold finish
  dsimp only
  split
  · exact .of_deep rfl _
  · next shallow =>
      rw [if_neg (Nat.not_lt.mpr (Nat.le_trans (Nat.le_of_not_lt shallow) le))]
      exact .of_pure _

variable (operands : CorrespondOperands invariant lower upper)
include operands

theorem corresponds_matchPattern (production : Production) (precedence : Precedence)
    (elements : List (Element Descriptor)) (cursor : Cursor) :
    CorrespondStep invariant
      (matchPattern ⟨grammar, schema, low⟩ lower production precedence elements cursor)
      (matchPattern ⟨grammar, schema, high⟩ upper production precedence elements cursor) := by
  refine CorrespondStep.bind_match
    (corresponds_matchElements operands elements (Progress.begin cursor)) ?_ ?_
  · rintro (_ | _ | ⟨failure, committed⟩) deep trail
    · exact deep.elim
    · exact deep.elim
    · have fatal := isFatal_of_tooDeep deep
      simp only [fatal, Bool.true_or, if_true]
      show (trail.choose failure).kind = .nestingTooDeep
      rwa [choose_of_isFatal fatal]
  · rintro (progress | _ | ⟨failure, committed⟩)
    · exact CorrespondStep.of_pure _
    · exact CorrespondStep.of_pure _
    · dsimp only
      split
      · exact CorrespondStep.settle failure
      · next recovers =>
          rw [Bool.or_eq_true, not_or, Bool.not_eq_true] at recovers
          exact fun _ met => .inr ⟨rfl, invariant.going_record met recovers.1⟩

theorem corresponds_matchExtending (production : Production) (precedence : Precedence)
    (left : Tree) (cursor : Cursor) :
    CorrespondStep invariant
      (matchExtending ⟨grammar, schema, low⟩ lower production precedence left cursor)
      (matchExtending ⟨grammar, schema, high⟩ upper production precedence left cursor) := by
  unfold matchExtending
  split
  · split
    · exact corresponds_matchPattern operands _ _ _ _
    · exact (corresponds_noteLeft _ _ _ _).bind fun _ => .of_pure _
  · exact corresponds_matchPattern operands _ _ _ _

/-! ## Expressions -/

omit operands in
/-- A malformed string ends the parse. -/
theorem isFatal_of_stringValue? {cursor : Cursor} {failure : Failure}
    (read : stringValue? cursor = .error failure) : failure.isFatal = true := by
  unfold stringValue? at read
  generalize Lexeme.string? cursor = outcome at read
  rcases outcome with ⟨fault, _, _⟩ | _ | lexeme
  · cases read
    cases fault <;> rfl
  · cases read
  · cases read

theorem corresponds_firstStart (le : low ≤ high) (productions : List Production)
    (cursor : Cursor) :
    CorrespondStep invariant (firstStart ⟨grammar, schema, low⟩ lower productions cursor)
      (firstStart ⟨grammar, schema, high⟩ upper productions cursor) := by
  induction productions with
  | nil => exact .of_pure _
  | cons production productions ih =>
      rw [firstStart, firstStart]
      refine (corresponds_matchPattern operands _ _ _ _).bind fun found => ?_
      cases found with
      | none => exact ih
      | some found => exact (corresponds_finish le _ _ _ _).bind fun _ => .of_pure _

theorem corresponds_parenthesized (opening : Lexeme String) :
    CorrespondStep invariant (parenthesized ⟨grammar, schema, low⟩ lower opening)
      (parenthesized ⟨grammar, schema, high⟩ upper opening) := by
  refine (operands _ _).bind fun ⟨tree, next⟩ => ?_
  dsimp only
  cases Lexeme.token? grammar.tokens closeParen next with
  | none => exact .raiseSettled _
  | some closing => exact .of_pure _

theorem corresponds_openerOrReference (le : low ≤ high) (cursor : Cursor) :
    CorrespondStep invariant (openerOrReference ⟨grammar, schema, low⟩ lower cursor)
      (openerOrReference ⟨grammar, schema, high⟩ upper cursor) := by
  refine (corresponds_firstStart operands le grammar.openers cursor).bind fun outcome => ?_
  cases outcome with
  | some parsed => exact .of_pure _
  | none =>
      dsimp only
      rcases reference? schema cursor with failure | _ | parsed
      · exact .raiseSettled _
      · exact .raiseSettled _
      · exact .of_pure _

theorem corresponds_literalOrLater (le : low ≤ high) (cursor : Cursor) :
    CorrespondStep invariant (literalOrLater ⟨grammar, schema, low⟩ lower cursor)
      (literalOrLater ⟨grammar, schema, high⟩ upper cursor) := by
  unfold literalOrLater
  cases Lexeme.number? cursor with
  | some lexeme => exact .of_pure _
  | none =>
      dsimp only
      cases read : stringValue? cursor with
      | error failure => exact .raise (isFatal_of_stringValue? read)
      | ok outcome =>
          cases outcome with
          | some lexeme => exact .of_pure _
          | none =>
              dsimp only
              cases keywordValue? cursor with
              | some lexeme => exact .of_pure _
              | none => exact corresponds_openerOrReference operands le cursor

theorem corresponds_atom (le : low ≤ high) (cursor : Cursor) :
    CorrespondStep invariant (atom ⟨grammar, schema, low⟩ lower cursor)
      (atom ⟨grammar, schema, high⟩ upper cursor) := by
  refine (corresponds_firstStart operands le grammar.atoms cursor.skipBlanks).bind fun outcome => ?_
  cases outcome with
  | some parsed => exact .of_pure _
  | none =>
      dsimp only
      cases Lexeme.token? grammar.tokens openParen cursor.skipBlanks with
      | some opening => exact corresponds_parenthesized operands opening
      | none => exact corresponds_literalOrLater operands le _

theorem corresponds_firstExtension (le : low ≤ high) (left : Tree)
    (candidates : List (UInt32 × Production)) (cursor : Cursor) :
    CorrespondStep invariant (firstExtension ⟨grammar, schema, low⟩ lower left candidates cursor)
      (firstExtension ⟨grammar, schema, high⟩ upper left candidates cursor) := by
  induction candidates with
  | nil => exact .of_pure _
  | cons candidate candidates ih =>
      rw [firstExtension, firstExtension]
      refine (corresponds_matchExtending operands _ _ _ _).bind fun found => ?_
      cases found with
      | none => exact ih
      | some found => exact (corresponds_finish le _ _ _ _).bind fun _ => .of_pure _

theorem corresponds_extend (le : low ≤ high) (candidates : List (UInt32 × Production))
    (steps : Nat) (parsed : Parsed) :
    CorrespondStep invariant (extend ⟨grammar, schema, low⟩ lower candidates steps parsed)
      (extend ⟨grammar, schema, high⟩ upper candidates steps parsed) := by
  induction steps generalizing parsed with
  | zero => exact .of_pure _
  | succ steps ih =>
      obtain ⟨left, cursor⟩ := parsed
      rw [extend, extend]
      refine (corresponds_firstExtension operands le left candidates cursor).bind fun outcome => ?_
      cases outcome with
      | none => exact .of_pure _
      | some extended => exact ih extended

end Candidates

/-- An expression under a limit corresponds to the same expression under a higher one, where as much
or more is left of the limit. -/
theorem corresponds_expression {grammar : Grammar} {schema : Schema} {low high : Nat}
    (le : low ≤ high) {depth deeper : Nat} (more : depth ≤ deeper) :
    CorrespondOperands invariant (expression ⟨grammar, schema, low⟩ depth)
      (expression ⟨grammar, schema, high⟩ deeper) := by
  induction depth generalizing deeper with
  | zero => exact fun floor cursor => .of_deep rfl _
  | succ depth ih =>
      cases deeper with
      | zero => cases more
      | succ deeper =>
          intro floor cursor
          have operands := ih (Nat.le_of_succ_le_succ more)
          refine (corresponds_atom operands le cursor).bind fun parsed => ?_
          exact corresponds_extend operands le _ _ parsed

end Mixfix.Parse
