import Mixfix.Proofs.Parse.Atoms
import Mixfix.Proofs.Parse.Selection

/-!
# What a parse leaves on the trail

A candidate that stands ahead but does not take the expression before it leaves a note, and is given
up. The note stays on the trail, also where another candidate extends the expression and the parse
succeeds. `Step.Leaves` says of a step that it succeeds with a result and which notes it leaves, in
their order; it is `Step.Yields` with an account of the trail.
-/

set_option autoImplicit false

namespace Mixfix

variable {α β : Type}

namespace Trail

/-- The trail after notes were left on it. -/
def noted (trail : Trail) (notes : List Failure) : Trail :=
  notes.foldl (fun trail note => (trail.see note).record note) trail

theorem noted_append (trail : Trail) (notes more : List Failure) :
    trail.noted (notes ++ more) = (trail.noted notes).noted more :=
  List.foldl_append

/-- The failure that is kept after notes were left is one of them or was kept before, and none of
these outranks it. -/
theorem furthest_noted (trail : Trail) (notes : List Failure) :
    (∀ best, (trail.noted notes).furthest = some best →
      best ∈ notes ∨ trail.furthest = some best) ∧
    ∀ note, note ∈ notes ∨ trail.furthest = some note →
      ∃ best, (trail.noted notes).furthest = some best ∧ note.outranks best = false := by
  induction notes generalizing trail with
  | nil =>
      refine ⟨fun best kept => .inr kept, ?_⟩
      rintro note (mem | kept)
      · cases mem
      · exact ⟨note, kept, Failure.outranks_irrefl⟩
  | cons first notes ih =>
      obtain ⟨kept, bound⟩ := ih ((trail.see first).record first)
      obtain ⟨best, furthest, origin, worse, former⟩ := furthest_record first (trail.see first)
      obtain ⟨final, last, covers⟩ := bound best (.inr furthest)
      constructor
      · intro other same
        rcases kept other same with later | before
        · exact .inl (List.mem_cons_of_mem _ later)
        · cases furthest.symm.trans before
          rcases origin with rfl | earlier
          · exact .inl List.mem_cons_self
          · exact .inr earlier
      · rintro note (mem | before)
        · rcases List.mem_cons.mp mem with rfl | later
          · exact ⟨final, last, Failure.outranks_trans worse covers⟩
          · exact bound note (.inl later)
        · exact ⟨final, last, Failure.outranks_trans (former note before) covers⟩

end Trail

/-! ## Leaving notes -/

/-- The action ends with the result whatever the trail is, and leaves the notes on it. -/
def Leaves (action : StateM Trail α) (result : α) (notes : List Failure) : Prop :=
  ∀ before, action.run before = (result, before.noted notes)

namespace Leaves

theorem of_pure (a : α) : Leaves (pure a) a [] := fun _ => rfl

theorem bind {first : StateM Trail α} {next : α → StateM Trail β} {middle : α} {result : β}
    {notes more : List Failure} (start : Leaves first middle notes)
    (rest : Leaves (next middle) result more) : Leaves (first >>= next) result (notes ++ more) := by
  intro before
  rw [StateT.run_bind, start before, Trail.noted_append]
  exact rest _

end Leaves

namespace Step

/-- The step succeeds with the result whatever the trail is, and leaves the notes on it. -/
def Leaves (step : Step α) (result : α) (notes : List Failure) : Prop :=
  Mixfix.Leaves step.run (.ok result) notes

theorem Leaves.of_pure (a : α) : Leaves (pure a) a [] := Mixfix.Leaves.of_pure (Except.ok a)

theorem Leaves.bind {first : Step α} {next : α → Step β} {middle : α} {result : β}
    {notes more : List Failure} (start : Leaves first middle notes)
    (rest : Leaves (next middle) result more) : Leaves (first >>= next) result (notes ++ more) := by
  intro before
  rw [run_bind, start before, Trail.noted_append]
  exact rest _

/-- A step that is followed by one that leaves no notes. -/
theorem Leaves.bind_silent {first : Step α} {next : α → Step β} {middle : α} {result : β}
    {notes : List Failure} (start : Leaves first middle notes)
    (rest : Leaves (next middle) result []) : Leaves (first >>= next) result notes := by
  rw [← List.append_nil notes]
  exact start.bind rest

theorem Leaves.lift {action : StateM Trail α} {result : α} {notes : List Failure}
    (leaves : Mixfix.Leaves action result notes) :
    Leaves (ExceptT.lift action : Step α) result notes := by
  intro before
  have ran : (ExceptT.lift action : Step α).run.run before =
      (.ok (action.run before).1, (action.run before).2) := rfl
  rw [ran, leaves before]

theorem leaves_note (failure : Failure) : Leaves (note failure) () [failure] := fun _ => rfl

end Step

namespace Parse

variable {setting : Setting} {operand : Operand} {precedence : Precedence} {cursor next : Cursor}
  {tree left : Tree} {notes more : List Failure} {production : Production}

/-! ## Patterns -/

section Patterns

variable {node : String} {progress : Progress} {outcome : Outcome}
  {elements : List (Element Descriptor)}

theorem leaves_matchElements_nil :
    Leaves (matchElements setting operand node precedence [] progress) (.matched progress) [] := by
  rw [matchElements]
  exact .of_pure _

theorem leaves_matchElements_operand {role : Role} {constraint : Option Descriptor}
    {name : Option String}
    (read : (operand (role.floor precedence) progress.cursor).Leaves (tree, next) notes)
    (accepted : ∀ type ∈ constraint, type.accepts tree.type = true)
    (further : Leaves (matchElements setting operand node precedence elements
      ((progress.moved tree.span.start next).bound name (.tree tree))) outcome more) :
    Leaves (matchElements setting operand node precedence
      (.operand role constraint name :: elements) progress) outcome (notes ++ more) := by
  have matched : Leaves (matchElement setting operand node precedence
      (.operand role constraint name) progress)
      (.matched ((progress.moved tree.span.start next).bound name (.tree tree))) notes := by
    rw [matchElement, ← List.append_nil notes]
    refine Leaves.bind read ?_
    cases constraint with
    | none => exact .of_pure _
    | some type =>
        have accepts := accepted type rfl
        simp only [accepts, if_true]
        exact .of_pure _
  rw [matchElements]
  exact matched.bind further

theorem leaves_matchPattern {final : Progress}
    (matched : Leaves (matchElements setting operand production.name precedence elements
      (.begin cursor)) (.matched final) notes) :
    (matchPattern setting operand production precedence elements cursor).Leaves
      (some ⟨final.bindings, final.start.getD cursor.offset, final.cursor⟩) notes := by
  exact Step.Leaves.bind_silent (Step.Leaves.lift matched) (.of_pure _)

theorem leaves_matchPattern_none {token : String}
    (missing : Lexeme.token? setting.grammar.tokens token cursor = none) :
    (matchPattern setting operand production precedence (.text token :: elements) cursor).Leaves
      none [] := by
  have unmatched : Leaves (matchElements setting operand production.name precedence
      (.text token :: elements) (.begin cursor)) .unmatched [] := by
    rw [matchElements, matchElement]
    simp only [Progress.begin, missing]
    exact .of_pure _
  exact Step.Leaves.bind_silent (Step.Leaves.lift unmatched) (.of_pure _)

end Patterns

/-! ## Candidates -/

/-- The note of a candidate that stands ahead and does not take the expression before it. -/
def passingNotes (grammar : Grammar) (left : Tree) (cursor : Cursor) (production : Production) :
    List Failure :=
  match leftConstraint production with
  | some type =>
    if !type.accepts left.type && ahead grammar production cursor then
      [⟨left.span.start, .leftOperand production.name type left.type⟩]
    else []
  | none => []

theorem leaves_noteLeft (led : isLed production = true) (type : Descriptor) :
    (noteLeft setting production left type cursor).Leaves ()
      (if ahead setting.grammar production cursor then
        [⟨left.span.start, .leftOperand production.name type left.type⟩] else []) := by
  unfold isLed at led
  split at led
  · next first token rest shape =>
      simp only [noteLeft, ahead, shape]
      split
      · exact Step.leaves_note _
      · exact .of_pure ()
  · cases led

theorem leaves_matchExtending_none (led : isLed production = true)
    (passed : (takes production left && ahead setting.grammar production cursor) = false) :
    (matchExtending setting operand production precedence left cursor).Leaves none
      (passingNotes setting.grammar left cursor production) := by
  have missing : takes production left = true →
      (matchPattern setting operand production precedence production.elements.tail cursor).Leaves
        none [] := by
    intro taken
    unfold isLed at led
    split at led
    · next first token rest shape =>
        rw [taken, Bool.true_and, ahead_of_elements shape, Option.isSome_eq_false_iff,
          Option.isNone_iff_eq_none] at passed
        rw [shape]
        exact leaves_matchPattern_none passed
    · cases led
  unfold matchExtending passingNotes
  unfold takes at missing
  cases constraint : leftConstraint production with
  | none => exact missing (by rw [constraint])
  | some type =>
      rw [constraint] at missing
      dsimp only at missing ⊢
      cases accepts : type.accepts left.type with
      | true => exact missing accepts
      | false =>
          simp only [Bool.not_false, Bool.true_and, Bool.false_eq_true, if_false]
          exact (leaves_noteLeft led type).bind_silent (.of_pure _)

theorem matchExtending_of_takes (taken : takes production left = true) :
    matchExtending setting operand production precedence left cursor =
      matchPattern setting operand production precedence production.elements.tail cursor := by
  unfold matchExtending
  unfold takes at taken
  cases constraint : leftConstraint production with
  | none => rfl
  | some type =>
      rw [constraint] at taken
      exact if_pos taken

/-- The notes of candidates that are passed over. -/
def notesOfPassed (grammar : Grammar) (left : Tree) (cursor : Cursor)
    (candidates : List (UInt32 × Production)) : List Failure :=
  candidates.flatMap fun candidate => passingNotes grammar left cursor candidate.2

/-- A candidate is passed over if it does not take the expression or does not stand ahead. -/
def IsPassed (grammar : Grammar) (left : Tree) (cursor : Cursor)
    (candidates : List (UInt32 × Production)) : Prop :=
  ∀ candidate ∈ candidates, isLed candidate.2 = true ∧
    (takes candidate.2 left && ahead grammar candidate.2 cursor) = false

theorem leaves_firstExtension_none {candidates : List (UInt32 × Production)}
    (passed : IsPassed setting.grammar left cursor candidates) :
    (firstExtension setting operand left candidates cursor).Leaves none
      (notesOfPassed setting.grammar left cursor candidates) := by
  induction candidates with
  | nil => exact .of_pure _
  | cons candidate candidates ih =>
      obtain ⟨level, other⟩ := candidate
      obtain ⟨led, missed⟩ := passed _ List.mem_cons_self
      rw [firstExtension, notesOfPassed, List.flatMap_cons]
      exact (leaves_matchExtending_none led missed).bind
        (ih fun another mem => passed another (List.mem_cons_of_mem _ mem))

theorem finish_of_shallow {bindings : Bindings} {start : Nat}
    (shallow : (nodeOf production bindings start next).depth ≤ setting.limit) :
    finish setting production bindings start next =
      pure (nodeOf production bindings start next, next) := by
  unfold finish
  exact if_neg (Nat.not_lt.mpr shallow)

theorem leaves_firstExtension {earlier later : List (UInt32 × Production)} {level : UInt32}
    {found : Match} (passed : IsPassed setting.grammar left cursor earlier)
    (taken : takes production left = true)
    (matched : (matchPattern setting operand production (.level level) production.elements.tail
      cursor).Leaves (some found) notes)
    (shallow : (nodeOf production (withLeft production left found.bindings) left.span.start
      found.next).depth ≤ setting.limit) :
    (firstExtension setting operand left (earlier ++ (level, production) :: later) cursor).Leaves
      (some (nodeOf production (withLeft production left found.bindings) left.span.start found.next,
        found.next))
      (notesOfPassed setting.grammar left cursor earlier ++ notes) := by
  induction earlier with
  | nil =>
      rw [List.nil_append, firstExtension, matchExtending_of_takes taken]
      refine matched.bind_silent ?_
      dsimp only
      rw [finish_of_shallow shallow]
      exact .of_pure _
  | cons candidate earlier ih =>
      obtain ⟨level', other⟩ := candidate
      obtain ⟨led, missed⟩ := passed _ List.mem_cons_self
      rw [List.cons_append, firstExtension, notesOfPassed, List.flatMap_cons, List.append_assoc]
      exact (leaves_matchExtending_none led missed).bind
        (ih fun another mem => passed another (List.mem_cons_of_mem _ mem))

theorem leaves_firstStart {earlier later : List Production} {found : Match}
    (passed : ∀ other ∈ earlier, (matchPattern setting operand other other.precedence
      other.elements cursor).Leaves none [])
    (matched : (matchPattern setting operand production production.precedence
      production.elements cursor).Leaves (some found) notes)
    (shallow : (nodeOf production found.bindings found.start found.next).depth ≤ setting.limit) :
    (firstStart setting operand (earlier ++ production :: later) cursor).Leaves
      (some (nodeOf production found.bindings found.start found.next, found.next)) notes := by
  induction earlier with
  | nil =>
      rw [List.nil_append, firstStart]
      refine matched.bind_silent ?_
      dsimp only
      rw [finish_of_shallow shallow]
      exact .of_pure _
  | cons other earlier ih =>
      rw [List.cons_append, firstStart]
      exact (passed other List.mem_cons_self).bind
        (ih fun another mem => passed another (List.mem_cons_of_mem _ mem))

theorem leaves_firstStart_none {productions : List Production}
    (passed : ∀ other ∈ productions, (matchPattern setting operand other other.precedence
      other.elements cursor).Leaves none []) :
    (firstStart setting operand productions cursor).Leaves none [] := by
  induction productions with
  | nil => exact .of_pure _
  | cons other productions ih =>
      rw [firstStart]
      exact (passed other List.mem_cons_self).bind
        (ih fun another mem => passed another (List.mem_cons_of_mem _ mem))

/-! ## Atoms -/

/-- Without productions of the precedence of atoms, an atom is a group or comes later. -/
theorem atom_of_noAtoms (noAtoms : setting.grammar.atoms = []) :
    atom setting operand cursor =
      match Lexeme.token? setting.grammar.tokens openParen cursor with
      | some opening => parenthesized setting operand opening
      | none => literalOrLater setting operand cursor.skipBlanks := by
  have nothing : firstStart setting operand setting.grammar.atoms cursor.skipBlanks = pure none := by
    rw [noAtoms, firstStart]
  rw [← Lexeme.token?_skipBlanks]
  unfold atom
  dsimp only
  rw [nothing]
  exact pure_bind none _

/-! ## Chains of extensions -/

/-- Reading an expression comes to where a tree was read and is to be extended, and leaves the notes
up to there. -/
def Continues (setting : Setting) (operand : Operand) (floor : Precedence) (cursor : Cursor)
    (parsed : Parsed) (notes : List Failure) : Prop :=
  ∀ result more,
    (∀ steps, parsed.2.rest.length < steps →
      (extend setting operand (setting.grammar.extendingFrom floor) steps parsed).Leaves result
        more) →
    (climb setting operand floor cursor).Leaves result (notes ++ more)

namespace Continues

variable {floor : Precedence} {parsed extended : Parsed}

theorem of_atom (read : (atom setting operand cursor).Leaves parsed notes) :
    Continues setting operand floor cursor parsed notes :=
  fun _ _ rest => read.bind (rest _ (Nat.lt_succ_self _))

theorem extend (continues : Continues setting operand floor cursor parsed notes)
    (extension : (firstExtension setting operand parsed.1 (setting.grammar.extendingFrom floor)
      parsed.2).Leaves (some extended) more)
    (shorter : extended.2.rest.length < parsed.2.rest.length) :
    Continues setting operand floor cursor extended (notes ++ more) := by
  intro result others rest
  rw [List.append_assoc]
  refine continues result _ fun steps enough => ?_
  cases steps with
  | zero => exact absurd enough (Nat.not_lt_zero _)
  | succ steps =>
      exact extension.bind (rest steps (Nat.lt_of_lt_of_le shorter (Nat.le_of_lt_succ enough)))

theorem leaves (continues : Continues setting operand floor cursor parsed notes)
    (stopped : (firstExtension setting operand parsed.1 (setting.grammar.extendingFrom floor)
      parsed.2).Leaves none []) :
    (climb setting operand floor cursor).Leaves parsed notes := by
  rw [← List.append_nil notes]
  refine continues parsed [] fun steps enough => ?_
  cases steps with
  | zero => exact absurd enough (Nat.not_lt_zero _)
  | succ steps => exact stopped.bind_silent (.of_pure _)

end Continues

end Parse

end Mixfix
