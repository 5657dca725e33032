import Mixfix.Parse.Candidate
import Mixfix.Proofs.Parse.Runs

/-!
# What a matched pattern read

A successful match of a pattern is a walk through its elements, each read where the one before it
ended. `Reads` is this walk as a relation, over any relation `Operand` for what an operand of a
precedence can be: exact texts stand where they were found, operands satisfy their constraints,
literals are captured, and a group is walked through as a whole or left out.

**Soundness.** Whatever matching elements ends with as a match, a walk leads there
(`matchElements_reads`).

**Commitment.** Once an exact text was found, matching either succeeds or fails as committed
(`matchElements_committed`). So a pattern that starts with a text is given up only where the text
does not stand (`token?_eq_none_of_gives_none`).

**Completeness.** A walk through texts and operands, over the operands that are always read, is
what matching always ends with (`Reads.always`).
-/

set_option autoImplicit false

namespace Mixfix.Parse

/-! ## Walks -/

/-- A walk through elements, from a progress to a progress. -/
inductive Reads (setting : Setting) (Operand : Precedence → Cursor → Parsed → Prop)
    (precedence : Precedence) : List (Element Descriptor) → Progress → Progress → Prop
  | done (progress : Progress) : Reads setting Operand precedence [] progress progress
  | text {token : String} {lexeme : Lexeme String} {rest : List (Element Descriptor)}
      {progress final : Progress}
      (found : Lexeme.token? setting.grammar.tokens token progress.cursor = some lexeme)
      (further : Reads setting Operand precedence rest
        { progress.moved lexeme.span.start lexeme.next with committed := true } final) :
      Reads setting Operand precedence (.text token :: rest) progress final
  | literal {kind : LiteralKind} {name : Option String} {capture : Capture}
      {rest : List (Element Descriptor)} {progress final : Progress}
      (captured : capture? setting.schema kind progress.cursor = .ok (some capture))
      (further : Reads setting Operand precedence rest
        ((progress.moved capture.start capture.next).bound name capture.binding) final) :
      Reads setting Operand precedence (.literal kind name :: rest) progress final
  | operand {role : Role} {constraint : Option Descriptor} {name : Option String} {tree : Tree}
      {next : Cursor} {rest : List (Element Descriptor)} {progress final : Progress}
      (read : Operand (role.floor precedence) progress.cursor (tree, next))
      (accepted : ∀ type ∈ constraint, type.accepts tree.type = true)
      (further : Reads setting Operand precedence rest
        ((progress.moved tree.span.start next).bound name (.tree tree)) final) :
      Reads setting Operand precedence (.operand role constraint name :: rest) progress final
  | present {group rest : List (Element Descriptor)} {progress inner final : Progress}
      (walked : Reads setting Operand precedence group (.begin progress.cursor) inner)
      (further : Reads setting Operand precedence rest (progress.joined inner) final) :
      Reads setting Operand precedence (.optional group :: rest) progress final
  | absent {group rest : List (Element Descriptor)} {progress final : Progress}
      (further : Reads setting Operand precedence rest progress final) :
      Reads setting Operand precedence (.optional group :: rest) progress final

variable {setting : Setting} {operand : Operand} {node : String} {precedence : Precedence}

/-! ## Soundness -/

/-- The operands that can be read. -/
def Givable (operand : Operand) (floor : Precedence) (cursor : Cursor) (parsed : Parsed) : Prop :=
  (operand floor cursor).Gives parsed

/-- The operands that are read whatever the trail is. -/
def Reliable (operand : Operand) (floor : Precedence) (cursor : Cursor) (parsed : Parsed) : Prop :=
  (operand floor cursor).Yields parsed

/-- A matched operand was read and satisfies its constraint. -/
theorem matchOperand_matched {floor : Precedence} {constraint : Option Descriptor}
    {name : Option String} {progress final : Progress}
    (ends : Ends (matchOperand operand node floor constraint name progress) (.matched final)) :
    ∃ tree next, Givable operand floor progress.cursor (tree, next) ∧
      (∀ type ∈ constraint, type.accepts tree.type = true) ∧
      final = (progress.moved tree.span.start next).bound name (.tree tree) := by
  obtain ⟨outcome, ran, rest⟩ := ends.bind
  cases outcome with
  | error failure => cases Ends.of_pure rest
  | ok parsed =>
      obtain ⟨tree, next⟩ := parsed
      cases constraint with
      | none =>
          have same := Ends.of_pure rest
          exact ⟨tree, next, ran, by simp, Outcome.matched.inj same⟩
      | some type =>
          by_cases accepts : type.accepts tree.type = true
          · simp only [accepts, if_true] at rest
            have same := Ends.of_pure rest
            exact ⟨tree, next, ran, by simpa using accepts, Outcome.matched.inj same⟩
          · simp only [accepts, fails] at rest
            obtain ⟨_, _, failed⟩ := rest.bind
            cases Ends.of_pure failed

/-- A matched literal was captured. -/
theorem matchLiteral_matched {kind : LiteralKind} {name : Option String}
    {progress final : Progress}
    (ends : Ends (matchLiteral setting kind name progress) (.matched final)) :
    ∃ capture, capture? setting.schema kind progress.cursor = .ok (some capture) ∧
      final = (progress.moved capture.start capture.next).bound name capture.binding := by
  unfold matchLiteral at ends
  split at ends
  · obtain ⟨_, _, failed⟩ := ends.bind
    cases Ends.of_pure failed
  · cases Ends.of_pure ends
  · next capture captured =>
      exact ⟨capture, captured, Outcome.matched.inj (Ends.of_pure ends)⟩

mutual
theorem matchElement_reads : ∀ (element : Element Descriptor) {progress middle : Progress},
    Ends (matchElement setting operand node precedence element progress) (.matched middle) →
    ∀ {rest : List (Element Descriptor)} {final : Progress},
      Reads setting (Givable operand) precedence rest middle final →
      Reads setting (Givable operand) precedence (element :: rest) progress final
  | .text token, progress, middle, ends, rest, final, further => by
      rw [matchElement] at ends
      split at ends
      · next lexeme found =>
          cases Ends.of_pure ends
          exact .text found further
      · cases Ends.of_pure ends
  | .literal kind name, progress, middle, ends, rest, final, further => by
      rw [matchElement] at ends
      obtain ⟨capture, captured, rfl⟩ := matchLiteral_matched ends
      exact .literal captured further
  | .operand role constraint name, progress, middle, ends, rest, final, further => by
      rw [matchElement] at ends
      obtain ⟨tree, next, read, accepted, rfl⟩ := matchOperand_matched ends
      exact .operand read accepted further
  | .optional group, progress, middle, ends, rest, final, further => by
      rw [matchElement] at ends
      obtain ⟨outcome, walked, after⟩ := ends.bind
      cases outcome with
      | matched inner =>
          cases Ends.of_pure after
          exact .present (matchElements_reads group walked) further
      | unmatched =>
          cases Ends.of_pure after
          exact .absent further
      | failed failure committed =>
          dsimp only at after
          split at after
          · cases Ends.of_pure after
          · obtain ⟨_, _, kept⟩ := after.bind
            cases Ends.of_pure kept
            exact .absent further

/-- Where matching elements ends with a match, a walk leads. -/
theorem matchElements_reads : ∀ (elements : List (Element Descriptor)) {progress final : Progress},
    Ends (matchElements setting operand node precedence elements progress) (.matched final) →
    Reads setting (Givable operand) precedence elements progress final
  | [], progress, final, ends => by
      rw [matchElements] at ends
      cases Ends.of_pure ends
      exact .done _
  | element :: elements, progress, final, ends => by
      rw [matchElements] at ends
      obtain ⟨outcome, start, after⟩ := ends.bind
      cases outcome with
      | matched middle =>
          exact matchElement_reads element start (matchElements_reads elements after)
      | unmatched =>
          dsimp only at after
          split at after
          · obtain ⟨_, _, failed⟩ := after.bind
            cases Ends.of_pure failed
          · cases Ends.of_pure after
      | failed failure committed => cases Ends.of_pure after
end

/-! ## Commitment -/

/-- An outcome of a candidate whose exact text was found: a match that stays committed, or a
committed failure. An element of it may still be missing. -/
def Outcome.Bound : Outcome → Prop
  | .matched progress => progress.committed = true
  | .unmatched => True
  | .failed _ committed => committed = true

theorem bound_committed (progress : Progress) (name : Option String) (binding : Binding) :
    (progress.bound name binding).committed = progress.committed := by
  cases name <;> rfl

theorem fails_bound {failure : Failure} {outcome : Outcome}
    (ends : Ends (fails failure true) outcome) : outcome.Bound := by
  obtain ⟨_, _, rest⟩ := ends.bind
  cases Ends.of_pure rest
  rfl

theorem matchLiteral_bound {kind : LiteralKind} {name : Option String} {progress : Progress}
    {outcome : Outcome} (committed : progress.committed = true)
    (ends : Ends (matchLiteral setting kind name progress) outcome) : outcome.Bound := by
  unfold matchLiteral at ends
  split at ends
  · rw [committed] at ends
    exact fails_bound ends
  · cases Ends.of_pure ends
    trivial
  · cases Ends.of_pure ends
    exact (bound_committed _ _ _).trans committed

theorem matchOperand_bound {floor : Precedence} {constraint : Option Descriptor}
    {name : Option String} {progress : Progress} {outcome : Outcome}
    (committed : progress.committed = true)
    (ends : Ends (matchOperand operand node floor constraint name progress) outcome) :
    outcome.Bound := by
  obtain ⟨read, ran, rest⟩ := ends.bind
  cases read with
  | error failure =>
      cases Ends.of_pure rest
      exact committed
  | ok parsed =>
      obtain ⟨tree, next⟩ := parsed
      cases constraint with
      | none =>
          cases Ends.of_pure rest
          exact (bound_committed _ _ _).trans committed
      | some type =>
          dsimp only at rest
          split at rest
          · cases Ends.of_pure rest
            exact (bound_committed _ _ _).trans committed
          · rw [committed] at rest
            exact fails_bound rest

theorem matchElement_bound (element : Element Descriptor) {progress : Progress}
    {outcome : Outcome} (committed : progress.committed = true)
    (ends : Ends (matchElement setting operand node precedence element progress) outcome) :
    outcome.Bound := by
  cases element with
  | text token =>
      rw [matchElement] at ends
      split at ends <;> cases Ends.of_pure ends
      · rfl
      · trivial
  | literal kind name =>
      rw [matchElement] at ends
      exact matchLiteral_bound committed ends
  | operand role constraint name =>
      rw [matchElement] at ends
      exact matchOperand_bound committed ends
  | optional group =>
      rw [matchElement] at ends
      obtain ⟨inner, _, after⟩ := ends.bind
      cases inner with
      | matched inner =>
          cases Ends.of_pure after
          simp [Outcome.Bound, Progress.joined, committed]
      | unmatched =>
          cases Ends.of_pure after
          exact committed
      | failed failure _ =>
          dsimp only at after
          split at after
          · cases Ends.of_pure after
            rfl
          · obtain ⟨_, _, kept⟩ := after.bind
            cases Ends.of_pure kept
            exact committed

/-- From a progress that is committed, matching elements ends with a match or a committed
failure. -/
theorem matchElements_committed (elements : List (Element Descriptor)) {progress : Progress}
    {outcome : Outcome} (committed : progress.committed = true)
    (ends : Ends (matchElements setting operand node precedence elements progress) outcome) :
    outcome.Bound ∧ outcome ≠ .unmatched := by
  induction elements generalizing progress with
  | nil =>
      rw [matchElements] at ends
      cases Ends.of_pure ends
      exact ⟨committed, by simp⟩
  | cons element elements ih =>
      rw [matchElements] at ends
      obtain ⟨middle, start, after⟩ := ends.bind
      have bound := matchElement_bound element committed start
      cases middle with
      | matched middle => exact ih bound after
      | unmatched =>
          simp only [committed, if_true] at after
          refine ⟨fails_bound after, ?_⟩
          obtain ⟨_, _, failed⟩ := after.bind
          cases Ends.of_pure failed
          simp
      | failed failure _ =>
          cases Ends.of_pure after
          exact ⟨bound, by simp⟩

/-! ## Candidates that start with an exact text -/

/-- Matching goes on behind an exact text that was found. -/
theorem matchElements_text {token : String} {lexeme : Lexeme String}
    {rest : List (Element Descriptor)} {progress : Progress}
    (found : Lexeme.token? setting.grammar.tokens token progress.cursor = some lexeme) :
    matchElements setting operand node precedence (.text token :: rest) progress =
      matchElements setting operand node precedence rest
        { progress.moved lexeme.span.start lexeme.next with committed := true } := by
  rw [matchElements, matchElement, found]
  rfl

/-- A match of a pattern was walked through. -/
theorem reads_of_matchPattern {production : Production} {elements : List (Element Descriptor)}
    {cursor : Cursor} {found : Match}
    (gives : (matchPattern setting operand production precedence elements cursor).Gives
      (some found)) :
    ∃ final, Reads setting (Givable operand) precedence elements (.begin cursor) final ∧
      found = ⟨final.bindings, final.start.getD cursor.offset, final.cursor⟩ := by
  obtain ⟨outcome, ran, rest⟩ := gives.bind
  have ends := Step.Gives.lift ran
  cases outcome with
  | matched final =>
      have same := Option.some.inj (Step.Gives.of_pure rest)
      exact ⟨final, matchElements_reads elements ends, same⟩
  | unmatched => cases Step.Gives.of_pure rest
  | failed failure committed =>
      dsimp only at rest
      split at rest
      · exact absurd rest (Step.not_gives_settle failure _)
      · obtain ⟨_, _, none⟩ := rest.bind
        cases Step.Gives.of_pure none

/-- A pattern that starts with an exact text is given up only where the text does not stand. -/
theorem token?_eq_none_of_gives_none {production : Production} {token : String}
    {rest : List (Element Descriptor)} {cursor : Cursor}
    (gives : (matchPattern setting operand production precedence (.text token :: rest)
      cursor).Gives none) :
    Lexeme.token? setting.grammar.tokens token cursor = none := by
  cases found : Lexeme.token? setting.grammar.tokens token cursor with
  | none => rfl
  | some lexeme =>
      exfalso
      obtain ⟨outcome, ran, after⟩ := gives.bind
      have ends := Step.Gives.lift ran
      rw [matchElements_text found] at ends
      obtain ⟨bound, matched⟩ := matchElements_committed rest rfl ends
      cases outcome with
      | matched final => cases Step.Gives.of_pure after
      | unmatched => exact matched rfl
      | failed failure committed =>
          have isCommitted : committed = true := bound
          simp only [isCommitted, Bool.or_true, if_true] at after
          exact Step.not_gives_settle failure _ after

/-! ## Completeness -/

/-- Elements that are exact texts or operands. -/
def Element.isPlain : Element Descriptor → Bool
  | .text _ => true
  | .operand _ _ _ => true
  | _ => false

/-- What a walk over reliable operands leads to, matching texts and operands always ends with. -/
theorem Reads.always {elements : List (Element Descriptor)} {progress final : Progress}
    (reads : Reads setting (Reliable operand) precedence elements progress final)
    (plain : ∀ element ∈ elements, Element.isPlain element = true) :
    Always (matchElements setting operand node precedence elements progress) (.matched final) := by
  induction reads with
  | done progress =>
      rw [matchElements]
      exact .of_pure _
  | text found further ih =>
      rw [matchElements_text found]
      exact ih fun element mem => plain element (List.mem_cons_of_mem _ mem)
  | operand read accepted further ih =>
      rename_i role constraint name tree next rest progress final
      have matched : Always (matchElement setting operand node precedence
          (.operand role constraint name) progress)
          (.matched ((progress.moved tree.span.start next).bound name (.tree tree))) := by
        rw [matchElement]
        refine Always.bind read ?_
        cases constraint with
        | none => exact .of_pure _
        | some type =>
            have accepts := accepted type rfl
            simp only [accepts, if_true]
            exact .of_pure _
      rw [matchElements]
      exact matched.bind (ih fun element mem => plain element (List.mem_cons_of_mem _ mem))
  | literal => simpa [Element.isPlain] using plain _ List.mem_cons_self
  | present => simpa [Element.isPlain] using plain _ List.mem_cons_self
  | absent => simpa [Element.isPlain] using plain _ List.mem_cons_self

/-- A pattern that a walk over reliable operands leads through is matched. -/
theorem Reads.matchPattern {production : Production} {elements : List (Element Descriptor)}
    {cursor : Cursor} {final : Progress}
    (reads : Reads setting (Reliable operand) precedence elements (.begin cursor) final)
    (plain : ∀ element ∈ elements, Element.isPlain element = true) :
    (matchPattern setting operand production precedence elements cursor).Yields
      (some ⟨final.bindings, final.start.getD cursor.offset, final.cursor⟩) :=
  Step.Yields.bind (Step.Yields.lift (reads.always plain)) (.of_pure _)

/-- A pattern is given up where the text that it starts with does not stand. -/
theorem matchPattern_yields_none {production : Production} {token : String}
    {rest : List (Element Descriptor)} {cursor : Cursor}
    (missing : Lexeme.token? setting.grammar.tokens token cursor = none) :
    (matchPattern setting operand production precedence (.text token :: rest) cursor).Yields
      none := by
  have unmatched : Always (matchElements setting operand production.name precedence
      (.text token :: rest) (.begin cursor)) .unmatched := by
    rw [matchElements, matchElement]
    simp only [Progress.begin, missing]
    exact .of_pure _
  exact Step.Yields.bind (Step.Yields.lift unmatched) (.of_pure _)

end Mixfix.Parse
