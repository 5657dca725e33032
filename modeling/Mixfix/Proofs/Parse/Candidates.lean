import Mathlib.Logic.Relation
import Mixfix.Parse.Expression
import Mixfix.Proofs.Parse.Patterns

/-!
# Candidates in turn

Productions are tried one after the other, and the first one that matches makes the node. What the
search gives was made by one of the candidates; that it gives nothing says something about each of
them. In the other direction the search yields the match of a candidate when those before it yield
nothing.

What every extension keeps holds of the extended expression (`holds_of_extend`). An expression is
extended until no candidate extends it (`extend_gives`), provided that each extension takes some of
the characters ahead: this is what the count of steps is for. A chain of extensions that ends where
no candidate goes on is what extending yields (`extend_yields`).
-/

set_option autoImplicit false

namespace Mixfix.Parse

variable {setting : Setting} {operand : Operand}

/-! ## Nodes -/

/-- The node of a match that starts at an offset. -/
def nodeOf (production : Production) (bindings : Bindings) (start : Nat) (next : Cursor) : Tree :=
  Tree.ofMatch production.name bindings production.result (Extent.bare start next.offset)

theorem finish_gives {production : Production} {bindings : Bindings} {start : Nat}
    {next : Cursor} {parsed : Parsed}
    (gives : (finish setting production bindings start next).Gives parsed) :
    parsed = (nodeOf production bindings start next, next) ∧
      (nodeOf production bindings start next).depth ≤ setting.limit := by
  simp only [finish] at gives
  split at gives
  · exact absurd gives (Step.not_gives_raise _ _)
  · next shallow => exact ⟨Step.Gives.of_pure gives, Nat.le_of_not_lt shallow⟩

theorem finish_yields {production : Production} {bindings : Bindings} {start : Nat}
    {next : Cursor} (shallow : (nodeOf production bindings start next).depth ≤ setting.limit) :
    (finish setting production bindings start next).Yields
      (nodeOf production bindings start next, next) := by
  rw [nodeOf] at shallow ⊢
  simp only [finish]
  rw [if_neg (Nat.not_lt.mpr shallow)]
  exact .of_pure _

/-! ## Productions that start an expression -/

theorem firstStart_gives {productions : List Production} {cursor : Cursor} {parsed : Parsed}
    (gives : (firstStart setting operand productions cursor).Gives (some parsed)) :
    ∃ production ∈ productions, ∃ found,
      (matchPattern setting operand production production.precedence production.elements
        cursor).Gives (some found) ∧
      (finish setting production found.bindings found.start found.next).Gives parsed := by
  induction productions with
  | nil =>
      rw [firstStart] at gives
      cases Step.Gives.of_pure gives
  | cons production productions ih =>
      rw [firstStart] at gives
      obtain ⟨outcome, tried, rest⟩ := gives.bind
      cases outcome with
      | none =>
          obtain ⟨other, mem, found⟩ := ih rest
          exact ⟨other, List.mem_cons_of_mem _ mem, found⟩
      | some found =>
          obtain ⟨node, finished, same⟩ := rest.bind
          cases Step.Gives.of_pure same
          exact ⟨production, List.mem_cons_self, found, tried, finished⟩

theorem firstStart_gives_none {productions : List Production} {cursor : Cursor}
    (gives : (firstStart setting operand productions cursor).Gives none) :
    ∀ production ∈ productions,
      (matchPattern setting operand production production.precedence production.elements
        cursor).Gives none := by
  induction productions with
  | nil => simp
  | cons production productions ih =>
      rw [firstStart] at gives
      obtain ⟨outcome, tried, rest⟩ := gives.bind
      cases outcome with
      | none =>
          intro other mem
          rcases List.mem_cons.mp mem with rfl | later
          · exact tried
          · exact ih rest other later
      | some found =>
          obtain ⟨_, _, same⟩ := rest.bind
          cases Step.Gives.of_pure same

theorem firstStart_yields_none {productions : List Production} {cursor : Cursor}
    (nothing : ∀ production ∈ productions,
      (matchPattern setting operand production production.precedence production.elements
        cursor).Yields none) :
    (firstStart setting operand productions cursor).Yields none := by
  induction productions with
  | nil => exact .of_pure _
  | cons production productions ih =>
      rw [firstStart]
      exact (nothing production List.mem_cons_self).bind
        (ih fun other mem => nothing other (List.mem_cons_of_mem _ mem))

theorem firstStart_yields {earlier later : List Production} {production : Production}
    {cursor : Cursor} {found : Match} {parsed : Parsed}
    (nothing : ∀ other ∈ earlier,
      (matchPattern setting operand other other.precedence other.elements cursor).Yields none)
    (matched : (matchPattern setting operand production production.precedence
      production.elements cursor).Yields (some found))
    (finished : (finish setting production found.bindings found.start found.next).Yields parsed) :
    (firstStart setting operand (earlier ++ production :: later) cursor).Yields
      (some parsed) := by
  induction earlier with
  | nil =>
      rw [List.nil_append, firstStart]
      exact matched.bind (finished.bind (.of_pure _))
  | cons other earlier ih =>
      rw [List.cons_append, firstStart]
      exact (nothing other List.mem_cons_self).bind
        (ih fun another mem => nothing another (List.mem_cons_of_mem _ mem))

/-! ## Productions that extend an expression -/

/-- Whether a production takes an expression as its left operand. -/
def takes (production : Production) (left : Tree) : Bool :=
  match leftConstraint production with
  | some type => type.accepts left.type
  | none => true

/-- Whether the exact text behind the left operand of a production stands ahead. -/
def ahead (grammar : Grammar) (production : Production) (cursor : Cursor) : Bool :=
  match production.elements with
  | _ :: .text token :: _ => (Lexeme.token? grammar.tokens token cursor).isSome
  | _ => false

/-- Whether a production has an exact text behind its left operand. -/
def isLed (production : Production) : Bool :=
  match production.elements with
  | _ :: .text _ :: _ => true
  | _ => false

variable {production : Production} {precedence : Precedence} {left : Tree} {cursor : Cursor}

theorem yields_noteLeft (type : Descriptor) :
    (noteLeft setting production left type cursor).Yields () := by
  unfold noteLeft
  split
  · split
    · exact Step.yields_note _
    · exact .of_pure _
  · exact .of_pure _

theorem matchExtending_gives {found : Match}
    (gives : (matchExtending setting operand production precedence left cursor).Gives
      (some found)) :
    takes production left = true ∧
      (matchPattern setting operand production precedence production.elements.tail cursor).Gives
        (some found) := by
  unfold matchExtending at gives
  unfold takes
  revert gives
  cases leftConstraint production with
  | none => exact fun gives => ⟨rfl, gives⟩
  | some type =>
      intro gives
      by_cases accepts : type.accepts left.type = true
      · simp only [accepts, if_true] at gives
        exact ⟨accepts, gives⟩
      · simp only [accepts] at gives
        obtain ⟨_, _, rest⟩ := gives.bind
        cases Step.Gives.of_pure rest

theorem ahead_of_elements {grammar : Grammar} {first : Element Descriptor} {token : String}
    {rest : List (Element Descriptor)}
    (shape : production.elements = first :: .text token :: rest) :
    ahead grammar production cursor = (Lexeme.token? grammar.tokens token cursor).isSome := by
  simp [ahead, shape]

/-- A candidate that is led by an exact text is passed over only if it does not take the expression
or its text does not stand ahead. -/
theorem not_ahead_of_matchExtending (led : isLed production = true)
    (gives : (matchExtending setting operand production precedence left cursor).Gives none)
    (taken : takes production left = true) : ahead setting.grammar production cursor = false := by
  unfold isLed at led
  split at led
  · next first token rest shape =>
      have tried : (matchPattern setting operand production precedence (.text token :: rest)
          cursor).Gives none := by
        unfold matchExtending at gives
        unfold takes at taken
        split at gives
        · next type same =>
            have accepts : type.accepts left.type = true := by simpa [same] using taken
            rw [if_pos accepts] at gives
            simpa [shape] using gives
        · simpa [shape] using gives
      rw [ahead_of_elements shape, token?_eq_none_of_gives_none tried]
      rfl
  · cases led

theorem matchExtending_yields {found : Match} (taken : takes production left = true)
    (matched : (matchPattern setting operand production precedence production.elements.tail
      cursor).Yields (some found)) :
    (matchExtending setting operand production precedence left cursor).Yields (some found) := by
  unfold matchExtending
  unfold takes at taken
  split
  · next type same =>
      have accepts : type.accepts left.type = true := by simpa [same] using taken
      rw [if_pos accepts]
      exact matched
  · exact matched

theorem matchExtending_yields_none (led : isLed production = true)
    (passed : (takes production left && ahead setting.grammar production cursor) = false) :
    (matchExtending setting operand production precedence left cursor).Yields none := by
  unfold isLed at led
  split at led
  · next first token rest shape =>
      have missing : takes production left = true →
          (matchPattern setting operand production precedence production.elements.tail
            cursor).Yields none := by
        intro taken
        rw [taken, Bool.true_and, ahead_of_elements shape, Option.isSome_eq_false_iff,
          Option.isNone_iff_eq_none] at passed
        rw [shape]
        exact matchPattern_yields_none passed
      unfold matchExtending
      unfold takes at missing
      split
      · next type same =>
          split
          · next accepts => exact missing (by simpa [same] using accepts)
          · exact (yields_noteLeft type).bind (.of_pure _)
      · next same => exact missing (by simp [same])
  · cases led

theorem firstExtension_gives {candidates : List (UInt32 × Production)} {parsed : Parsed}
    (gives : (firstExtension setting operand left candidates cursor).Gives (some parsed)) :
    ∃ earlier level production later found,
      candidates = earlier ++ (level, production) :: later ∧
      (∀ candidate ∈ earlier, (matchExtending setting operand candidate.2 (.level candidate.1) left
        cursor).Gives none) ∧
      (matchExtending setting operand production (.level level) left cursor).Gives (some found) ∧
      (finish setting production (withLeft production left found.bindings) left.span.start
        found.next).Gives parsed := by
  induction candidates with
  | nil =>
      rw [firstExtension] at gives
      cases Step.Gives.of_pure gives
  | cons candidate candidates ih =>
      obtain ⟨level, production⟩ := candidate
      rw [firstExtension] at gives
      obtain ⟨outcome, tried, rest⟩ := gives.bind
      cases outcome with
      | none =>
          obtain ⟨earlier, other, node, later, found, same, passed, matched, finished⟩ := ih rest
          refine ⟨(level, production) :: earlier, other, node, later, found, by simp [same], ?_,
            matched, finished⟩
          intro candidate mem
          rcases List.mem_cons.mp mem with rfl | inside
          · exact tried
          · exact passed candidate inside
      | some found =>
          obtain ⟨node, finished, same⟩ := rest.bind
          cases Step.Gives.of_pure same
          exact ⟨[], level, production, candidates, found, rfl, by simp, tried, finished⟩

theorem firstExtension_gives_none {candidates : List (UInt32 × Production)}
    (gives : (firstExtension setting operand left candidates cursor).Gives none) :
    ∀ candidate ∈ candidates, (matchExtending setting operand candidate.2 (.level candidate.1) left
      cursor).Gives none := by
  induction candidates with
  | nil => simp
  | cons candidate candidates ih =>
      obtain ⟨level, production⟩ := candidate
      rw [firstExtension] at gives
      obtain ⟨outcome, tried, rest⟩ := gives.bind
      cases outcome with
      | none =>
          intro other mem
          rcases List.mem_cons.mp mem with rfl | later
          · exact tried
          · exact ih rest other later
      | some found =>
          obtain ⟨_, _, same⟩ := rest.bind
          cases Step.Gives.of_pure same

theorem firstExtension_yields_none {candidates : List (UInt32 × Production)}
    (nothing : ∀ candidate ∈ candidates,
      (matchExtending setting operand candidate.2 (.level candidate.1) left cursor).Yields none) :
    (firstExtension setting operand left candidates cursor).Yields none := by
  induction candidates with
  | nil => exact .of_pure _
  | cons candidate candidates ih =>
      obtain ⟨level, production⟩ := candidate
      rw [firstExtension]
      exact (nothing _ List.mem_cons_self).bind
        (ih fun other mem => nothing other (List.mem_cons_of_mem _ mem))

theorem firstExtension_yields {earlier later : List (UInt32 × Production)} {level : UInt32}
    {found : Match} {parsed : Parsed}
    (nothing : ∀ candidate ∈ earlier,
      (matchExtending setting operand candidate.2 (.level candidate.1) left cursor).Yields none)
    (matched : (matchExtending setting operand production (.level level) left cursor).Yields
      (some found))
    (finished : (finish setting production (withLeft production left found.bindings)
      left.span.start found.next).Yields parsed) :
    (firstExtension setting operand left (earlier ++ (level, production) :: later) cursor).Yields
      (some parsed) := by
  induction earlier with
  | nil =>
      rw [List.nil_append, firstExtension]
      exact matched.bind (finished.bind (.of_pure _))
  | cons candidate earlier ih =>
      obtain ⟨level, other⟩ := candidate
      rw [List.cons_append, firstExtension]
      exact (nothing _ List.mem_cons_self).bind
        (ih fun another mem => nothing another (List.mem_cons_of_mem _ mem))

/-! ## Chains of extensions -/

/-- What holds of an expression and is kept by every extension holds of the extended expression. -/
theorem holds_of_extend {candidates : List (UInt32 × Production)} {Holds : Parsed → Prop}
    (kept : ∀ parsed extended, Holds parsed →
      (firstExtension setting operand parsed.1 candidates parsed.2).Gives (some extended) →
      Holds extended)
    {steps : Nat} {parsed result : Parsed} (holds : Holds parsed)
    (gives : (extend setting operand candidates steps parsed).Gives result) : Holds result := by
  induction steps generalizing parsed with
  | zero =>
      cases Step.Gives.of_pure gives
      exact holds
  | succ steps ih =>
      obtain ⟨left, cursor⟩ := parsed
      obtain ⟨outcome, tried, rest⟩ := gives.bind
      cases outcome with
      | none =>
          cases Step.Gives.of_pure rest
          exact holds
      | some extended => exact ih (kept _ _ holds tried) rest

/-- What holds of an expression and is kept by every extension, which takes characters ahead, holds
of the extended expression, and no candidate extends that any further. -/
theorem extend_gives {candidates : List (UInt32 × Production)} (Holds : Parsed → Prop)
    (kept : ∀ parsed extended, Holds parsed →
      (firstExtension setting operand parsed.1 candidates parsed.2).Gives (some extended) →
      Holds extended ∧ extended.2.rest.length < parsed.2.rest.length)
    {steps : Nat} {parsed result : Parsed} (enough : parsed.2.rest.length < steps)
    (holds : Holds parsed)
    (gives : (extend setting operand candidates steps parsed).Gives result) :
    Holds result ∧ (firstExtension setting operand result.1 candidates result.2).Gives none := by
  induction steps generalizing parsed with
  | zero => exact absurd enough (Nat.not_lt_zero _)
  | succ steps ih =>
      obtain ⟨left, cursor⟩ := parsed
      rw [extend] at gives
      obtain ⟨outcome, tried, rest⟩ := gives.bind
      cases outcome with
      | none =>
          cases Step.Gives.of_pure rest
          exact ⟨holds, tried⟩
      | some extended =>
          obtain ⟨still, shorter⟩ := kept _ _ holds tried
          exact ih (Nat.lt_of_lt_of_le shorter (Nat.le_of_lt_succ enough)) still rest

/-- A candidate extends an expression, whatever the trail is, and takes characters ahead. -/
def Extends (setting : Setting) (operand : Operand) (candidates : List (UInt32 × Production))
    (parsed extended : Parsed) : Prop :=
  (firstExtension setting operand parsed.1 candidates parsed.2).Yields (some extended) ∧
    extended.2.rest.length < parsed.2.rest.length

/-- A chain of extensions that no candidate goes on from is what extending yields. -/
theorem extend_yields {candidates : List (UInt32 × Production)} {steps : Nat}
    {parsed result : Parsed} (enough : parsed.2.rest.length < steps)
    (chain : Relation.ReflTransGen (Extends setting operand candidates) parsed result)
    (stops : (firstExtension setting operand result.1 candidates result.2).Yields none) :
    (extend setting operand candidates steps parsed).Yields result := by
  induction chain using Relation.ReflTransGen.head_induction_on generalizing steps with
  | refl =>
      cases steps with
      | zero => exact absurd enough (Nat.not_lt_zero _)
      | succ steps =>
          obtain ⟨left, cursor⟩ := result
          exact stops.bind (.of_pure _)
  | head extension _ ih =>
      rename_i first second
      cases steps with
      | zero => exact absurd enough (Nat.not_lt_zero _)
      | succ steps =>
          obtain ⟨left, cursor⟩ := first
          obtain ⟨yields, shorter⟩ := extension
          exact yields.bind (ih (Nat.lt_of_lt_of_le shorter (Nat.le_of_lt_succ enough)))

end Mixfix.Parse
