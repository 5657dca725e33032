import Mixfix.Proofs.Grammar.Checks

/-!
# Patterns led by exact texts

A definition is token-led if its pattern starts with an exact text, behind the left operand where it
starts with one, and so does every optional group in it (`Definition.isTokenLed`). Compiling reads
types and leaves all else as it is, so the productions of a grammar that was built from token-led
definitions are token-led as well (`isTokenLed_of_build`).

What a parser can give up are whole patterns and groups, the alternatives of a production
(`Production.alternatives`). In a token-led production each of them starts with an exact text
(`exists_token_of_alternative`).
-/

set_option autoImplicit false

namespace Mixfix

section Elements

variable {τ : Type}

/-- Whether elements start with an exact text. -/
def startsWithText : List (Element τ) → Bool
  | .text _ :: _ => true
  | _ => false

/-- The elements of a pattern behind the left operand that it starts with, if it does. -/
def behindLeft : List (Element τ) → List (Element τ)
  | .operand .lhs _ _ :: rest => rest
  | elements => elements

mutual
/-- Whether every group in an element starts with an exact text. -/
def hasLedGroups : Element τ → Bool
  | .optional group => startsWithText group && haveLedGroups group
  | .text _ => true
  | .literal _ _ => true
  | .operand _ _ _ => true
/-- Whether every group in a pattern starts with an exact text. -/
def haveLedGroups : List (Element τ) → Bool
  | [] => true
  | element :: elements => hasLedGroups element && haveLedGroups elements
end

/-- Whether a pattern and every group in it start with an exact text, but for a left operand. -/
def isTokenLed (pattern : List (Element τ)) : Bool :=
  startsWithText (behindLeft pattern) && haveLedGroups pattern

end Elements

/-- Whether the pattern of a definition and every group in it start with an exact text, but for a
left operand. -/
def Definition.isTokenLed (definition : Definition) : Bool := Mixfix.isTokenLed definition.pattern

/-! ## Compiling -/

theorem Compiles.startsWithText_eq {node : String} {inUse inUse' : List String}
    {elements : List (Element String)} {compiled : List (Element Descriptor)}
    (compiles : Compiles node inUse elements compiled inUse') :
    startsWithText compiled = startsWithText elements := by
  cases compiles <;> rfl

theorem Compiles.startsWithText_behindLeft {node : String} {inUse inUse' : List String}
    {elements : List (Element String)} {compiled : List (Element Descriptor)}
    (compiles : Compiles node inUse elements compiled inUse') :
    startsWithText (behindLeft compiled) = startsWithText (behindLeft elements) := by
  cases compiles with
  | @operand _ _ _ role _ _ _ _ _ _ _ rest =>
      cases role with
      | lhs => exact rest.startsWithText_eq
      | rhs => rfl
      | expr => rfl
  | _ => rfl

theorem Compiles.haveLedGroups_eq {node : String} {inUse inUse' : List String}
    {elements : List (Element String)} {compiled : List (Element Descriptor)}
    (compiles : Compiles node inUse elements compiled inUse') :
    haveLedGroups compiled = haveLedGroups elements := by
  induction compiles with
  | done inUse => rfl
  | text _ _ ih => exact ih
  | literal _ _ ih => exact ih
  | operand _ _ _ ih => exact ih
  | group _ inside _ groups ih =>
      rw [haveLedGroups, haveLedGroups, hasLedGroups, hasLedGroups, inside.startsWithText_eq,
        groups, ih]

/-- Compiling keeps a definition token-led. -/
theorem isTokenLed_of_compileDefinition {definition : Definition} {production : Production}
    (ok : compileDefinition definition = .ok production) :
    isTokenLed production.elements = definition.isTokenLed := by
  obtain ⟨_, _, compiles, _⟩ := ok_of_compileDefinition ok
  rw [Definition.isTokenLed, isTokenLed, isTokenLed, compiles.startsWithText_behindLeft,
    compiles.haveLedGroups_eq]

/-- The productions of a grammar of token-led definitions are token-led. -/
theorem isTokenLed_of_build {definitions : List Definition} {grammar : Grammar}
    (built : Grammar.build definitions = .ok grammar)
    (led : ∀ definition ∈ definitions, definition.isTokenLed = true) :
    ∀ production ∈ grammar.productions, isTokenLed production.elements = true := by
  intro production mem
  have compiled := (Grammar.isChecked_of_mem built mem).compiled
  rw [isTokenLed_of_compileDefinition compiled]
  refine led production.definition ?_
  rw [← (ok_of_compileAll (Grammar.productions_of_build built).1).1]
  exact List.mem_map_of_mem mem

/-! ## Alternatives -/

/-- The elements of a group. -/
def Element.group? : Element Descriptor → Option (List (Element Descriptor))
  | .optional group => some group
  | _ => none

/-- What a parser can give up of a production: the pattern behind its left operand, and the groups
in the pattern. -/
def Production.alternatives (production : Production) : List (List (Element Descriptor)) :=
  behindLeft production.elements :: (elementsWithin production.elements).filterMap Element.group?

/-- Elements that start with an exact text. -/
theorem exists_token {elements : List (Element Descriptor)}
    (starts : startsWithText elements = true) :
    ∃ token rest, elements = .text token :: rest := by
  rcases elements with _ | ⟨element, rest⟩
  · cases starts
  · cases element with
    | text token => exact ⟨token, rest, rfl⟩
    | _ => cases starts

mutual
theorem startsWithText_of_elementParts {group : List (Element Descriptor)} :
    (element : Element Descriptor) → hasLedGroups element = true →
    .optional group ∈ elementParts element → startsWithText group = true
  | .text _, _, mem => by
      rw [elementParts, List.mem_singleton] at mem
      cases mem
  | .literal _ _, _, mem => by
      rw [elementParts, List.mem_singleton] at mem
      cases mem
  | .operand _ _ _, _, mem => by
      rw [elementParts, List.mem_singleton] at mem
      cases mem
  | .optional inner, led, mem => by
      rw [hasLedGroups, Bool.and_eq_true] at led
      rw [elementParts, List.mem_cons] at mem
      rcases mem with same | inside
      · cases same
        exact led.1
      · exact startsWithText_of_elementsWithin inner led.2 inside
theorem startsWithText_of_elementsWithin {group : List (Element Descriptor)} :
    (elements : List (Element Descriptor)) → haveLedGroups elements = true →
    .optional group ∈ elementsWithin elements → startsWithText group = true
  | [], _, mem => by cases mem
  | element :: elements, led, mem => by
      rw [haveLedGroups, Bool.and_eq_true] at led
      rw [elementsWithin, List.mem_append] at mem
      rcases mem with here | there
      · exact startsWithText_of_elementParts element led.1 here
      · exact startsWithText_of_elementsWithin elements led.2 there
end

/-- The alternatives of a token-led production start with an exact text. -/
theorem exists_token_of_alternative {production : Production}
    (led : isTokenLed production.elements = true) {alternative : List (Element Descriptor)}
    (mem : alternative ∈ production.alternatives) :
    ∃ token rest, alternative = .text token :: rest := by
  rw [isTokenLed, Bool.and_eq_true] at led
  refine exists_token ?_
  rcases List.mem_cons.mp mem with rfl | inside
  · exact led.1
  · obtain ⟨element, within, same⟩ := List.mem_filterMap.mp inside
    cases element with
    | optional group =>
        cases same
        exact startsWithText_of_elementsWithin production.elements led.2 within
    | _ => cases same

end Mixfix
