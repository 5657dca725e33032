import Mixfix.Proofs.Grammar.Checks

/-!
# What compiling keeps of a pattern

Compiling reads the types in a pattern and leaves all else as it is. A pattern has an exact text in
itself or in a group at any depth (`HoldsText`); these are the tokens of its production
(`mem_patternTokens_of_compileDefinition`). A production extends an expression exactly if the pattern
of its definition starts with a left operand (`isExtending_of_compileDefinition`).
-/

set_option autoImplicit false

namespace Mixfix

/-! ## Exact texts -/

/-- A pattern has an exact text, in itself or in a group at any depth. -/
inductive HoldsText {τ : Type} (token : String) : List (Element τ) → Prop
  | here {rest : List (Element τ)} : HoldsText token (.text token :: rest)
  | inside {group rest : List (Element τ)} (holds : HoldsText token group) :
      HoldsText token (.optional group :: rest)
  | behind {element : Element τ} {rest : List (Element τ)} (holds : HoldsText token rest) :
      HoldsText token (element :: rest)

section Texts

variable {τ : Type} {token : String}

theorem not_holdsText_nil : ¬ HoldsText token ([] : List (Element τ)) := nofun

theorem holdsText_cons {element : Element τ} {rest : List (Element τ)} :
    HoldsText token (element :: rest) ↔ HoldsText token [element] ∨ HoldsText token rest := by
  constructor
  · intro holds
    cases holds with
    | here => exact .inl .here
    | inside holds => exact .inl (.inside holds)
    | behind holds => exact .inr holds
  · rintro (alone | later)
    · cases alone with
      | here => exact .here
      | inside holds => exact .inside holds
      | behind holds => exact absurd holds not_holdsText_nil
    · exact .behind later

theorem holdsText_text {other : String} :
    HoldsText token [(.text other : Element τ)] ↔ token = other := by
  constructor
  · intro holds
    cases holds with
    | here => rfl
    | behind holds => exact absurd holds not_holdsText_nil
  · rintro rfl
    exact .here

theorem holdsText_optional {group : List (Element τ)} :
    HoldsText token [.optional group] ↔ HoldsText token group := by
  constructor
  · intro holds
    cases holds with
    | inside holds => exact holds
    | behind holds => exact absurd holds not_holdsText_nil
  · exact .inside

theorem not_holdsText_literal {kind : LiteralKind} {name : Option String} :
    ¬ HoldsText token [(.literal kind name : Element τ)] := by
  intro holds
  cases holds with
  | behind holds => exact not_holdsText_nil holds

theorem not_holdsText_operand {role : Role} {constraint : Option τ} {name : Option String} :
    ¬ HoldsText token [.operand role constraint name] := by
  intro holds
  cases holds with
  | behind holds => exact not_holdsText_nil holds

mutual
theorem mem_elementTokens : (element : Element Descriptor) →
    (token ∈ elementTokens element ↔ HoldsText token [element])
  | .text other => by rw [elementTokens, List.mem_singleton, holdsText_text]
  | .literal kind name => by simp [elementTokens, not_holdsText_literal]
  | .operand role constraint name => by simp [elementTokens, not_holdsText_operand]
  | .optional group => by rw [elementTokens, mem_patternTokens group, holdsText_optional]
theorem mem_patternTokens : (elements : List (Element Descriptor)) →
    (token ∈ patternTokens elements ↔ HoldsText token elements)
  | [] => by simp [patternTokens, not_holdsText_nil]
  | element :: elements => by
      rw [patternTokens, List.mem_append, mem_elementTokens element, mem_patternTokens elements,
        ← holdsText_cons]
end

theorem holdsText_cons_congr {first : Element Descriptor} {element : Element String}
    {compiled : List (Element Descriptor)} {elements : List (Element String)}
    (here : HoldsText token [first] ↔ HoldsText token [element])
    (later : HoldsText token compiled ↔ HoldsText token elements) :
    HoldsText token (first :: compiled) ↔ HoldsText token (element :: elements) := by
  rw [holdsText_cons, here, later, ← holdsText_cons]

/-- Compiling keeps the exact texts of a pattern. -/
theorem Compiles.holdsText {node : String} {inUse inUse' : List String}
    {elements : List (Element String)} {compiled : List (Element Descriptor)}
    (compiles : Compiles node inUse elements compiled inUse') :
    HoldsText token compiled ↔ HoldsText token elements := by
  induction compiles with
  | done inUse => exact iff_of_false not_holdsText_nil not_holdsText_nil
  | text _ _ later => exact holdsText_cons_congr (holdsText_text.trans holdsText_text.symm) later
  | literal _ _ later =>
      exact holdsText_cons_congr (iff_of_false not_holdsText_literal not_holdsText_literal) later
  | operand _ _ _ later =>
      exact holdsText_cons_congr (iff_of_false not_holdsText_operand not_holdsText_operand) later
  | group _ _ _ inside later =>
      refine holdsText_cons_congr ?_ later
      rw [holdsText_optional, inside, holdsText_optional]

end Texts

/-! ## Left operands -/

/-- Whether a definition extends an expression: its pattern starts with a left operand. -/
def Definition.isExtending (definition : Definition) : Bool :=
  definition.pattern.head?.any Element.isLhs

/-- Whether an element is a left operand shows in its shape. -/
theorem any_isLhs_eq_of_shapes {τ σ : Type} {elements : List (Element τ)}
    {others : List (Element σ)} (same : elements.map Element.shape = others.map Element.shape) :
    elements.head?.any Element.isLhs = others.head?.any Element.isLhs := by
  rcases elements with _ | ⟨element, rest⟩ <;> rcases others with _ | ⟨other, rest'⟩
  · rfl
  · cases same
  · cases same
  · have shape := (List.cons.inj same).1
    cases element with
    | operand role constraint name =>
        cases other with
        | operand role' constraint' name' =>
            cases shape
            cases role <;> rfl
        | _ => cases shape
    | _ => cases other <;> first | rfl | cases shape

section Production

variable {definition : Definition} {production : Production}

/-- Compiling keeps whether a pattern starts with a left operand. -/
theorem isExtending_of_compileDefinition (ok : compileDefinition definition = .ok production) :
    production.isExtending = definition.isExtending := by
  obtain ⟨_, _, compiles, _⟩ := ok_of_compileDefinition ok
  exact any_isLhs_eq_of_shapes compiles.shapes

theorem mem_patternTokens_of_compileDefinition {token : String}
    (ok : compileDefinition definition = .ok production) :
    token ∈ patternTokens production.elements ↔ HoldsText token definition.pattern := by
  obtain ⟨_, _, compiles, _⟩ := ok_of_compileDefinition ok
  exact (mem_patternTokens _).trans compiles.holdsText

end Production

end Mixfix
