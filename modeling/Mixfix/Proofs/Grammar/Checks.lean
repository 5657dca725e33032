import Mixfix.Grammar.Build
import Mixfix.Proofs.Descriptor.Reading

/-!
# What building checks

A grammar has one production for each of its definitions, under names that differ, so a production is
the one that its name is registered for (`node?_of_mem`). Compiling a definition leaves three things
true of the elements of its production, on which every later argument about matching rests
(`Production.IsChecked`):

* no name is given twice, whether inside or outside of groups;
* no exact text is empty;
* the first element is an exact text or a literal, or the left operand of a numbered level with an
  element behind it that cannot be missing (`PatternStarts`).

The recursion of the compiler is followed once, for what it does to a pattern (`Compiles`), and what
it gathers and keeps is read off from that (`Compiles.gathers`, `Compiles.shapes`).
-/

set_option autoImplicit false

namespace Mixfix

/-! ## Elements -/

/-- What kind of element an element is, as far as the start of a pattern is concerned. -/
inductive Shape where
  /-- An exact text or a literal. -/
  | fixed
  | operand (role : Role)
  | group

/-- The shape of an element. -/
def Element.shape {τ : Type} : Element τ → Shape
  | .text _ => .fixed
  | .literal _ _ => .fixed
  | .operand role _ _ => .operand role
  | .optional _ => .group

/-- The name that an element gives to what it matches. -/
def Element.name? {τ : Type} : Element τ → Option String
  | .literal _ name => name
  | .operand _ _ name => name
  | _ => none

mutual
/-- An element and the elements in it. -/
def elementParts : Element Descriptor → List (Element Descriptor)
  | .optional group => .optional group :: elementsWithin group
  | .text token => [.text token]
  | .literal kind name => [.literal kind name]
  | .operand role constraint name => [.operand role constraint name]
/-- The elements of a pattern, those in groups included. -/
def elementsWithin : List (Element Descriptor) → List (Element Descriptor)
  | [] => []
  | element :: elements => elementParts element ++ elementsWithin elements
end

/-- The names in an element. -/
def elementNames (element : Element Descriptor) : List String :=
  (elementParts element).filterMap Element.name?

/-- The names in a pattern, those in groups included. -/
def namesWithin (elements : List (Element Descriptor)) : List String :=
  (elementsWithin elements).filterMap Element.name?

theorem namesWithin_cons (element : Element Descriptor) (elements : List (Element Descriptor)) :
    namesWithin (element :: elements) = elementNames element ++ namesWithin elements := by
  rw [namesWithin, elementsWithin, List.filterMap_append]
  rfl

theorem elementNames_text (token : String) : elementNames (.text token) = [] := by
  rw [elementNames, elementParts]
  rfl

theorem elementNames_literal (kind : LiteralKind) (name : Option String) :
    elementNames (.literal kind name) = name.toList := by
  cases name <;> rfl

theorem elementNames_operand (role : Role) (constraint : Option Descriptor)
    (name : Option String) : elementNames (.operand role constraint name) = name.toList := by
  cases name <;> rfl

theorem elementNames_optional (group : List (Element Descriptor)) :
    elementNames (.optional group) = namesWithin group := by
  rw [elementNames, elementParts]
  rfl

/-- How a pattern of shapes starts: with an exact text or a literal, or with the left operand of a
numbered level and something behind it that cannot be missing. -/
inductive PatternStarts : Precedence → List Shape → Prop
  | fixed {precedence : Precedence} {shapes : List Shape} : PatternStarts precedence (.fixed :: shapes)
  | left {number : UInt32} {shapes : List Shape} (moves : ∃ shape ∈ shapes, shape ≠ .group) :
      PatternStarts (.level number) (.operand .lhs :: shapes)

namespace PatternStarts

variable {precedence : Precedence} {elements : List (Element Descriptor)}
  (starts : PatternStarts precedence (elements.map Element.shape))
include starts

/-- A pattern that does not extend an expression starts with an exact text or a literal. -/
theorem opening (opens : precedence = .atom ∨ elements.head?.any Element.isLhs = false) :
    ∃ element rest, elements = element :: rest ∧ element.shape = .fixed := by
  cases elements with
  | nil => cases starts
  | cons element rest =>
      refine ⟨element, rest, rfl, ?_⟩
      rw [List.map_cons] at starts
      cases element with
      | operand role constraint name =>
          exfalso
          cases starts with
          | left moves =>
              rcases opens with atomic | opens
              · cases atomic
              · cases opens
      | optional group => cases starts
      | _ => rfl

/-- A pattern that extends an expression has an element behind its left operand that cannot be
missing. -/
theorem extending (extends? : elements.head?.any Element.isLhs = true) :
    ∃ constraint name rest, elements = .operand .lhs constraint name :: rest ∧
      ∃ shape ∈ rest.map Element.shape, shape ≠ .group := by
  cases elements with
  | nil => cases starts
  | cons element rest =>
      cases element with
      | operand role constraint name =>
          rw [List.map_cons] at starts
          cases starts with
          | left moves => exact ⟨constraint, name, rest, rfl, moves⟩
      | _ => cases extends?

end PatternStarts

theorem starts_of_checkStart {definition : Definition} (ok : checkStart definition = .ok ()) :
    PatternStarts definition.precedence (definition.pattern.map Element.shape) := by
  obtain ⟨name, pattern, precedence, result, rule⟩ := definition
  cases pattern with
  | nil => cases ok
  | cons element rest =>
      cases element with
      | text token => exact .fixed
      | literal kind name => exact .fixed
      | optional group => cases ok
      | operand role constraint name =>
          cases precedence with
          | atom => cases role <;> cases ok
          | level number =>
              cases role with
              | lhs =>
                  simp only [checkStart] at ok
                  split at ok
                  · cases ok
                  · next moving =>
                      obtain ⟨element, mem, present⟩ :=
                        List.all_eq_false.mp (Bool.not_eq_true _ ▸ moving)
                      refine .left ⟨element.shape, List.mem_map_of_mem mem, fun same => present ?_⟩
                      cases element <;> first | rfl | cases same
              | _ => cases ok

/-! ## Compiling elements -/

/-- Elements are compiled one after the other, those of a group in its place. Their types are read,
their names are added to those in use, and all else stays as it is. -/
inductive Compiles (node : String) :
    List String → List (Element String) → List (Element Descriptor) → List String → Prop
  | done (inUse : List String) : Compiles node inUse [] [] inUse
  | text {inUse inUse' : List String} {token : String} {elements : List (Element String)}
      {compiled : List (Element Descriptor)} (nonempty : token ≠ "")
      (rest : Compiles node inUse elements compiled inUse') :
      Compiles node inUse (.text token :: elements) (.text token :: compiled) inUse'
  | literal {inUse between inUse' : List String} {kind : LiteralKind} {name : Option String}
      {elements : List (Element String)} {compiled : List (Element Descriptor)}
      (added : addName node inUse name = .ok between)
      (rest : Compiles node between elements compiled inUse') :
      Compiles node inUse (.literal kind name :: elements) (.literal kind name :: compiled) inUse'
  | operand {inUse between inUse' : List String} {role : Role} {constraint : Option String}
      {type : Option Descriptor} {name : Option String} {elements : List (Element String)}
      {compiled : List (Element Descriptor)} (added : addName node inUse name = .ok between)
      (read : readConstraint node constraint = .ok type)
      (rest : Compiles node between elements compiled inUse') :
      Compiles node inUse (.operand role constraint name :: elements)
        (.operand role type name :: compiled) inUse'
  | group {inUse between inUse' : List String} {group elements : List (Element String)}
      {inner compiled : List (Element Descriptor)}
      (required : group.all Element.isOptional = false)
      (inside : Compiles node inUse group inner between)
      (rest : Compiles node between elements compiled inUse') :
      Compiles node inUse (.optional group :: elements) (.optional inner :: compiled) inUse'

mutual
theorem compiles_of_compileElement {node : String} : (element : Element String) →
    {inUse between inUse' : List String} → {first : Element Descriptor} →
    {elements : List (Element String)} → {compiled : List (Element Descriptor)} →
    compileElement node inUse element = .ok (first, between) →
    Compiles node between elements compiled inUse' →
    Compiles node inUse (element :: elements) (first :: compiled) inUse'
  | .text token, _, _, _, _, _, _, ok, rest => by
      rw [compileElement] at ok
      split at ok
      · cases ok
      · next nonempty =>
          cases ok
          exact .text (by simpa using nonempty) rest
  | .literal kind name, _, _, _, _, _, _, ok, rest => by
      rw [compileElement] at ok
      obtain ⟨between, added, done⟩ := ok_of_bind ok
      cases done
      exact .literal added rest
  | .operand role constraint name, _, _, _, _, _, _, ok, rest => by
      rw [compileElement] at ok
      obtain ⟨between, added, ok⟩ := ok_of_bind ok
      obtain ⟨type, read, done⟩ := ok_of_bind ok
      cases done
      exact .operand added read rest
  | .optional group, _, _, _, _, _, _, ok, rest => by
      rw [compileElement] at ok
      split at ok
      · cases ok
      · split at ok
        · cases ok
        · next required =>
            obtain ⟨⟨inner, between⟩, inside, done⟩ := ok_of_bind ok
            cases done
            exact .group (Bool.not_eq_true _ ▸ required)
              (compiles_of_compileElements group inside) rest
/-- Elements that the compiler accepts are compiled. -/
theorem compiles_of_compileElements {node : String} : (elements : List (Element String)) →
    {inUse inUse' : List String} → {compiled : List (Element Descriptor)} →
    compileElements node inUse elements = .ok (compiled, inUse') →
    Compiles node inUse elements compiled inUse'
  | [], inUse, _, _, ok => by
      rw [compileElements] at ok
      cases ok
      exact .done inUse
  | element :: elements, _, _, _, ok => by
      rw [compileElements] at ok
      obtain ⟨⟨first, between⟩, start, ok⟩ := ok_of_bind ok
      obtain ⟨⟨others, grown⟩, further, done⟩ := ok_of_bind ok
      cases done
      exact compiles_of_compileElement element start (compiles_of_compileElements elements further)
end

/-- The names in use grow by new names and no exact text is empty. -/
structure Gathers (inUse names tokens inUse' : List String) : Prop where
  grown : inUse' = inUse ++ names
  distinct : inUse.Nodup → inUse'.Nodup
  nonempty : ∀ token ∈ tokens, token ≠ ""

namespace Gathers

variable {inUse inUse' inUse'' names names' tokens tokens' : List String}

theorem nothing (inUse : List String) : Gathers inUse [] [] inUse :=
  ⟨(List.append_nil inUse).symm, id, by simp⟩

theorem append (first : Gathers inUse names tokens inUse')
    (second : Gathers inUse' names' tokens' inUse'') :
    Gathers inUse (names ++ names') (tokens ++ tokens') inUse'' where
  grown := by rw [second.grown, first.grown, List.append_assoc]
  distinct := second.distinct ∘ first.distinct
  nonempty token mem := (List.mem_append.mp mem).elim (first.nonempty token) (second.nonempty token)

end Gathers

theorem gathers_of_addName {node : String} {inUse inUse' : List String} {name : Option String}
    (ok : addName node inUse name = .ok inUse') : Gathers inUse name.toList [] inUse' := by
  cases name with
  | none =>
      cases ok
      exact .nothing inUse
  | some name =>
      rw [addName] at ok
      split at ok
      · cases ok
      · next unused =>
          cases ok
          refine ⟨rfl, fun distinct => ?_, by simp⟩
          have fresh : name ∉ inUse := by simpa using unused
          simpa [List.nodup_append, distinct] using fun other mem => ne_of_mem_of_not_mem mem fresh

theorem gathers_text {token : String} (nonempty : token ≠ "") (inUse : List String) :
    Gathers inUse [] [token] inUse :=
  ⟨(List.append_nil inUse).symm, id, by simpa using nonempty⟩

namespace Compiles

variable {node : String} {inUse inUse' : List String} {elements : List (Element String)}
  {compiled : List (Element Descriptor)}

theorem gathers (compiles : Compiles node inUse elements compiled inUse') :
    Gathers inUse (namesWithin compiled) (patternTokens compiled) inUse' := by
  induction compiles with
  | done inUse => exact .nothing inUse
  | text nonempty _ ih =>
      rw [namesWithin_cons, elementNames_text]
      exact (gathers_text nonempty _).append ih
  | literal added _ ih =>
      rw [namesWithin_cons, elementNames_literal]
      exact (gathers_of_addName added).append ih
  | operand added _ _ ih =>
      rw [namesWithin_cons, elementNames_operand]
      exact (gathers_of_addName added).append ih
  | group _ _ _ inside ih =>
      rw [namesWithin_cons, elementNames_optional]
      exact inside.append ih

theorem shapes (compiles : Compiles node inUse elements compiled inUse') :
    compiled.map Element.shape = elements.map Element.shape := by
  induction compiles with
  | done inUse => rfl
  | text _ _ ih => exact congrArg (Shape.fixed :: ·) ih
  | literal _ _ ih => exact congrArg (Shape.fixed :: ·) ih
  | operand _ _ _ ih => exact congrArg (Shape.operand _ :: ·) ih
  | group _ _ _ _ ih => exact congrArg (Shape.group :: ·) ih

end Compiles

/-! ## Productions -/

/-- What compiling a definition leaves true of its production. -/
structure Production.IsChecked (production : Production) : Prop where
  compiled : compileDefinition production.definition = .ok production
  distinct : (namesWithin production.elements).Nodup
  nonempty : ∀ token ∈ patternTokens production.elements, token ≠ ""
  starts : PatternStarts production.precedence (production.elements.map Element.shape)

theorem Production.IsChecked.nonempty_tail {production : Production}
    (checked : production.IsChecked) :
    ∀ token ∈ patternTokens production.elements.tail, token ≠ "" := by
  intro token mem
  apply checked.nonempty
  cases same : production.elements with
  | nil =>
      rw [same] at mem
      exact mem
  | cons element rest =>
      rw [same] at mem
      exact List.mem_append_right _ mem

/-- What compiling a definition comes through: the check of the start of its pattern, the elements,
and the result. -/
theorem ok_of_compileDefinition {definition : Definition} {production : Production}
    (ok : compileDefinition definition = .ok production) :
    checkStart definition = .ok () ∧ ∃ inUse,
      Compiles definition.name [] definition.pattern production.elements inUse ∧
      compileResult definition.name inUse definition.result = .ok production.result ∧
      production.definition = definition := by
  rw [compileDefinition] at ok
  obtain ⟨_, started, ok⟩ := ok_of_bind ok
  obtain ⟨⟨elements, inUse⟩, compiled, ok⟩ := ok_of_bind ok
  obtain ⟨result, gives, done⟩ := ok_of_bind ok
  cases done
  exact ⟨started, inUse, compiles_of_compileElements _ compiled, gives, rfl⟩

theorem isChecked_of_compileDefinition {definition : Definition} {production : Production}
    (ok : compileDefinition definition = .ok production) :
    production.definition = definition ∧ production.IsChecked := by
  obtain ⟨startChecked, inUse, compiles, _, rfl⟩ := ok_of_compileDefinition ok
  have gathers := compiles.gathers
  refine ⟨rfl, ok, ?_, gathers.nonempty, ?_⟩
  · have distinct := gathers.distinct .nil
    rwa [gathers.grown, List.nil_append] at distinct
  · rw [compiles.shapes]
    exact starts_of_checkStart startChecked

theorem ok_of_compileAll {taken : List String} {definitions : List Definition}
    {productions : List Production} (ok : compileAll taken definitions = .ok productions) :
    productions.map (·.definition) = definitions ∧
      (∀ production ∈ productions, production.IsChecked ∧ production.name ∉ taken) ∧
      (productions.map Production.name).Nodup := by
  induction definitions generalizing taken productions with
  | nil =>
      rw [compileAll] at ok
      cases ok
      exact ⟨rfl, by simp, .nil⟩
  | cons definition definitions ih =>
      rw [compileAll] at ok
      split at ok
      · cases ok
      · next free =>
          obtain ⟨production, first, ok⟩ := ok_of_bind ok
          obtain ⟨productions, others, done⟩ := ok_of_bind ok
          cases done
          obtain ⟨rfl, isChecked⟩ := isChecked_of_compileDefinition first
          obtain ⟨same, checked, distinct⟩ := ih others
          have fresh : production.name ∉ taken := fun mem => free (List.contains_iff_mem.mpr mem)
          refine ⟨by rw [List.map_cons, same], ?_, List.nodup_cons.mpr ⟨?_, distinct⟩⟩
          · intro other mem
            rcases List.mem_cons.mp mem with rfl | later
            · exact ⟨isChecked, fresh⟩
            · exact ⟨(checked other later).1, fun mem =>
                (checked other later).2 (List.mem_cons_of_mem _ mem)⟩
          · intro mem
            obtain ⟨other, later, same⟩ := List.mem_map.mp mem
            exact (checked other later).2 (same ▸ List.mem_cons_self)

/-! ## Grammars -/

namespace Grammar

variable {definitions : List Definition} {grammar : Grammar} {production : Production}

theorem productions_of_build (built : build definitions = .ok grammar) :
    compileAll [] definitions = .ok grammar.productions ∧
      grammar = ofProductions grammar.productions := by
  obtain ⟨productions, compiled, rfl⟩ := Descriptor.ok_of_map built
  exact ⟨compiled, rfl⟩

theorem isChecked_of_mem (built : build definitions = .ok grammar)
    (mem : production ∈ grammar.productions) : production.IsChecked :=
  ((ok_of_compileAll (productions_of_build built).1).2.1 production mem).1

/-- The name of a production is registered for its definition. -/
theorem node?_of_mem (built : build definitions = .ok grammar)
    (mem : production ∈ grammar.productions) :
    grammar.node? production.name = some production.definition := by
  have distinct := (ok_of_compileAll (productions_of_build built).1).2.2
  rw [node?]
  generalize grammar.productions = productions at mem distinct
  induction productions with
  | nil => cases mem
  | cons other productions ih =>
      have ⟨fresh, later⟩ := List.nodup_cons.mp distinct
      rw [List.find?_cons]
      rcases List.mem_cons.mp mem with rfl | inside
      · simp
      · have differs : other.name ≠ production.name := by
          intro same
          exact fresh (List.mem_map.mpr ⟨production, inside, same.symm⟩)
        rw [beq_eq_false_iff_ne.mpr differs]
        exact ih inside later

theorem mem_of_mem_select {productions : List Production} {precedence : Precedence}
    {extending : Bool} (mem : production ∈ select productions precedence extending) :
    production ∈ productions ∧ production.precedence = precedence ∧
      production.isExtending = extending := by
  obtain ⟨inside, selected⟩ := List.mem_filter.mp mem
  rw [Bool.and_eq_true, beq_iff_eq, beq_iff_eq] at selected
  exact ⟨inside, selected⟩

theorem mem_of_mem_atoms (built : build definitions = .ok grammar)
    (mem : production ∈ grammar.atoms) :
    production ∈ grammar.productions ∧ production.precedence = .atom := by
  rw [(productions_of_build built).2] at mem
  obtain ⟨inside, atomic⟩ := List.mem_filter.mp mem
  exact ⟨inside, beq_iff_eq.mp atomic⟩

theorem mem_of_mem_openers (built : build definitions = .ok grammar)
    (mem : production ∈ grammar.openers) :
    production ∈ grammar.productions ∧ production.isExtending = false := by
  rw [(productions_of_build built).2] at mem
  obtain ⟨number, _, selected⟩ := List.mem_flatMap.mp mem
  obtain ⟨inside, _, opens⟩ := mem_of_mem_select selected
  exact ⟨inside, opens⟩

theorem mem_of_mem_extendingFrom (built : build definitions = .ok grammar) {floor : Precedence}
    {level : UInt32} (mem : (level, production) ∈ grammar.extendingFrom floor) :
    production ∈ grammar.productions ∧ production.precedence = .level level ∧
      production.isExtending = true := by
  obtain ⟨entry, known, extending⟩ := List.mem_flatMap.mp mem
  obtain ⟨_, inside, same⟩ := List.mem_map.mp extending
  cases same
  have used := (List.mem_filter.mp known).1
  rw [(productions_of_build built).2] at used
  obtain ⟨number, _, rfl⟩ := List.mem_map.mp used
  exact mem_of_mem_select inside

/-- Definitions of sums and of a node with a group inside of a group. -/
def sampleDefinitions : List Definition :=
  [(Definition.binary "sum" 1 "+" (some "number")).returns (.union ["left", "right"]),
    (Definition.plain "pick" (.level 2)
      [.text "pick", .literal .identifier (some "field"),
        .optional [.text "at", .literal .number (some "place"),
          .optional [.text "from", .operand .rhs (some "number") (some "origin")]]]).returns
      (.fixed "number")]

end Grammar

end Mixfix
