import Mathlib.Data.List.Nodup
import Mathlib.Data.List.Perm.Basic
import Mixfix.Proofs.Grammar.Index
import Mixfix.Proofs.Grammar.Texts

/-!
# The index of a grammar

A grammar that was built indexes the definitions it was built from exactly (`indexes_of_build`). Names
lead to their definitions. Every production is in one of the lists that the parser takes candidates
from, once, and in the list that its precedence and the first element of its pattern ask for. The
levels are the numbers in use, and the tokens the exact texts of all patterns, at any depth of groups,
with the parentheses.

Each list is described by what it enumerates and in which strict order (`Enumerates`), so that nothing
is listed twice. Productions go by level and, within a level, by the place of their definitions
(`Before`). What is listed is told by the definitions and not by what compiling made of them.
-/

set_option autoImplicit false

namespace Mixfix

/-! ## Enumerations -/

/-- A list has the items of a property and no others, in an order. -/
structure Enumerates {α : Type} (before : α → α → Prop) (holds : α → Prop) (items : List α) :
    Prop where
  mem_iff (item : α) : item ∈ items ↔ holds item
  ordered : items.Pairwise before

namespace Enumerates

variable {α β : Type} {before : α → α → Prop} {holds : α → Prop} {items : List α}

/-- In a strict order no item is listed twice. -/
theorem nodup (enumerates : Enumerates before holds items) (irrefl : ∀ item, ¬ before item item) :
    items.Nodup := by
  refine enumerates.ordered.imp fun {first second} earlier same => ?_
  subst same
  exact irrefl first earlier

theorem filter (enumerates : Enumerates before holds items) (keep : α → Bool) :
    Enumerates before (fun item => holds item ∧ keep item = true) (items.filter keep) where
  mem_iff item := by rw [List.mem_filter, enumerates.mem_iff]
  ordered := enumerates.ordered.filter keep

theorem congr {holds' : α → Prop} (enumerates : Enumerates before holds items)
    (same : ∀ item, holds item ↔ holds' item) : Enumerates before holds' items where
  mem_iff item := (enumerates.mem_iff item).trans (same item)
  ordered := enumerates.ordered

/-- Items that are put in their places one by one are enumerated. -/
theorem gathered [DecidableEq α] {before : α → α → Bool} (orders : Orders before)
    (items : List α) :
    Enumerates (before · · = true) (· ∈ items)
      (items.foldl (fun placed item => place before item placed) []) := by
  have gather : ∀ (items placed : List α), placed.Pairwise (before · · = true) →
      Enumerates (before · · = true) (fun item => item ∈ placed ∨ item ∈ items)
        (items.foldl (fun placed item => place before item placed) placed) := by
    intro items
    induction items with
    | nil =>
        intro placed ordered
        exact ⟨fun item => by simp, ordered⟩
    | cons first rest ih =>
        intro placed ordered
        refine (ih _ (pairwise_place orders first ordered)).congr fun item => ?_
        rw [mem_place, List.mem_cons, or_assoc, or_left_comm]
  exact (gather items [] .nil).congr fun item => by simp

end Enumerates

/-! ## The order of productions -/

/-- Whether the definition of a production stands before that of another one. -/
def Earlier (definitions : List Definition) (first second : Production) : Prop :=
  (definitions.map (·.name)).idxOf first.name < (definitions.map (·.name)).idxOf second.name

/-- Whether a production has a looser precedence than another one, or the same precedence and a
definition that stands before. -/
def Before (definitions : List Definition) (first second : Production) : Prop :=
  first.precedence.rank < second.precedence.rank ∨
    first.precedence = second.precedence ∧ Earlier definitions first second

/-- The number of a level. -/
def Precedence.number? : Precedence → Option UInt32
  | .level number => some number
  | .atom => none

theorem Precedence.number?_eq_some_iff {precedence : Precedence} {number : UInt32} :
    precedence.number? = some number ↔ precedence = .level number := by
  cases precedence <;> simp [number?]

section Order

variable {definitions : List Definition}

theorem not_earlier_self (production : Production) : ¬ Earlier definitions production production :=
  Nat.lt_irrefl _

theorem not_before_self (production : Production) : ¬ Before definitions production production := by
  rintro (looser | ⟨_, earlier⟩)
  · exact Nat.lt_irrefl _ looser
  · exact not_earlier_self production earlier

/-- Productions under names that differ stand in the order of their definitions. -/
theorem pairwise_earlier {productions : List Production}
    (distinct : (productions.map Production.name).Nodup) :
    productions.Pairwise (Earlier (productions.map (·.definition))) := by
  refine List.pairwise_iff_getElem.mpr fun i j first second less => ?_
  have names : (productions.map (·.definition)).map (·.name) = productions.map Production.name :=
    List.map_map
  have place (k : Nat) (inside : k < productions.length) :
      (productions.map Production.name).idxOf productions[k].name = k := by
    rw [← List.getElem_map Production.name (h := by rwa [List.length_map])]
    exact distinct.idxOf_getElem k _
  rw [Earlier, names, place i first, place j second]
  exact less

end Order

namespace Grammar

/-! ## Levels and tokens -/

section Gathered

variable (productions : List Production)

theorem levelNumbers_eq : levelNumbers productions =
    (productions.filterMap (·.precedence.number?)).foldl
      (fun placed number => place (fun number other => number < other) number placed) [] := by
  rw [List.foldl_filterMap, levelNumbers]
  congr 1
  funext placed production
  cases production.precedence with
  | level number => exact insertLevel_eq_place number placed
  | atom => rfl

/-- The numbers of the levels in use ascend. -/
theorem enumerates_levelNumbers :
    Enumerates (· < ·)
      (fun number => ∃ production ∈ productions, production.precedence = .level number)
      (levelNumbers productions) := by
  have gathered := Enumerates.gathered orders_number (productions.filterMap (·.precedence.number?))
  rw [← levelNumbers_eq] at gathered
  refine ⟨fun number => ?_, gathered.ordered.imp of_decide_eq_true⟩
  rw [gathered.mem_iff, List.mem_filterMap]
  simp only [Precedence.number?_eq_some_iff]

/-- The tokens go from the longest to the shortest, and in the order of texts within a length. -/
theorem enumerates_tokens :
    Enumerates
      (fun token other => other.utf8ByteSize < token.utf8ByteSize ∨
        token.utf8ByteSize = other.utf8ByteSize ∧ token < other)
      (fun token => token = openParen ∨ token = closeParen ∨
        ∃ production ∈ productions, token ∈ patternTokens production.elements)
      (ofProductions productions).tokens := by
  have gathered := Enumerates.gathered orders_precedesToken
    (openParen :: closeParen :: productions.flatMap (patternTokens ·.elements))
  have tokens : (ofProductions productions).tokens =
      (openParen :: closeParen :: productions.flatMap (patternTokens ·.elements)).foldl
        (fun placed token => place precedesToken token placed) [] := by
    simp only [ofProductions, insertToken_eq_place]
  rw [← tokens] at gathered
  refine ⟨fun token => ?_, gathered.ordered.imp fun {token other} precedes => ?_⟩
  · rw [gathered.mem_iff, List.mem_cons, List.mem_cons, List.mem_flatMap]
  · simpa only [precedesToken, Bool.or_eq_true, Bool.and_eq_true, decide_eq_true_eq, beq_iff_eq]
      using precedes

end Gathered

/-! ## Productions by level -/

section Levels

variable {definitions : List Definition} {productions : List Production}

/-- The productions of some levels on one side, with their levels. -/
def levelled (productions : List Production) (extending : Bool) (numbers : List UInt32) :
    List (UInt32 × Production) :=
  numbers.flatMap fun number => (select productions (.level number) extending).map (number, ·)

/-- By ascending levels productions are listed in order. -/
theorem enumerates_levelled (ordered : productions.Pairwise (Earlier definitions))
    (extending : Bool) {used : UInt32 → Prop} {numbers : List UInt32}
    (ascending : Enumerates (· < ·) used numbers) :
    Enumerates (fun first second => Before definitions first.2 second.2)
      (fun entry => used entry.1 ∧ entry.2 ∈ productions ∧
        entry.2.precedence = .level entry.1 ∧ entry.2.isExtending = extending)
      (levelled productions extending numbers) where
  mem_iff entry := by
    obtain ⟨number, production⟩ := entry
    simp only [levelled, List.mem_flatMap, List.mem_map, Prod.mk.injEq, ascending.mem_iff, select,
      List.mem_filter, Bool.and_eq_true, beq_iff_eq]
    constructor
    · rintro ⟨_, known, _, ⟨mem, level, side⟩, rfl, rfl⟩
      exact ⟨known, mem, level, side⟩
    · rintro ⟨known, mem, level, side⟩
      exact ⟨number, known, production, ⟨mem, level, side⟩, rfl, rfl⟩
  ordered := by
    refine List.pairwise_flatMap.mpr ⟨fun number _ => ?_, ascending.ordered.imp ?_⟩
    · refine List.pairwise_map.mpr ((ordered.filter _).imp_of_mem ?_)
      intro first second mem mem' earlier
      refine .inr ⟨?_, earlier⟩
      rw [(mem_of_mem_select mem).2.1, (mem_of_mem_select mem').2.1]
    · intro number other less first mem second mem'
      obtain ⟨production, selected, rfl⟩ := List.mem_map.mp mem
      obtain ⟨production', selected', rfl⟩ := List.mem_map.mp mem'
      left
      rw [(mem_of_mem_select selected).2.1, (mem_of_mem_select selected').2.1]
      exact UInt32.lt_iff_toNat_lt.mp less

theorem openers_eq : (ofProductions productions).openers =
    (levelled productions false (levelNumbers productions)).map Prod.snd := by
  simp [ofProductions, levelled, List.map_flatMap, Function.comp_def]

theorem extending_eq : (ofProductions productions).levels.flatMap Level.extending =
    (levelled productions true (levelNumbers productions)).map Prod.snd := by
  simp [ofProductions, levelled, List.map_flatMap, List.flatMap_map, Function.comp_def]

theorem extendingFrom_eq (floor : Precedence) : (ofProductions productions).extendingFrom floor =
    levelled productions true
      ((levelNumbers productions).filter fun number => floor.atMost (.level number)) := by
  simp [ofProductions, extendingFrom, levelled, List.filter_map, List.flatMap_map,
    Function.comp_def]

/-- The productions of numbered levels on one side are listed in order. -/
theorem enumerates_side (ordered : productions.Pairwise (Earlier definitions)) (extending : Bool) :
    Enumerates (Before definitions)
      (fun production => production ∈ productions ∧ production.precedence ≠ .atom ∧
        production.isExtending = extending)
      ((levelled productions extending (levelNumbers productions)).map Prod.snd) := by
  have levelled := enumerates_levelled ordered extending (enumerates_levelNumbers productions)
  refine ⟨fun production => ?_, List.pairwise_map.mpr levelled.ordered⟩
  rw [List.mem_map]
  constructor
  · rintro ⟨entry, mem, rfl⟩
    obtain ⟨_, inside, level, side⟩ := (levelled.mem_iff entry).mp mem
    exact ⟨inside, by simp [level], side⟩
  · rintro ⟨inside, numbered, side⟩
    cases level : production.precedence with
    | atom => exact absurd level numbered
    | level number =>
        exact ⟨(number, production),
          (levelled.mem_iff _).mpr ⟨⟨production, inside, level⟩, inside, level, side⟩, rfl⟩

/-- Every production is an atom or on one of the two sides, and listed there once. -/
theorem perm_sides (ordered : productions.Pairwise (Earlier definitions)) :
    ((ofProductions productions).atoms ++ (ofProductions productions).openers ++
      (ofProductions productions).levels.flatMap Level.extending).Perm productions := by
  have distinct : productions.Nodup :=
    (⟨fun _ => Iff.rfl, ordered⟩ : Enumerates (Earlier definitions) (· ∈ productions) _).nodup
      not_earlier_self
  have atoms (production : Production) : production ∈ (ofProductions productions).atoms ↔
      production ∈ productions ∧ production.precedence = .atom := by
    simp [ofProductions]
  have openers := enumerates_side ordered false
  have extending := enumerates_side ordered true
  rw [← openers_eq] at openers
  rw [← extending_eq] at extending
  refine (List.perm_ext_iff_of_nodup ?_ distinct).mpr fun production => ?_
  · refine List.nodup_append.mpr ⟨List.nodup_append.mpr ⟨distinct.filter _,
      openers.nodup not_before_self, ?_⟩, extending.nodup not_before_self, ?_⟩
    · rintro production mem _ mem' rfl
      exact ((openers.mem_iff _).mp mem').2.1 ((atoms _).mp mem).2
    · rintro production mem _ mem' rfl
      obtain ⟨_, numbered, side⟩ := (extending.mem_iff _).mp mem'
      rcases List.mem_append.mp mem with atomic | opens
      · exact numbered ((atoms _).mp atomic).2
      · rw [((openers.mem_iff _).mp opens).2.2] at side
        cases side
  · rw [List.mem_append, List.mem_append, atoms, openers.mem_iff, extending.mem_iff]
    by_cases atomic : production.precedence = .atom
    · simp [atomic]
    · cases production.isExtending <;> simp [atomic]

end Levels

/-! ## The index -/

/-- A grammar indexes definitions. -/
structure Indexes (grammar : Grammar) (definitions : List Definition) : Prop where
  /-- The definitions are registered in their order. -/
  registered : grammar.definitions = definitions
  /-- No name is defined twice. -/
  distinct : (definitions.map (·.name)).Nodup
  /-- A name leads to the definition of this name, if there is one. -/
  named (name : String) (definition : Definition) :
    grammar.node? name = some definition ↔ definition ∈ definitions ∧ definition.name = name
  /-- Every production is listed once among the atoms, the openers and the levels. -/
  once : (grammar.atoms ++ grammar.openers ++ grammar.levels.flatMap Level.extending).Perm
    grammar.productions
  /-- The atoms have the precedence of atoms. -/
  atoms : Enumerates (Earlier definitions)
    (fun production => production ∈ grammar.productions ∧ production.precedence = .atom)
    grammar.atoms
  /-- The openers are those of numbered levels that do not start with a left operand. -/
  openers : Enumerates (Before definitions)
    (fun production => production ∈ grammar.productions ∧ production.precedence ≠ .atom ∧
      production.definition.isExtending = false)
    grammar.openers
  /-- A level has the productions of its number that start with a left operand. -/
  extending : ∀ level ∈ grammar.levels, Enumerates (Earlier definitions)
    (fun production => production ∈ grammar.productions ∧
      production.precedence = .level level.number ∧ production.definition.isExtending = true)
    level.extending
  /-- The levels ascend, and are those in use. -/
  numbers : Enumerates (· < ·)
    (fun number => ∃ definition ∈ definitions, definition.precedence = .level number)
    grammar.numbers
  /-- By the levels and the precedence of atoms every definition is listed once. -/
  byPrecedence :
    ((grammar.numbers.map Precedence.level ++ [Precedence.atom]).flatMap grammar.nodesAt).Perm
      definitions
  /-- From a precedence on there are the productions that start with a left operand and have this
  precedence or a tighter one. -/
  extendingFrom (floor : Precedence) : Enumerates
    (fun first second => Before definitions first.2 second.2)
    (fun entry => entry.2 ∈ grammar.productions ∧ entry.2.precedence = .level entry.1 ∧
      entry.2.definition.isExtending = true ∧ floor.rank ≤ (Precedence.level entry.1).rank)
    (grammar.extendingFrom floor)
  /-- The tokens are the parentheses and the exact texts of all patterns. -/
  tokens : Enumerates
    (fun token other => other.utf8ByteSize < token.utf8ByteSize ∨
      token.utf8ByteSize = other.utf8ByteSize ∧ token < other)
    (fun token => token = "(" ∨ token = ")" ∨
      ∃ definition ∈ definitions, HoldsText token definition.pattern)
    grammar.tokens

variable {definitions : List Definition} {grammar : Grammar}

theorem node?_eq_some_iff (built : build definitions = .ok grammar) {name : String}
    {definition : Definition} :
    grammar.node? name = some definition ↔ definition ∈ definitions ∧ definition.name = name := by
  have registered : grammar.definitions = definitions :=
    (ok_of_compileAll (productions_of_build built).1).1
  constructor
  · intro found
    obtain ⟨production, there, rfl⟩ := Option.map_eq_some_iff.mp found
    rw [← registered]
    have same : production.name = name := by simpa using List.find?_some there
    exact ⟨List.mem_map_of_mem (List.mem_of_find?_eq_some there), same⟩
  · rintro ⟨known, rfl⟩
    rw [← registered] at known
    obtain ⟨production, mem, rfl⟩ := List.mem_map.mp known
    exact node?_of_mem built mem

/-- By ascending levels, and then the precedence of atoms, every definition is listed once. -/
theorem perm_nodesAt {numbers : List UInt32} (distinct : (definitions.map (·.name)).Nodup)
    (ascending : Enumerates (· < ·)
      (fun number => ∃ definition ∈ definitions, definition.precedence = .level number) numbers) :
    ((numbers.map Precedence.level ++ [Precedence.atom]).flatMap fun precedence =>
      definitions.filter (·.precedence == precedence)).Perm definitions := by
  have once := List.Nodup.of_map _ distinct
  have levels : (numbers.map Precedence.level ++ [Precedence.atom]).Nodup := by
    have numbers := ascending.nodup fun number => UInt32.lt_irrefl number
    refine List.nodup_append.mpr ⟨numbers.map fun _ _ same => Precedence.level.inj same, by simp, ?_⟩
    simp
  refine (List.perm_ext_iff_of_nodup ?_ once).mpr fun definition => ?_
  · refine List.nodup_flatMap.mpr ⟨fun precedence _ => once.filter _, levels.imp ?_⟩
    intro precedence other differ definition mem mem'
    rw [List.mem_filter, beq_iff_eq] at mem mem'
    exact differ (mem.2.symm.trans mem'.2)
  · simp only [List.mem_flatMap, List.mem_filter, beq_iff_eq]
    constructor
    · rintro ⟨_, _, known, _⟩
      exact known
    · intro known
      refine ⟨definition.precedence, ?_, known, rfl⟩
      cases level : definition.precedence with
      | atom => simp
      | level number =>
          have used : number ∈ numbers := (ascending.mem_iff number).mpr ⟨definition, known, level⟩
          simp [used]

/-- A grammar that was built indexes its definitions. -/
theorem indexes_of_build (built : build definitions = .ok grammar) : grammar.Indexes definitions := by
  have named := @node?_eq_some_iff _ _ built
  obtain ⟨productions, compiled, rfl⟩ := Descriptor.ok_of_map built
  obtain ⟨registered, checked, distinct⟩ := ok_of_compileAll compiled
  have ordered : productions.Pairwise (Earlier definitions) := registered ▸ pairwise_earlier distinct
  have distinct : (definitions.map (·.name)).Nodup := by
    rw [← registered, List.map_map]
    exact distinct
  have side {production : Production} (mem : production ∈ productions) :
      production.isExtending = production.definition.isExtending :=
    isExtending_of_compileDefinition (checked production mem).1.compiled
  have definitionOf (holds : Definition → Prop) :
      (∃ production ∈ productions, holds production.definition) ↔
        ∃ definition ∈ definitions, holds definition := by
    rw [← registered]
    simp
  have numbers : Enumerates (· < ·)
      (fun number => ∃ definition ∈ definitions, definition.precedence = .level number)
      (levelNumbers productions) :=
    (enumerates_levelNumbers productions).congr fun number =>
      definitionOf fun definition => definition.precedence = .level number
  have same : (ofProductions productions).numbers = levelNumbers productions := by
    simp [Grammar.numbers, ofProductions, Function.comp_def]
  exact
    { registered
      distinct
      named := fun name definition => named
      once := perm_sides ordered
      atoms := ⟨by simp [ofProductions], ordered.filter _⟩
      openers := by
        rw [openers_eq]
        refine (enumerates_side ordered false).congr fun production => ?_
        refine and_congr_right fun mem => ?_
        rw [side mem]
      extending := by
        intro level mem
        obtain ⟨number, _, rfl⟩ := List.mem_map.mp mem
        refine ⟨fun production => ?_, ordered.filter _⟩
        rw [select, List.mem_filter, Bool.and_eq_true, beq_iff_eq, beq_iff_eq]
        refine and_congr_right fun mem => ?_
        rw [side mem]
      numbers := by rwa [same]
      byPrecedence := by
        have nodesAt : (ofProductions productions).nodesAt = fun precedence =>
            definitions.filter (·.precedence == precedence) := by
          rw [← registered]
          rfl
        rw [same, nodesAt]
        exact perm_nodesAt distinct numbers
      extendingFrom := by
        intro floor
        rw [extendingFrom_eq]
        refine (enumerates_levelled ordered true (numbers.filter _)).congr fun entry => ?_
        rw [Precedence.atMost, decide_eq_true_eq,
          ← definitionOf fun definition => definition.precedence = .level entry.1]
        constructor
        · rintro ⟨⟨_, tight⟩, mem, level, leftFirst⟩
          exact ⟨mem, level, side mem ▸ leftFirst, tight⟩
        · rintro ⟨mem, level, leftFirst, tight⟩
          exact ⟨⟨⟨entry.2, mem, level⟩, tight⟩, mem, level, (side mem).trans leftFirst⟩
      tokens := by
        refine (enumerates_tokens productions).congr fun token => ?_
        refine or_congr_right (or_congr_right (Iff.trans ?_ (definitionOf _)))
        refine exists_congr fun production => and_congr_right fun mem => ?_
        exact mem_patternTokens_of_compileDefinition (checked production mem).1.compiled }

/-- Definitions of atoms, of openers and of nodes that start with a left operand, levels mixed, with a
group inside of a group. -/
def assortedDefinitions : List Definition :=
  [Definition.binary "product" 7 "*" (some "number"),
    Definition.plain "opposite" (.level 8)
      [.text "-", .operand .rhs (some "number") (some "operand")],
    Definition.plain "list" .atom
      [.text "[", .operand .expr none (some "first"),
        .optional [.text ",", .operand .expr none (some "second"), .optional [.text "..."]],
        .text "]"],
    Definition.binary "sum" 6 "+" (some "number"),
    Definition.binary "difference" 6 "-" (some "number")]

theorem indexes_of_build_assorted : ∃ grammar, build assortedDefinitions = .ok grammar ∧
    grammar.Indexes assortedDefinitions ∧ grammar.numbers = [6, 7, 8] ∧
    grammar.tokens = ["...", "(", ")", "*", "+", ",", "-", "[", "]"] := by
  have listed : (match build assortedDefinitions with
      | .ok grammar => grammar.numbers == [6, 7, 8] &&
          grammar.tokens == ["...", "(", ")", "*", "+", ",", "-", "[", "]"]
      | .error _ => false) = true := by
    decide +kernel
  split at listed
  · next grammar built =>
      rw [Bool.and_eq_true, beq_iff_eq, beq_iff_eq] at listed
      exact ⟨grammar, built, indexes_of_build built, listed⟩
  · cases listed

end Grammar

end Mixfix
