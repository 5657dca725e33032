import Mathlib.Data.List.Basic
import Mixfix.Grammar.Listing
import Mixfix.Proofs.Grammar.Checks

/-!
# The index and the order of definitions

Definitions can be put in another order that leaves those of each precedence in the order they were in
(`Rearranges`). The grammar of the definitions then keeps its index: levels, atoms, openers and tokens
are the same, and only the list of all productions is another one (`eq_reorder_of_build`).

Levels and tokens are gathered by insertion into ordered lists, which keeps them in order
(`pairwise_place`). In which order items are put in their places makes no difference (`place_comm`), so
what is gathered from a permuted list is the same.

Names lead to the same definitions (`node?_of_rearranges`), since no name is defined twice, and the
listing is the same text (`listing_of_rearranges`), since it goes by precedences.
-/

set_option autoImplicit false

namespace Mixfix

/-! ## Insertion in order -/

/-- A strict order in which any two items can be compared. -/
structure Orders {α : Type} (before : α → α → Bool) : Prop where
  irrefl (item : α) : before item item = false
  trans {first second third : α} (earlier : before first second = true)
    (later : before second third = true) : before first third = true
  total (first second : α) :
    before first second = true ∨ first = second ∨ before second first = true

section Place

variable {α : Type} [DecidableEq α] {before : α → α → Bool}

/-- Puts an item in its place in an ordered list without repetitions. -/
def place (before : α → α → Bool) (item : α) : List α → List α
  | [] => [item]
  | other :: rest =>
    if before item other then item :: other :: rest
    else if item = other then other :: rest
    else other :: place before item rest

/-- Which of two items is put in its place first makes no difference. -/
theorem place_comm (orders : Orders before) (first second : α) (items : List α) :
    place before first (place before second items) =
      place before second (place before first items) := by
  have irrefl := orders.irrefl
  have trans := @orders.trans
  have total := orders.total
  induction items with
  | nil => grind [place]
  | cons other rest ih => grind [place]

theorem mem_place {item other : α} {items : List α} :
    other ∈ place before item items ↔ other = item ∨ other ∈ items := by
  induction items with
  | nil => rw [place, List.mem_cons]
  | cons first rest ih =>
      unfold place
      split
      · exact List.mem_cons
      · split
        · next same => rw [same, List.mem_cons, or_iff_right_of_imp Or.inl]
        · rw [List.mem_cons, List.mem_cons, ih]
          exact or_left_comm

/-- What is put in its place keeps the order. -/
theorem pairwise_place (orders : Orders before) (item : α) {items : List α}
    (ordered : items.Pairwise (before · · = true)) :
    (place before item items).Pairwise (before · · = true) := by
  induction items with
  | nil => exact List.pairwise_singleton _ _
  | cons first rest ih =>
      obtain ⟨above, later⟩ := List.pairwise_cons.mp ordered
      unfold place
      split
      · next earlier =>
          refine List.pairwise_cons.mpr ⟨fun other mem => ?_, ordered⟩
          rcases List.mem_cons.mp mem with rfl | inside
          · exact earlier
          · exact orders.trans earlier (above other inside)
      · next notEarlier =>
          split
          · exact ordered
          · next differs =>
              refine List.pairwise_cons.mpr ⟨fun other mem => ?_, ih later⟩
              rcases mem_place.mp mem with rfl | inside
              · exact ((orders.total _ _).resolve_left notEarlier).resolve_left differs
              · exact above other inside

end Place

theorem orders_number : Orders fun (number other : UInt32) => decide (number < other) where
  irrefl number := by simp
  trans earlier later := by
    simp only [decide_eq_true_eq] at *
    exact UInt32.lt_trans earlier later
  total first second := by
    simp only [decide_eq_true_eq]
    exact Std.lt_trichotomy first second

theorem orders_precedesToken : Orders precedesToken where
  irrefl token := by
    simp only [precedesToken, Nat.lt_irrefl, String.lt_irrefl, decide_false, Bool.and_false,
      Bool.or_false]
  trans earlier later := by
    have trans := @String.lt_trans
    simp only [precedesToken, Bool.or_eq_true, Bool.and_eq_true, decide_eq_true_eq,
      beq_iff_eq] at *
    grind
  total first second := by
    simp only [precedesToken, Bool.or_eq_true, Bool.and_eq_true, decide_eq_true_eq, beq_iff_eq]
    grind

theorem insertLevel_eq_place (number : UInt32) (numbers : List UInt32) :
    insertLevel number numbers = place (fun number other => number < other) number numbers := by
  induction numbers with
  | nil => rfl
  | cons other rest ih => simp only [insertLevel, place, ih, decide_eq_true_eq]

theorem insertToken_eq_place (token : String) (tokens : List String) :
    insertToken token tokens = place precedesToken token tokens := by
  induction tokens with
  | nil => rfl
  | cons other rest ih => simp only [insertToken, place, ih]

theorem insertLevel_comm (first second : UInt32) (numbers : List UInt32) :
    insertLevel first (insertLevel second numbers) =
      insertLevel second (insertLevel first numbers) := by
  simp only [insertLevel_eq_place]
  exact place_comm orders_number first second numbers

theorem insertToken_comm (first second : String) (tokens : List String) :
    insertToken first (insertToken second tokens) =
      insertToken second (insertToken first tokens) := by
  simp only [insertToken_eq_place]
  exact place_comm orders_precedesToken first second tokens

/-! ## Rearranging -/

/-- A list is put in another order, which leaves the items of each precedence in the order they were
in. -/
structure Rearranges {α : Type} (precedence : α → Precedence) (items reordered : List α) : Prop where
  perm : items.Perm reordered
  stable (level : Precedence) :
    items.filter (precedence · == level) = reordered.filter (precedence · == level)

/-- What is made of items of a precedence stays at this precedence, so the order of what is made of all
items changes as theirs does. -/
theorem Rearranges.filterMap {α β : Type} {precedence : α → Precedence} {made : β → Precedence}
    {items reordered : List α} (rearranges : Rearranges precedence items reordered)
    {make : α → Option β} (keeps : ∀ item, ∀ result ∈ make item, made result = precedence item) :
    Rearranges made (items.filterMap make) (reordered.filterMap make) where
  perm := rearranges.perm.filterMap make
  stable level := by
    have moved (items : List α) : (items.filterMap make).filter (made · == level) =
        (items.filter (precedence · == level)).filterMap make := by
      rw [List.filter_filterMap, List.filterMap_filter]
      congr 1
      funext item
      cases result : make item with
      | none => simp
      | some result' =>
          simp only [Option.filter_some, keeps item result' result]
    rw [moved, moved, rearranges.stable]

/-- The productions are made of the definitions one by one. -/
theorem productions_eq_filterMap {taken : List String} {definitions : List Definition}
    {productions : List Production} (ok : compileAll taken definitions = .ok productions) :
    productions = definitions.filterMap fun definition =>
      (compileDefinition definition).toOption := by
  obtain ⟨same, checked, _⟩ := ok_of_compileAll ok
  rw [← same, List.filterMap_map]
  have compiled : ∀ production ∈ productions,
      (compileDefinition production.definition).toOption = some production := by
    intro production mem
    rw [(checked production mem).1.compiled]
    rfl
  exact ((List.filterMap_eq_map_iff_forall_eq_some.mpr compiled).trans (List.map_id' _)).symm

namespace Grammar

variable {definitions reordered : List Definition} {grammar other : Grammar}

/-- The same index over another list of productions. -/
def reorder (grammar : Grammar) (productions : List Production) : Grammar :=
  { grammar with productions }

/-- Rearranged definitions have rearranged productions. -/
theorem rearranges_productions
    (rearranges : Rearranges Definition.precedence definitions reordered)
    (built : build definitions = .ok grammar) (rebuilt : build reordered = .ok other) :
    Rearranges Production.precedence grammar.productions other.productions := by
  rw [productions_eq_filterMap (productions_of_build built).1,
    productions_eq_filterMap (productions_of_build rebuilt).1]
  refine rearranges.filterMap fun definition production made => ?_
  cases compiled : compileDefinition definition with
  | error error =>
      rw [compiled] at made
      cases made
  | ok production' =>
      rw [compiled] at made
      obtain rfl := Option.some.inj made
      rw [Production.precedence, (isChecked_of_compileDefinition compiled).1]

section Productions

variable {productions moved : List Production}
  (rearranges : Rearranges Production.precedence productions moved)
include rearranges

theorem levelNumbers_of_rearranges : levelNumbers productions = levelNumbers moved := by
  refine rearranges.perm.foldl_eq' (fun first _ second _ numbers => ?_) []
  cases first.precedence <;> cases second.precedence <;> simp only [insertLevel_comm]

theorem select_of_rearranges (precedence : Precedence) (extending : Bool) :
    select productions precedence extending = select moved precedence extending := by
  have inTurn (productions : List Production) : select productions precedence extending =
      (productions.filter (·.precedence == precedence)).filter (·.isExtending == extending) := by
    rw [select, List.filter_filter]
    simp only [Bool.and_comm]
  rw [inTurn, inTurn, rearranges.stable]

theorem tokens_of_rearranges :
    (ofProductions productions).tokens = (ofProductions moved).tokens := by
  have perm := rearranges.perm.flatMap_right (patternTokens ·.elements)
  exact ((perm.cons closeParen).cons openParen).foldl_eq'
    (fun first _ second _ tokens => insertToken_comm second first tokens) []

/-- Rearranged productions have the same index. -/
theorem ofProductions_of_rearranges :
    ofProductions moved = (ofProductions productions).reorder moved := by
  have numbers := levelNumbers_of_rearranges rearranges
  have tokens := tokens_of_rearranges rearranges
  have atoms := rearranges.stable .atom
  have select := select_of_rearranges rearranges
  simp only [ofProductions, reorder] at tokens ⊢
  simp only [numbers, select, atoms, tokens]

end Productions

/-- The grammar of rearranged definitions has the same index. -/
theorem eq_reorder_of_build (rearranges : Rearranges Definition.precedence definitions reordered)
    (built : build definitions = .ok grammar) (rebuilt : build reordered = .ok other) :
    other = grammar.reorder other.productions := by
  calc other = ofProductions other.productions := (productions_of_build rebuilt).2
    _ = (ofProductions grammar.productions).reorder other.productions :=
      ofProductions_of_rearranges (rearranges_productions rearranges built rebuilt)
    _ = grammar.reorder other.productions := by rw [← (productions_of_build built).2]

/-- Names lead to the same definitions in the grammar of rearranged definitions. -/
theorem node?_of_rearranges (rearranges : Rearranges Definition.precedence definitions reordered)
    (built : build definitions = .ok grammar) (rebuilt : build reordered = .ok other)
    (name : String) : grammar.node? name = other.node? name := by
  have perm := (rearranges_productions rearranges built rebuilt).perm
  cases found : grammar.productions.find? (·.name == name) with
  | some production =>
      have mem := List.mem_of_find?_eq_some found
      have named : production.name = name := by simpa using List.find?_some found
      rw [← named, node?_of_mem built mem, node?_of_mem rebuilt (perm.mem_iff.mp mem)]
  | none =>
      have missing : other.productions.find? (·.name == name) = none := by
        rw [List.find?_eq_none] at found ⊢
        exact fun production mem => found production (perm.mem_iff.mpr mem)
      rw [node?, node?, found, missing]

/-- The listing does not tell in which order precedences were mixed. -/
theorem listing_of_rearranges
    (rearranges : Rearranges Definition.precedence definitions reordered)
    (built : build definitions = .ok grammar) (rebuilt : build reordered = .ok other) :
    grammar.listing = other.listing := by
  have declared {definitions : List Definition} {grammar : Grammar}
      (built : build definitions = .ok grammar) : grammar.definitions = definitions :=
    (ok_of_compileAll (productions_of_build built).1).1
  have numbers : other.numbers = grammar.numbers := by
    rw [eq_reorder_of_build rearranges built rebuilt]
    rfl
  have width : (definitions.map (·.name.utf8ByteSize)).foldl max 0 =
      (reordered.map (·.name.utf8ByteSize)).foldl max 0 :=
    (rearranges.perm.map _).foldl_eq' (fun first _ second _ width => Nat.max_right_comm _ _ _) 0
  have sections (width : Nat) (precedence : Precedence) :
      grammar.section? width precedence = other.section? width precedence := by
    rw [section?, section?, nodesAt, nodesAt, declared built, declared rebuilt,
      rearranges.stable precedence]
  simp only [listing, declared built, declared rebuilt, width, numbers, funext (sections _)]

end Grammar

end Mixfix
