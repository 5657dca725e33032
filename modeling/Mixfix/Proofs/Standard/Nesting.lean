import Mixfix.Proofs.Standard.Levels
import Mixfix.Proofs.Standard.Subtrees

/-!
# How operators nest in what is read

An operand without parentheses is as tight as the table of levels asks for (`KeepsLevels`).

**Last operands.** They are read with a floor, and an operator outside of parentheses is not looser
than the floor (`Written.floor_le_level`).

**First operands.** They are complete when the operator behind them is met, and operators are tried
by the types that they take. So it has to be excluded that an operator takes a node although the
node's own last operand, which was there before, could have been extended by it. By the table an
operator that is tight enough for this and takes the node takes its last operand as well
(`accepts_last`), and so would have been taken earlier (`Written.stops_edge`).
-/

set_option autoImplicit false

namespace Mixfix.Standard

open Parse Lexeme Descriptor

variable {schema : Schema} {limit depth : Nat} {floor : Precedence} {tree : Tree}
  {cursor next : Cursor}

/-! ## Operators that take a node take its last operand -/

/-- The kind of an answer, if it is the same for all operands. -/
def Answer.kind? : Answer → Option Kind
  | .truth => some .boolean
  | .number => some .number
  | .text => some .string
  | .either => none

/-- Whether an outer demand that accepts a node accepts its last operand, by the demand on the last
operand and the answer of the node. -/
def Demand.passesOn (outer inner : Demand) (answer : Answer) : Bool :=
  outer == .anything || answer == .either ||
    (inner != .anything && inner.kinds.all outer.kinds.contains) ||
    answer.kind?.any fun kind => !outer.kinds.contains kind

theorem Answer.typeOf_of_kind? {answer : Answer} {kind : Kind} (fixed : answer.kind? = some kind)
    (operands : List Descriptor) : answer.typeOf operands = plain kind := by
  cases answer <;> cases fixed <;> rfl

theorem Demand.mem_kinds_of_accepts {demand : Demand} {type : Descriptor} {kind : Kind}
    (asked : type ∈ demand.type?) (accepted : type.accepts (plain kind) = true) :
    kind ∈ demand.kinds := by
  have covered := (Demand.accepts_single_iff asked rfl).mp accepted _ rfl
  obtain ⟨other, known, same⟩ := List.mem_map.mp covered
  exact Kind.keyword_injective same ▸ known

/-- An outer demand that accepts a node accepts its last operand, if the two demands and the answer
allow to conclude so. -/
theorem accepts_last {outer inner : Demand} {answer : Answer} {operands : List Descriptor}
    {last : Descriptor} (passes : outer.passesOn inner answer = true)
    (wellFormed : ∀ operand ∈ operands, WellFormed operand) (mem : last ∈ operands)
    (accepted : ∀ type ∈ inner.type?, type.accepts last = true)
    (taken : ∀ type ∈ outer.type?, type.accepts (answer.typeOf operands) = true) :
    ∀ type ∈ outer.type?, type.accepts last = true := by
  intro type asked
  simp only [Demand.passesOn, Bool.or_eq_true, beq_iff_eq, Bool.and_eq_true, bne_iff_ne] at passes
  rcases passes with ((rfl | rfl) | ⟨something, contained⟩) | differs
  · cases asked
  · exact (Demand.accepts_sortedUnion_iff asked (List.ne_nil_of_mem mem) wellFormed).mp
      (taken type asked) last mem
  · obtain ⟨narrow, asked'⟩ : ∃ narrow, narrow ∈ inner.type? := by
      cases inner <;> first | exact absurd rfl something | exact ⟨_, rfl⟩
    have covered := (Demand.accepts_iff asked' (wellFormed last mem)).mp (accepted narrow asked')
    refine (Demand.accepts_iff asked (wellFormed last mem)).mpr fun member inside name named => ?_
    obtain ⟨kind, known, same⟩ := List.mem_map.mp (covered member inside name named)
    exact List.mem_map.mpr ⟨kind, by simpa using List.all_eq_true.mp contained kind known, same⟩
  · obtain ⟨kind, fixed, outside⟩ := Option.any_eq_true _ _ |>.mp differs
    have type_eq := Answer.typeOf_of_kind? fixed operands
    have inside := Demand.mem_kinds_of_accepts asked (type_eq ▸ taken type asked)
    simp [inside] at outside

theorem Infix.passesOn : ∀ op ∈ infixes, ∀ outer ∈ demands,
    op.rightFloor.atMost (.level outer.1) = true →
      outer.2.passesOn op.demand op.answer = true := by
  decide

theorem Opener.passesOn : ∀ op ∈ openers, ∀ outer ∈ demands,
    openerFloor.atMost (.level outer.1) = true →
      outer.2.passesOn op.demand op.answer = true := by
  decide

/-- What stops at the last operand of a node stops at the node. -/
theorem stops_node {inner : Demand} {answer : Answer} {last : Tree} {operands : List Descriptor}
    (passes : ∀ outer ∈ demands, floor.atMost (.level outer.1) = true →
      outer.2.passesOn inner answer = true)
    (wellFormed : ∀ operand ∈ operands, WellFormed operand) (mem : last.type ∈ operands)
    (accepted : ∀ type ∈ inner.type?, type.accepts last.type = true)
    (type : tree.type = answer.typeOf operands) (ends : Stops floor last next) :
    Stops floor tree next := by
  intro c known tight taken
  obtain ⟨outer, listed, takes_iff⟩ := exists_demand known
  refine ends c known tight ((takes_iff last).mpr ?_)
  exact accepts_last (passes _ listed tight) wellFormed mem accepted
    (type ▸ (takes_iff tree).mp taken)

/-! ## Parentheses widen -/

/-- Parentheses start before what is between them. -/
theorem Written.opens_before {opening : Lexeme String}
    (opened : token? table.tokens openParen cursor = some opening)
    (inside : Written schema limit depth floor tree opening.next next) :
    opening.span.start < tree.span.start := by
  obtain ⟨span, passes⟩ := starts_of_standard paren_mem.1 opened
  rw [span, inside.stands.2]
  exact Nat.lt_of_lt_of_le passes.offset_lt (Cursor.reaches_skipBlanks _).offset_le

/-- The core of a tree does not start before its span. -/
theorem Written.start_le_core (written : Written schema limit depth floor tree cursor next) :
    tree.span.start ≤ tree.extent.core.start := by
  induction written with
  | group opened inside ends closed ih =>
      rw [span_widen, Tree.extent_widen]
      exact Nat.le_trans (Nat.le_of_lt (inside.opens_before opened)) ih
  | field shut noConstant noOpener found =>
      obtain ⟨path, entry, _, _, _, rfl, _, _⟩ := reference?_ok found
      exact Nat.le_refl _
  | _ => exact Nat.le_refl _

/-- What stands in parentheses is not bare. -/
theorem Written.group_not_bare {opening closing : Lexeme String}
    (opened : token? table.tokens openParen cursor = some opening)
    (inside : Written schema limit depth floor tree opening.next next) :
    (tree.widen ⟨opening.span.start, closing.span.stop⟩).isBare = false := by
  have differ := Nat.lt_of_lt_of_le (inside.opens_before opened) inside.start_le_core
  rw [Tree.isBare, Tree.extent_widen, beq_eq_false_iff_ne]
  intro same
  rw [← same] at differ
  exact Nat.lt_irrefl _ differ

theorem isBare_nodeOf (production : Production) (bindings : Bindings) (start : Nat)
    (next : Cursor) : (nodeOf production bindings start next).isBare = true := by
  simp [nodeOf, Tree.ofMatch, Tree.isBare, Tree.extent, Extent.bare]

/-! ## Operators outside of parentheses -/

theorem nodeName?_infixNode (op : Infix) (left right : Tree) (next : Cursor) :
    nodeName? (op.node left right next) = some op.candidate.2.name := rfl

theorem nodeName?_opener (op : Opener) (operand : Tree) (start : Nat) (next : Cursor) :
    nodeName? (op.node operand start next) = some op.name := rfl

theorem nodeName?_choice (condition positive negative : Tree) (next : Cursor) :
    nodeName? (choiceNode condition positive negative next) = some choice.name := rfl

theorem infixLevel?_of_name {c : UInt32 × Production} (mem : c ∈ candidates)
    (named : nodeName? tree = some c.2.name) : infixLevel? tree = some c.1.toNat := by
  rw [infixLevel?, named, Option.bind_some, levelOf?_candidate c mem]

theorem Infix.candidate_mem {op : Infix} (known : op ∈ infixes) : op.candidate ∈ candidates :=
  mem_candidates.mpr (.inr ⟨op, known, rfl⟩)

theorem choice_mem_candidates : ((1, choice) : UInt32 × Production) ∈ candidates :=
  mem_candidates.mpr (.inl rfl)

/-- An operator outside of parentheses is not looser than the floor. -/
theorem Written.floor_le_level (written : Written schema limit depth floor tree cursor next)
    (bare : tree.isBare = true) {level : Nat} (found : infixLevel? tree = some level) :
    floor.rank ≤ level := by
  cases written with
  | constant shut noConstant => cases found
  | field shut noConstant noOpener reference =>
      obtain ⟨path, entry, _, _, _, rfl, _, _⟩ := reference?_ok reference
      cases found
  | group opened inside ends closed => simp [inside.group_not_bare opened] at bare
  | @opener _ _ _ _ operand op lexeme known shut noConstant led inside ends accepted shallow =>
      rw [infixLevel?, nodeName?_opener, Option.bind_some, levelOf?_opener op known] at found
      cases found
  | @between _ _ _ _ _ left right op lexeme known tight before chosen led inside ends accepted =>
      rw [infixLevel?_of_name (Infix.candidate_mem known) (nodeName?_infixNode _ _ _ _)] at found
      cases found
      exact of_decide_eq_true tight
  | chosen tight before extended led inside ends divided last lastEnds shallow =>
      rw [infixLevel?_of_name choice_mem_candidates (nodeName?_choice _ _ _ _)] at found
      cases found
      exact of_decide_eq_true tight

/-- No operator from the open end of a tree on that takes the tree stands behind it. -/
theorem Written.stops_edge (types : Schema.All WellFormed schema)
    (written : Written schema limit depth floor tree cursor next) (bare : tree.isBare = true)
    {c : UInt32 × Production} (mem : c ∈ candidates) (tight : edge tree ≤ c.1.toNat)
    (taken : takes c.2 tree = true) : ahead table c.2 next = false := by
  have bounded : ∀ c ∈ candidates, c.1.toNat < 10 ∧ c.1.toNat ≠ 8 := by decide
  cases written with
  | constant shut noConstant => exact absurd tight (Nat.not_le.mpr (bounded c mem).1)
  | field shut noConstant noOpener reference =>
      obtain ⟨path, entry, _, _, _, rfl, _, _⟩ := reference?_ok reference
      exact absurd tight (Nat.not_le.mpr (bounded c mem).1)
  | group opened inside ends closed => simp [inside.group_not_bare opened] at bare
  | @opener _ _ _ _ operand op lexeme known shut noConstant led inside ends accepted shallow =>
      rw [edge_opener known (nodeName?_opener _ _ _ _)] at tight
      have stops := stops_node (op.passesOn known) (by simpa using inside.wellFormed_type types)
        List.mem_cons_self accepted (op.type_node known operand lexeme.span.start next) ends
      exact stops c mem (decide_eq_true (Nat.le_of_succ_le tight)) taken
  | @between _ _ _ _ _ left right op lexeme known tight' before chosen led inside ends accepted =>
      rw [edge_candidate (Infix.candidate_mem known) (nodeName?_infixNode _ _ _ _),
        ← op.rank_rightFloor known] at tight
      have stops := stops_node (op.passesOn known)
        (by simpa using ⟨before.wellFormed_type types, inside.wellFormed_type types⟩)
        (by simp) accepted (op.type_node left right next) ends
      exact stops c mem (decide_eq_true tight) taken
  | @chosen _ _ _ _ _ _ condition positive negative mark colon tight' before extended led inside
      ends divided last lastEnds shallow =>
      rw [edge_candidate choice_mem_candidates (nodeName?_choice _ _ _ _)] at tight
      have passes : ∀ outer ∈ demands, choiceFloor.atMost (.level outer.1) = true →
          outer.2.passesOn .anything .either = true := by
        decide
      have stops := stops_node passes
        (by simpa using ⟨inside.wellFormed_type types, last.wellFormed_type types⟩)
        (by simp) (by rintro type ⟨⟩) (type_choiceNode condition positive negative next) lastEnds
      exact stops c mem (decide_eq_true tight) taken

/-! ## Operands without parentheses -/

/-- A first operand that is bare needs no parentheses. -/
theorem Written.left_clear (types : Schema.All WellFormed schema)
    (written : Written schema limit depth floor tree cursor next) {c : UInt32 × Production}
    (extended : extender? tree next = some c) {place : String}
    (first : place = "left" ∨ place = "condition") (bare : tree.isBare = true) :
    needsParens c.2.name place tree = false := by
  obtain ⟨mem, taken, stands⟩ := extender?_spec extended
  refine Standard.left_clear mem first (Nat.lt_of_not_le fun tight => ?_)
  rw [written.stops_edge types bare mem tight taken] at stands
  cases stands

/-- A last operand that is bare needs no parentheses. -/
theorem Written.right_clear (written : Written schema limit depth floor tree cursor next)
    {c : UInt32 × Production} (mem : c ∈ candidates) (floor_eq : floor.rank = rightLevel c)
    {place : String} (last : place = "right" ∨ place = "else") (bare : tree.isBare = true) :
    needsParens c.2.name place tree = false :=
  Standard.right_clear mem last fun _ found => floor_eq ▸ written.floor_le_level bare found

/-- The operand of an operator before it that is bare needs no parentheses. -/
theorem Written.operand_clear (written : Written schema limit depth openerFloor tree cursor next)
    (bare : tree.isBare = true) : (infixLevel? tree).any (· < 8) = false := by
  cases found : infixLevel? tree with
  | none => rfl
  | some level =>
      have tight : 8 ≤ level := written.floor_le_level bare found
      simp [Nat.not_lt.mpr tight]

/-- An operand is clear if it is in parentheses or needs none. -/
def IsClear (tree : Tree) : Prop :=
  ∀ name, nodeName? tree = some name → ∀ operand ∈ tree.operands,
    operand.2.isBare = true → needsParens name operand.1 operand.2 = false

theorem nodeName?_widen (tree : Tree) (span : Span) :
    nodeName? (tree.widen span) = nodeName? tree := by
  cases tree <;> rfl

/-- The operands of what is written are in parentheses or need none. -/
theorem Written.isClear (types : Schema.All WellFormed schema)
    (written : Written schema limit depth floor tree cursor next) : IsClear tree := by
  induction written with
  | constant shut found => rintro name ⟨⟩
  | field shut noConstant noOpener found =>
      obtain ⟨path, entry, _, _, _, rfl, _, _⟩ := reference?_ok found
      rintro name ⟨⟩
  | group opened inside ends closed ih =>
      rwa [IsClear, nodeName?_widen, Tree.operands_widen]
  | @opener _ _ _ _ operand op lexeme known shut noConstant led inside ends accepted shallow ih =>
      rintro name ⟨⟩ found mem bare
      obtain rfl := List.mem_singleton.mp mem
      simpa [needsParens] using inside.operand_clear bare
  | @between _ _ _ _ _ left right op lexeme known tight before chosen led inside ends accepted
      shallow =>
      rintro name ⟨⟩ operand mem bare
      simp only [Infix.operands_node, List.mem_cons, List.not_mem_nil, or_false] at mem
      rcases mem with rfl | rfl
      · exact before.left_clear types chosen (.inl rfl) bare
      · exact inside.right_clear (Infix.candidate_mem known) (op.rank_rightFloor known) (.inl rfl)
          bare
  | chosen tight before extended led inside ends divided last lastEnds shallow =>
      rintro name ⟨⟩ operand mem bare
      simp only [operands_choiceNode, List.mem_cons, List.not_mem_nil, or_false] at mem
      rcases mem with rfl | rfl | rfl
      · exact before.left_clear types extended (.inr rfl) bare
      · exact last.right_clear choice_mem_candidates (by decide) (.inr rfl) bare
      · rfl

/-- The operands without parentheses are as tight as the levels of the nodes ask for. -/
structure KeepsLevels (tree : Tree) : Prop where
  /-- A first operand is at least as tight as its node, and tighter than one that is chained from
  right to left. -/
  first {level inner : Nat} {place : String} {operand : Tree}
    (node : infixLevel? tree = some level) (mem : (place, operand) ∈ tree.operands)
    (start : place = "left" ∨ place = "condition") (bare : operand.isBare = true)
    (found : infixLevel? operand = some inner) :
    level ≤ inner ∧ ((nodeName? tree).any isRightward = true → level < inner)
  /-- A last operand is at least as tight as its node, and tighter than one that is chained from
  left to right. -/
  last {level inner : Nat} {place : String} {operand : Tree}
    (node : infixLevel? tree = some level) (mem : (place, operand) ∈ tree.operands)
    (stop : place = "right" ∨ place = "else") (bare : operand.isBare = true)
    (found : infixLevel? operand = some inner) :
    level ≤ inner ∧ ((nodeName? tree).any isRightward = false → level < inner)
  /-- The operand of an operator before it has at least level eight. -/
  opened {inner : Nat} {operand : Tree} (mem : ("operand", operand) ∈ tree.operands)
    (bare : operand.isBare = true) (found : infixLevel? operand = some inner) : 8 ≤ inner
  /-- The left operand of a power is no operator before an operand. -/
  power {operand : Tree} (node : nodeName? tree = some "pow")
    (mem : ("left", operand) ∈ tree.operands) (bare : operand.isBare = true) :
    isOpened operand = false

theorem exists_name_of_operand {operand : String × Tree} (mem : operand ∈ tree.operands) :
    ∃ name, nodeName? tree = some name := by
  cases tree with
  | node name bindings type depth extent => exact ⟨name, rfl⟩
  | _ => cases mem

/-- The operands of what is written are as tight as the levels of the nodes ask for. -/
theorem Written.keepsLevels (types : Schema.All WellFormed schema)
    (written : Written schema limit depth floor tree cursor next) : KeepsLevels tree where
  first node mem start bare found := by
    obtain ⟨c, known, rfl, named⟩ := exists_candidate node
    have clear := written.isClear types _ named _ mem bare
    rw [needsParens_first known start, Bool.or_eq_false_iff, found] at clear
    rw [named]
    exact looserLeft_eq_false.mp clear.1
  last node mem stop bare found := by
    obtain ⟨c, known, rfl, named⟩ := exists_candidate node
    have clear := written.isClear types _ named _ mem bare
    rw [needsParens_last known stop, found] at clear
    rw [named]
    exact looserRight_eq_false.mp clear
  opened mem bare found := by
    obtain ⟨name, named⟩ := exists_name_of_operand mem
    have clear := written.isClear types _ named _ mem bare
    simpa [needsParens, found] using clear
  power node mem bare := by
    have known : exponentiation.candidate ∈ candidates := by
      exact Infix.candidate_mem (List.mem_append_right _ List.mem_cons_self)
    have clear := written.isClear types _ node _ mem bare
    have parts := needsParens_first known (.inl rfl)
    rw [show exponentiation.candidate.2.name = "pow" from rfl] at parts
    rw [parts, Bool.or_eq_false_iff] at clear
    exact clear.2

end Mixfix.Standard
