import Mathlib.Data.List.Nodup
import Mixfix.Proofs.Schema.Retyping
import Mixfix.Proofs.Standard.Notes
import Mixfix.Proofs.Standard.Rereading

/-!
# Types that are taken wherever others are

All demands of the standard operators but that of the concatenation are kept when a type is replaced
by `unknown`, and this is passed on to the types of nodes: a sum in the place of a concatenation is
taken wherever the concatenation was, but for another concatenation (`Relaxes`). So it is for whole
trees that are read anew with a weaker schema (`Written.rereads`).

Hence the operators that extend an expression are the same for an expression that is read anew, except
that a concatenation is chosen anew (`anew?_eq_some_iff`).
-/

set_option autoImplicit false

namespace Mixfix.Standard

open Parse Lexeme
open Descriptor (WellFormed sortedUnion)

variable {schema other : Schema} {limit depth : Nat} {floor : Precedence}
  {tree left left' right right' : Tree} {cursor middle next : Cursor} {op op' : Infix}

/-! ## Types that are asked for less -/

/-- A type is taken wherever another one is, but for texts. -/
def Relaxes (type relaxed : Descriptor) : Prop :=
  ∀ demand : Demand, demand ≠ .text → demand.takes type = true → demand.takes relaxed = true

theorem Relaxes.refl (type : Descriptor) : Relaxes type type := fun _ _ taken => taken

theorem relaxes_unknown (type : Descriptor) : Relaxes type .unknown := by
  intro demand _ _
  rw [Demand.takes_iff]
  intro asked mem
  refine (Demand.accepts_iff mem .unknown).mpr ?_
  simp [Descriptor.members, Demand.Covers, Descriptor.kindName?]

theorem Demand.takes_sortedUnion {demand : Demand} {first second : Descriptor}
    (wellFormed : WellFormed first ∧ WellFormed second) :
    demand.takes (sortedUnion [first, second]) = true ↔
      demand.takes first = true ∧ demand.takes second = true := by
  have inside : ∀ descriptor ∈ [first, second], WellFormed descriptor := by simpa using wellFormed
  simp only [takes_iff]
  constructor
  · intro taken
    have both := fun asked mem => (accepts_sortedUnion_iff mem (List.cons_ne_nil _ _) inside).mp
      (taken asked mem)
    exact ⟨fun asked mem => both asked mem first List.mem_cons_self,
      fun asked mem => both asked mem second (List.mem_cons_of_mem _ List.mem_cons_self)⟩
  · rintro ⟨here, there⟩ asked mem
    refine (accepts_sortedUnion_iff mem (List.cons_ne_nil _ _) inside).mpr fun descriptor known => ?_
    rcases List.mem_cons.mp known with rfl | known
    · exact here asked mem
    · rw [List.mem_singleton.mp known]
      exact there asked mem

theorem Relaxes.sortedUnion {first first' second second' : Descriptor}
    (here : Relaxes first first') (there : Relaxes second second')
    (wellFormed : WellFormed first ∧ WellFormed second)
    (wellFormed' : WellFormed first' ∧ WellFormed second') :
    Relaxes (sortedUnion [first, second]) (sortedUnion [first', second']) := by
  intro demand differs taken
  rw [Demand.takes_sortedUnion wellFormed] at taken
  rw [Demand.takes_sortedUnion wellFormed']
  exact ⟨here demand differs taken.1, there demand differs taken.2⟩

theorem Relaxes.typeOf (answer : Answer) {first first' second second' : Descriptor}
    (here : Relaxes first first') (there : Relaxes second second')
    (wellFormed : WellFormed first ∧ WellFormed second)
    (wellFormed' : WellFormed first' ∧ WellFormed second') :
    Relaxes (answer.typeOf [first, second]) (answer.typeOf [first', second']) := by
  cases answer with
  | either => exact here.sortedUnion there wellFormed wellFormed'
  | _ => exact .refl _

/-- No demand tells a number from a text that takes texts at all, but for that of texts alone. -/
theorem relaxes_string {answer : Answer} (known : answer = .text ∨ answer = .number)
    (operands : List Descriptor) : Relaxes .string (answer.typeOf operands) := by
  have all : ∀ demand : Demand, demand ≠ .text → demand.takes .string = true →
      demand.takes .number = true := by
    intro demand
    cases demand <;> decide
  rcases known with rfl | rfl
  · exact .refl _
  · exact all

/-! ## Weaker schemas -/

/-- Another schema has the same fields, with types that are taken wherever those of the first are,
but for texts. -/
structure Weakens (schema other : Schema) : Prop where
  shape : schema.SameShape other
  relaxes {path : List String} {entry entry' : Entry} (here : schema.resolve path = some entry)
    (there : other.resolve path = some entry') : Relaxes entry.descriptor entry'.descriptor
  types : Schema.All WellFormed schema
  others : Schema.All WellFormed other

theorem weakens_retyped (types : Schema.All WellFormed schema) {path : List String}
    {old : Descriptor} (field : schema.resolve path = some (.type old)) :
    Weakens schema (schema.retyped .unknown path) where
  shape := Schema.sameShape_retyped field
  relaxes {place entry entry'} here there := by
    have view := @Schema.resolve_retyped _ _ .unknown _ field place
    rw [here, there, Option.map_some] at view
    split at view
    · have same : entry'.descriptor = .unknown := congrArg Prod.fst (Option.some.inj view)
      rw [same]
      exact relaxes_unknown _
    · have same : entry'.descriptor = entry.descriptor := congrArg Prod.fst (Option.some.inj view)
      rw [same]
      exact .refl _
  types := types
  others := Schema.all_retyped .unknown types

/-- What a tree that is read anew is like. -/
structure Rereads (tree tree' : Tree) : Prop where
  relaxes : Relaxes tree.type tree'.type
  depth : tree'.depth = tree.depth
  wellFormed : WellFormed tree'.type

namespace Rereads

variable {tree' operand operand' : Tree}

theorem widen (inside : Rereads tree tree') (span : Span) :
    Rereads (tree.widen span) (tree'.widen span) := by
  obtain ⟨relaxes, depth, wellFormed⟩ := inside
  refine ⟨?_, ?_, ?_⟩
  · rwa [Tree.type_widen, Tree.type_widen]
  · rwa [Tree.depth_widen, Tree.depth_widen]
  · rwa [Tree.type_widen]

theorem opener {op : Opener} (known : op ∈ openers) (inside : Rereads operand operand')
    (start : Nat) (next : Cursor) :
    Rereads (op.node operand start next) (op.node operand' start next) := by
  have fixed : ∀ op ∈ openers, op.answer ≠ .either := by decide
  have notEither := fixed op known
  refine ⟨?_, ?_, ?_⟩
  · rw [Opener.type_node known, Opener.type_node known]
    cases answer : op.answer with
    | either => exact absurd answer notEither
    | _ => exact .refl _
  · rw [Opener.depth_node, Opener.depth_node, inside.depth]
  · rw [Opener.type_node known]
    exact closed_wellFormed.typeOf _ (List.cons_ne_nil _ _) (by simpa using inside.wellFormed)

theorem between (known : op ∈ infixes) (first : Rereads left left') (second : Rereads right right')
    (wellFormed : WellFormed left.type ∧ WellFormed right.type)
    (chosen : op.anew? left'.type right'.type = some op') (next : Cursor) :
    Rereads (op.node left right next) (op'.node left' right' next) := by
  have concatAnswer : ∀ op ∈ infixes, op.name = concat.name → op.answer = .text := by decide
  refine ⟨?_, ?_, ?_⟩
  · rw [Infix.type_node, Infix.type_node]
    by_cases named : op.name = concat.name
    · rw [anew?_concat named] at chosen
      rw [concatAnswer op known named]
      exact relaxes_string (answer_of_joiner op' (plus?_eq_some_iff.mp chosen).1) _
    · rw [(anew?_of_name named).mp chosen]
      exact first.relaxes.typeOf _ second.relaxes wellFormed
        ⟨first.wellFormed, second.wellFormed⟩
  · rw [Infix.depth_node, Infix.depth_node, first.depth, second.depth]
  · rw [Infix.type_node]
    exact closed_wellFormed.typeOf _ (List.cons_ne_nil _ _)
      (by simpa using ⟨first.wellFormed, second.wellFormed⟩)

theorem chosen {condition condition' positive positive' negative negative' : Tree}
    (first : Rereads condition condition') (second : Rereads positive positive')
    (third : Rereads negative negative')
    (wellFormed : WellFormed positive.type ∧ WellFormed negative.type) (next : Cursor) :
    Rereads (choiceNode condition positive negative next)
      (choiceNode condition' positive' negative' next) := by
  refine ⟨?_, ?_, ?_⟩
  · exact second.relaxes.sortedUnion third.relaxes wellFormed
      ⟨second.wellFormed, third.wellFormed⟩
  · rw [depth_choiceNode, depth_choiceNode, first.depth, second.depth, third.depth]
  · rw [type_choiceNode]
    exact closed_wellFormed.union (List.cons_ne_nil _ _)
      (by simpa using ⟨second.wellFormed, third.wellFormed⟩)

end Rereads

/-- A written tree that is read anew is as deep, and is taken wherever it was, but for texts. -/
theorem Written.rereads (weakens : Weakens schema other)
    (written : Written schema limit depth floor tree cursor next)
    {tree' : Tree} (read : reread? other tree = some tree') : Rereads tree tree' := by
  induction written generalizing tree' with
  | constant shut found =>
      cases read
      exact ⟨.refl _, rfl, Descriptor.wellFormed_ofValue _⟩
  | field shut noConstant noOpener found =>
      obtain ⟨path, entry, resolved, _, _, rfl, _, _⟩ := reference?_ok found
      obtain ⟨entry', resolved', rfl⟩ := Option.map_eq_some_iff.mp read
      exact ⟨weakens.relaxes resolved resolved', rfl,
        weakens.others.descriptor (Descriptor.wellFormed_plain .object) resolved'⟩
  | group opened inside ends closed ih =>
      rw [reread?_widen] at read
      obtain ⟨inner, within, rfl⟩ := Option.map_eq_some_iff.mp read
      exact (ih within).widen _
  | opener known shut noConstant led inside ends accepted shallow ih =>
      obtain ⟨operand', within, rfl⟩ := (reread?_opener known).mp read
      exact .opener known (ih within) _ _
  | between known tight before chosen led inside ends accepted shallow left_ih right_ih =>
      obtain ⟨left', right', op', first, second, anew, rfl⟩ := (reread?_between known).mp read
      exact .between known (left_ih first) (right_ih second)
        ⟨before.wellFormed_type weakens.types, inside.wellFormed_type weakens.types⟩ anew _
  | chosen tight before extended led inside ends divided last lastEnds shallow first_ih second_ih
      third_ih =>
      obtain ⟨condition', positive', negative', first, second, third, rfl⟩ := reread?_choice.mp read
      exact .chosen (first_ih first) (second_ih second) (third_ih third)
        ⟨inside.wellFormed_type weakens.types, last.wellFormed_type weakens.types⟩ _

/-! ## Operators that are chosen anew -/

/-- Which operator extends an expression: one that stands ahead and takes it. The concatenation is
chosen if the expression is no number. -/
theorem extender?_eq_some_iff {c : UInt32 × Production} (mem : c ∈ candidates) :
    extender? left cursor = some c ↔ takes c.2 left = true ∧ ahead table c.2 cursor = true ∧
      (c.2.name = "concat" → Demand.number.takes left.type = false) := by
  constructor
  · intro found
    obtain ⟨_, taken, stands⟩ := extender?_spec found
    refine ⟨taken, stands, fun named => ?_⟩
    obtain ⟨fit, earlier, later, same, passed⟩ := List.find?_eq_some_iff_append.mp found
    -- the sum was passed over, which is what its note says
    have all : (candidates.filter fun c => Precedence.loosest.atMost (.level c.1)) =
        earlier ++ c :: later :=
      (List.filter_eq_self.mpr fun _ _ => decide_eq_true (Nat.zero_le _)).trans same
    have noted := (mem_notesOfPassed all fit (by simpa using passed) (staleNote left)).mpr
      ⟨named, rfl⟩
    obtain ⟨sum, _, noted⟩ := List.mem_flatMap.mp noted
    obtain ⟨type, _, refused, _, note⟩ := mem_passingNotes.mp noted
    obtain ⟨_, rfl, _⟩ := Cause.leftOperand.inj (Failure.mk.inj note).2
    exact refused
  · rintro ⟨taken, stands, excluded⟩
    obtain ⟨earlier, later, same⟩ := List.append_of_mem mem
    refine List.find?_eq_some_iff_append.mpr
      ⟨fits_iff.mpr ⟨taken, stands⟩, earlier, later, same, fun before inside => ?_⟩
    rw [Bool.not_eq_true', Bool.eq_false_iff]
    intro fit
    obtain ⟨taken', stands'⟩ := fits_iff.mp fit
    have known : before ∈ candidates := same ▸ List.mem_append_left _ inside
    have ordered := pairwise_tokenOf
    rw [same] at ordered
    obtain ⟨isSum, isConcat⟩ :=
      ((List.pairwise_append.mp ordered).2.2 before inside c List.mem_cons_self).1
        (tokenOf_eq_of_ahead known mem stands' stands)
    rw [takes, sum_constraint known isSum] at taken'
    exact absurd taken' (Bool.eq_false_iff.mp (excluded isConcat))

theorem Infix.eq_of_name : ∀ op ∈ infixes, ∀ op' ∈ infixes, op.name = op'.name → op = op' := by
  have distinct : (infixes.map Infix.name).Nodup := by decide
  exact fun _ known _ known' same => List.inj_on_of_nodup_map distinct known known' same

theorem Infix.eq_of_candidate (known : op ∈ infixes) (known' : op' ∈ infixes)
    (same : op.candidate = op'.candidate) : op = op' :=
  Infix.eq_of_name op known op' known' (congrArg (fun c => c.2.name) same)

/-- Operators that extend expressions at the same place have the same token and read their right
operand in the same way. -/
theorem Infix.alike (known : op ∈ infixes) (known' : op' ∈ infixes)
    (extended : extender? left middle = some op.candidate)
    (extended' : extender? left' middle = some op'.candidate) :
    op'.token = op.token ∧ op'.rightFloor = op.rightFloor ∧ op'.level = op.level := by
  have all : ∀ op ∈ infixes, ∀ op' ∈ infixes, op'.token = op.token →
      op'.rightFloor = op.rightFloor ∧ op'.level = op.level := by
    decide
  have same : op'.token = op.token := tokenOf_eq_of_ahead (Infix.candidate_mem known')
    (Infix.candidate_mem known) (extender?_spec extended').2.2 (extender?_spec extended).2.2
  exact ⟨same, all op known op' known' same⟩

/-- The operator that extends an expression whose type is taken wherever it was, but for texts, is
the one that is chosen anew. -/
theorem anew?_eq_some_iff (known : op ∈ infixes) (first : Relaxes left.type left'.type)
    (second : Relaxes right.type right'.type) (extended : extender? left middle = some op.candidate)
    (accepted : op.demand.takes right.type = true) :
    op.anew? left'.type right'.type = some op' ↔
      op' ∈ infixes ∧ extender? left' middle = some op'.candidate ∧
        op'.demand.takes right'.type = true := by
  obtain ⟨mem, taken, stands⟩ := extender?_spec extended
  have concatenation : ∀ op ∈ infixes, (op.demand = .text → op.name = concat.name) ∧
      (op.name = concat.name → op.token = "+") := by
    decide
  by_cases named : op.name = concat.name
  · -- both sides say that the left operand chooses among the operators with the token of the sum
    have plus := (concatenation op known).2 named
    rw [anew?_concat named, plus?_eq_some_iff]
    constructor
    · rintro ⟨joins, here, there, excluded⟩
      have known' : op' ∈ infixes := List.mem_of_mem_filter joins
      have token : op'.token = op.token := ((joiner_iff op' known').mp joins).trans plus.symm
      refine ⟨known', (extender?_eq_some_iff (Infix.candidate_mem known')).mpr
        ⟨by rwa [Infix.candidate, Infix.takes_production], ?_, excluded⟩, there⟩
      rw [Infix.candidate, Infix.ahead_production] at stands ⊢
      rwa [token]
    · rintro ⟨known', chosen, there⟩
      have token := (Infix.alike known known' extended chosen).1
      obtain ⟨here, _, excluded⟩ := (extender?_eq_some_iff (Infix.candidate_mem known')).mp chosen
      rw [Infix.candidate, Infix.takes_production] at here
      exact ⟨(joiner_iff op' known').mpr (token.trans plus), here, there, excluded⟩
  · rw [anew?_of_name named]
    have differs : op.demand ≠ .text := fun text => named ((concatenation op known).1 text)
    have extended' : extender? left' middle = some op.candidate := by
      refine (extender?_eq_some_iff mem).mpr ⟨?_, stands, fun same => absurd same named⟩
      rw [Infix.candidate, Infix.takes_production] at taken ⊢
      exact first _ differs taken
    constructor
    · rintro rfl
      exact ⟨known, extended', second _ differs accepted⟩
    · rintro ⟨known', chosen, _⟩
      rw [extended'] at chosen
      exact (Infix.eq_of_candidate known known' (Option.some.inj chosen)).symm

theorem extender?_choice_of_relaxes {condition condition' : Tree}
    (extended : extender? condition middle = some (1, choice))
    (relaxes : Relaxes condition.type condition'.type) :
    extender? condition' middle = some (1, choice) := by
  obtain ⟨mem, taken, stands⟩ := extender?_spec extended
  refine (extender?_eq_some_iff mem).mpr ⟨?_, stands, fun named => absurd named (by decide)⟩
  rw [takes_choice_iff, ← Demand.takes_iff] at taken ⊢
  exact relaxes .truth (by decide) taken

end Mixfix.Standard
