import Mixfix.Proofs.Parse.Notes
import Mixfix.Proofs.Standard.Nesting
import Mixfix.Proofs.Standard.Reading

/-!
# What the standard parser leaves on the trail

The sum and the concatenation have the same token, and the sum is tried first. Where a text is
extended by a concatenation the sum is passed over and leaves a note, that its left operand is no
number. These are all notes that are left when an expression is read behind which no operator stands
(`leaves_of_written`).

Other notes could only come from operators that stand behind an expression and do not take it. If
the expression is the last operand of a node, then an operator that is tight enough to extend the
operand does not extend the node either (`Written.stops_edge`), nor anything else that ends there. So
where all of the text is read there is no such operator.
-/

set_option autoImplicit false

namespace Mixfix.Standard

open Parse Lexeme Descriptor

variable {schema : Schema} {limit depth : Nat} {floor : Precedence} {tree left : Tree}
  {cursor middle next : Cursor} {operand : Operand} {notes more : List Failure}

/-! ## Tokens of operators -/

/-- The token behind the first operand of a production. -/
def tokenOf (production : Production) : String :=
  match production.elements with
  | _ :: .text token :: _ => token
  | _ => ""

theorem ahead_eq_tokenOf : ∀ c ∈ candidates, ∀ cursor,
    ahead table c.2 cursor = (token? table.tokens (tokenOf c.2) cursor).isSome := by
  intro c mem cursor
  rcases mem_candidates.mp mem with rfl | ⟨op, known, rfl⟩
  · exact ahead_choice cursor
  · exact op.ahead_production cursor

theorem tokenOf_mem : ∀ c ∈ candidates, tokenOf c.2 ∈ table.tokens := by
  rw [tokens_table]
  decide

/-- Candidates that stand at the same place have the same token. -/
theorem tokenOf_eq_of_ahead {c other : UInt32 × Production} (mem : c ∈ candidates)
    (other_mem : other ∈ candidates) (stands : ahead table c.2 cursor = true)
    (other_stands : ahead table other.2 cursor = true) : tokenOf c.2 = tokenOf other.2 := by
  rw [ahead_eq_tokenOf c mem] at stands
  rw [ahead_eq_tokenOf other other_mem] at other_stands
  exact token?_unique (tokenOf_mem c mem) (tokenOf_mem other other_mem) stands other_stands

/-! ## Where no operator stands -/

/-- No operator of a level or a tighter one stands ahead. -/
def Calm (level : Nat) (cursor : Cursor) : Prop :=
  ∀ c ∈ candidates, level ≤ c.1.toNat → ahead table c.2 cursor = false

theorem Calm.mono {level tighter : Nat} (calm : Calm level cursor) (le : level ≤ tighter) :
    Calm tighter cursor :=
  fun c mem tight => calm c mem (Nat.le_trans le tight)

/-- No operator has the level of the operators before their operand. -/
theorem Calm.opener (calm : Calm 9 cursor) : Calm openerFloor.rank cursor := by
  have skipped : ∀ c ∈ candidates, openerFloor.rank ≤ c.1.toNat → 9 ≤ c.1.toNat := by decide
  exact fun c mem tight => calm c mem (skipped c mem tight)

/-- Where another registered text stands no operator does. -/
theorem calm_of_token {token : String} {lexeme : Lexeme String}
    (divides : token = closeParen ∨ token = ":")
    (found : token? table.tokens token cursor = some lexeme) (level : Nat) : Calm level cursor := by
  have registered : token ∈ table.tokens := divides.elim (· ▸ paren_mem.2) (· ▸ choice_mem.2)
  have differ : ∀ c ∈ candidates, tokenOf c.2 ≠ closeParen ∧ tokenOf c.2 ≠ ":" := by decide
  intro c mem _
  cases there : ahead table c.2 cursor with
  | false => rfl
  | true =>
      rw [ahead_eq_tokenOf c mem] at there
      have same := token?_unique (tokenOf_mem c mem) registered there
        (Option.isSome_of_eq_some found)
      rcases divides with rfl | rfl
      · exact absurd same (differ c mem).1
      · exact absurd same (differ c mem).2

/-- Where nothing but blanks follow no operator stands. -/
theorem calm_of_atEnd (atEnd : cursor.skipBlanks.rest = []) (level : Nat) : Calm level cursor := by
  have nonempty : ∀ c ∈ candidates, tokenOf c.2 ≠ "" := by decide
  intro c mem _
  rw [ahead_eq_tokenOf c mem, token?_eq_none_of_head (nonempty c mem)]
  · rfl
  · rw [atEnd, List.head?_nil, ne_comm, ne_eq, List.head?_eq_none_iff, String.toList_eq_nil_iff]
    exact nonempty c mem

/-- Where an operator extends an expression, none stands that is tight enough to extend the open end
of the expression. -/
theorem Written.calm_of_extender (types : Schema.All WellFormed schema)
    (written : Written schema limit depth floor tree cursor next) {c : UInt32 × Production}
    (extended : extender? tree next = some c) (bare : tree.isBare = true) :
    Calm (edge tree) next := by
  obtain ⟨known, taken, stands⟩ := extender?_spec extended
  intro other mem tight
  cases there : ahead table other.2 next with
  | false => rfl
  | true =>
      rw [level_eq_of_ahead mem known there stands] at tight
      rw [written.stops_edge types bare known tight taken] at stands
      cases stands

section Last

variable {operand left right condition positive negative : Tree}

/-- What is not tight enough for the open end of a node is not tight enough for that of its last
operand. -/
theorem Written.calm_operand {op : Opener} (known : op ∈ openers) {start : Nat}
    (inside : Written schema limit depth openerFloor operand cursor next)
    (calm : (op.node operand start next).isBare = true →
      Calm (edge (op.node operand start next)) next) :
    Calm 9 next ∧ (operand.isBare = true → Calm (edge operand) next) := by
  have quiet : Calm 9 next := by
    rw [← edge_opener known (nodeName?_opener op operand start next)]
    exact calm (isBare_nodeOf _ _ _ _)
  exact ⟨quiet, fun bare => quiet.mono (operand_fits (inside.operand_clear bare)).1⟩

theorem Written.calm_right {op : Infix} (known : op ∈ infixes)
    (inside : Written schema limit depth op.rightFloor right cursor next)
    (calm : (op.node left right next).isBare = true → Calm (edge (op.node left right next)) next) :
    Calm op.rightFloor.rank next ∧ (right.isBare = true → Calm (edge right) next) := by
  have candidate := Infix.candidate_mem known
  have quiet : Calm (rightLevel op.candidate) next := by
    rw [← edge_candidate candidate (nodeName?_infixNode op left right next)]
    exact calm (isBare_nodeOf _ _ _ _)
  refine ⟨op.rank_rightFloor known ▸ quiet, fun bare => quiet.mono ?_⟩
  exact (right_fits candidate (.inl rfl)
    (inside.right_clear candidate (op.rank_rightFloor known) (.inl rfl) bare)).1

theorem Written.calm_negative (last : Written schema limit depth choiceFloor negative cursor next)
    (calm : (choiceNode condition positive negative next).isBare = true →
      Calm (edge (choiceNode condition positive negative next)) next) :
    Calm choiceFloor.rank next ∧ (negative.isBare = true → Calm (edge negative) next) := by
  have quiet : Calm choiceFloor.rank next := by
    have here := calm (isBare_nodeOf _ _ _ _)
    rwa [edge_candidate choice_mem_candidates (nodeName?_choice condition positive negative
      next)] at here
  refine ⟨quiet, fun bare => quiet.mono ?_⟩
  exact (right_fits choice_mem_candidates (.inr rfl)
    (last.right_clear choice_mem_candidates (by decide) (.inr rfl) bare)).1

end Last

/-! ## Concatenations -/

/-- A tree is the left operand of a concatenation inside of another one. -/
def IsJoined (tree left : Tree) : Prop :=
  ∃ inner ∈ tree.subtrees, nodeName? inner = some "concat" ∧ ("left", left) ∈ inner.operands

/-- The note of the sum that a text is no number. -/
def staleNote (left : Tree) : Failure := ⟨left.span.start, .leftOperand "add" .number left.type⟩

/-- Notes are those of the left operands of all concatenations in a tree. -/
def Accounts (tree : Tree) (notes : List Failure) : Prop :=
  ∀ note, note ∈ notes ↔ ∃ left, IsJoined tree left ∧ note = staleNote left

/-- The left operands in a tree are its own one and those in its operands. -/
theorem isJoined_iff : IsJoined tree left ↔
    nodeName? tree = some "concat" ∧ ("left", left) ∈ tree.operands ∨
      ∃ operand ∈ tree.operands, IsJoined operand.2 left := by
  constructor
  · rintro ⟨inner, mem, named, bound⟩
    rcases Tree.mem_subtrees.mp mem with rfl | ⟨operand, known, inside⟩
    · exact .inl ⟨named, bound⟩
    · exact .inr ⟨operand, known, inner, inside, named, bound⟩
  · rintro (⟨named, bound⟩ | ⟨operand, known, inner, inside, named, bound⟩)
    · exact ⟨tree, tree.self_mem_subtrees, named, bound⟩
    · exact ⟨inner, Tree.mem_subtrees.mpr (.inr ⟨operand, known, inside⟩), named, bound⟩

theorem isJoined_infixNode (op : Infix) (first second : Tree) (next : Cursor) :
    IsJoined (op.node first second next) left ↔
      (op.name = "concat" ∧ left = first) ∨ IsJoined first left ∨ IsJoined second left := by
  rw [isJoined_iff, nodeName?_infixNode, Infix.operands_node]
  simp [Infix.candidate, Infix.production, Infix.name, Production.name]

theorem isJoined_opener {op : Opener} (known : op ∈ openers) (inside : Tree) (start : Nat)
    (next : Cursor) : IsJoined (op.node inside start next) left ↔ IsJoined inside left := by
  have differ : ∀ op ∈ openers, op.name ≠ "concat" := by decide
  rw [isJoined_iff, nodeName?_opener, Opener.operands_node]
  simp [differ op known]

theorem isJoined_choice (condition positive negative : Tree) (next : Cursor) :
    IsJoined (choiceNode condition positive negative next) left ↔
      IsJoined condition left ∨ IsJoined positive left ∨ IsJoined negative left := by
  rw [isJoined_iff, nodeName?_choice, operands_choiceNode]
  have differ : choice.name ≠ "concat" := by decide
  simp [differ, or_comm]

theorem isJoined_widen (span : Span) : IsJoined (tree.widen span) left ↔ IsJoined tree left := by
  rw [isJoined_iff, nodeName?_widen, Tree.operands_widen, ← isJoined_iff]

theorem accounts_leaf (leaf : tree.operands = []) : Accounts tree [] := by
  intro note
  refine ⟨nofun, ?_⟩
  rintro ⟨left, joined, rfl⟩
  rcases isJoined_iff.mp joined with ⟨_, bound⟩ | ⟨operand, known, _⟩
  · rw [leaf] at bound
    cases bound
  · rw [leaf] at known
    cases known

theorem Accounts.widen (accounts : Accounts tree notes) (span : Span) :
    Accounts (tree.widen span) notes := by
  intro note
  rw [accounts note]
  exact exists_congr fun left => and_congr_left' (isJoined_widen span).symm

/-! ## Notes of an operator -/

theorem pairwise_tokenOf : candidates.Pairwise fun c other =>
    (tokenOf c.2 = tokenOf other.2 → c.2.name = "add" ∧ other.2.name = "concat") ∧
      (c.2.name = "concat" → other.2.name ≠ "add") := by
  decide

theorem sum_constraint {c : UInt32 × Production} (mem : c ∈ candidates) (named : c.2.name = "add") :
    leftConstraint c.2 = some .number := by
  have asks : ∀ op ∈ infixes, op.name = "add" → op.demand = .number := by decide
  rcases mem_candidates.mp mem with rfl | ⟨op, known, rfl⟩
  · exact absurd named (by decide)
  · show op.demand.type? = _
    rw [asks op known named]
    rfl

/-- The sum has the token and the level of the concatenation. -/
theorem exists_sum : ∀ c ∈ candidates, c.2.name = "concat" → ∃ sum ∈ candidates,
    sum.2.name = "add" ∧ tokenOf sum.2 = tokenOf c.2 ∧ sum.1 = c.1 := by
  decide

theorem mem_passingNotes {production : Production} {note : Failure} :
    note ∈ passingNotes table left cursor production ↔
      ∃ type, leftConstraint production = some type ∧ type.accepts left.type = false ∧
        ahead table production cursor = true ∧
        note = ⟨left.span.start, .leftOperand production.name type left.type⟩ := by
  unfold passingNotes
  cases leftConstraint production with
  | none => simp
  | some type => cases type.accepts left.type <;> cases ahead table production cursor <;> simp

/-- Of the candidates that are tried before the one that extends an expression, the sum leaves a note
if this is the concatenation, and there are no other notes. -/
theorem mem_notesOfPassed {c : UInt32 × Production} {earlier later : List (UInt32 × Production)}
    (same : (candidates.filter fun c => floor.atMost (.level c.1)) = earlier ++ c :: later)
    (fit : fits left cursor c = true) (passed : ∀ other ∈ earlier, fits left cursor other = false)
    (note : Failure) : note ∈ notesOfPassed table left cursor earlier ↔
      c.2.name = "concat" ∧ note = staleNote left := by
  have within {other : UInt32 × Production} (mem : other ∈ earlier ++ c :: later) :
      other ∈ candidates ∧ floor.atMost (.level other.1) = true := by
    rw [← same] at mem
    exact List.mem_filter.mp mem
  obtain ⟨mem, tight⟩ := within (List.mem_append_right _ List.mem_cons_self)
  have stands := (fits_iff.mp fit).2
  have ordered := pairwise_tokenOf.filter fun c => floor.atMost (.level c.1)
  rw [same] at ordered
  obtain ⟨_, behind, before⟩ := List.pairwise_append.mp ordered
  constructor
  · intro inside
    obtain ⟨other, earlier_mem, noted⟩ := List.mem_flatMap.mp inside
    have known := (within (List.mem_append_left _ earlier_mem)).1
    obtain ⟨type, constraint, _, there, rfl⟩ := mem_passingNotes.mp noted
    obtain ⟨isSum, isConcat⟩ := (before other earlier_mem c List.mem_cons_self).1
      (tokenOf_eq_of_ahead known mem there stands)
    have asked := sum_constraint known isSum
    rw [constraint] at asked
    cases asked
    exact ⟨isConcat, by rw [isSum, staleNote]⟩
  · rintro ⟨named, rfl⟩
    obtain ⟨sum, known, isSum, sameToken, sameLevel⟩ := exists_sum c mem named
    have asked := sum_constraint known isSum
    have listed : sum ∈ earlier ++ c :: later := by
      rw [← same]
      exact List.mem_filter.mpr ⟨known, sameLevel ▸ tight⟩
    -- the sum is not the concatenation, and does not come behind it
    have first : sum ∈ earlier := by
      rcases List.mem_append.mp listed with there | there
      · exact there
      rcases List.mem_cons.mp there with rfl | there
      · rw [isSum] at named
        exact absurd named (by decide)
      · exact absurd isSum (((List.pairwise_cons.mp behind).1 sum there).2 named)
    have there : ahead table sum.2 cursor = true := by
      rw [ahead_eq_tokenOf sum known, sameToken, ← ahead_eq_tokenOf c mem]
      exact stands
    have refused := passed sum first
    rw [fits, there, Bool.and_true, takes, asked] at refused
    refine List.mem_flatMap.mpr ⟨sum, first, mem_passingNotes.mpr ⟨_, asked, refused, there, ?_⟩⟩
    rw [isSum, staleNote]

/-- The extension by the first candidate that fits leaves the note of the sum if this is the
concatenation, and those of its operands. -/
theorem leaves_firstExtension_of_fits {level : UInt32} {production : Production} {found : Match}
    (tight : floor.atMost (.level level) = true)
    (first : extender? left cursor = some (level, production))
    (matched : (matchPattern (setting schema limit) operand production (.level level)
      production.elements.tail cursor).Leaves (some found) more)
    (shallow : (nodeOf production (withLeft production left found.bindings) left.span.start
      found.next).depth ≤ limit) :
    ∃ passed, (∀ note, note ∈ passed ↔ production.name = "concat" ∧ note = staleNote left) ∧
      (firstExtension (setting schema limit) operand left (table.extendingFrom floor) cursor).Leaves
        (some (nodeOf production (withLeft production left found.bindings) left.span.start
          found.next, found.next)) (passed ++ more) := by
  have inFilter := find?_filter_candidates.mpr ⟨first, tight⟩
  obtain ⟨here, earlier, later, same, others⟩ := List.find?_eq_some_iff_append.mp inFilter
  have missed : ∀ other ∈ earlier, fits left cursor other = false := by simpa using others
  have passed : IsPassed table left cursor earlier := by
    intro other inside
    have mem : other ∈ candidates.filter fun c => floor.atMost (.level c.1) := by
      rw [same]
      exact List.mem_append_left _ inside
    exact ⟨isLed_of_mem (List.mem_filter.mp mem).1, missed other inside⟩
  refine ⟨_, mem_notesOfPassed same here missed, ?_⟩
  rw [extendingFrom_table, same]
  exact leaves_firstExtension passed (fits_iff.mp here).1 matched shallow

/-- Where no operator stands, none extends the expression and no notes are left. -/
theorem leaves_firstExtension_of_calm (calm : Calm floor.rank cursor) :
    (firstExtension (setting schema limit) operand left (table.extendingFrom floor) cursor).Leaves
      none [] := by
  have absent : ∀ c ∈ table.extendingFrom floor, c ∈ candidates ∧ ahead table c.2 cursor = false := by
    intro c inside
    rw [extendingFrom_table] at inside
    obtain ⟨mem, tight⟩ := List.mem_filter.mp inside
    exact ⟨mem, calm c mem (of_decide_eq_true tight)⟩
  have passed : IsPassed table left cursor (table.extendingFrom floor) := by
    intro c inside
    obtain ⟨mem, missing⟩ := absent c inside
    exact ⟨isLed_of_mem mem, by rw [missing, Bool.and_false]⟩
  have silent : notesOfPassed table left cursor (table.extendingFrom floor) = [] := by
    refine List.flatMap_eq_nil_iff.mpr fun c inside => List.eq_nil_iff_forall_not_mem.mpr ?_
    intro note mem
    obtain ⟨_, _, _, there, _⟩ := mem_passingNotes.mp mem
    rw [(absent c inside).2] at there
    cases there
  rw [← silent]
  exact leaves_firstExtension_none passed

/-! ## Notes of patterns -/

section Patterns

variable {precedence : Precedence} {lexeme mark colon : Lexeme String} {behind : Cursor}
  {right positive negative : Tree} {others : List Failure}

/-- An exact text and an operand behind it leave the notes of the operand. -/
theorem leaves_led {production : Production} {token name : String} {role : Role}
    {constraint : Option Descriptor} (led : token? table.tokens token cursor = some lexeme)
    (read : (operand (role.floor precedence) lexeme.next).Leaves (right, next) notes)
    (accepted : ∀ type ∈ constraint, type.accepts right.type = true) :
    (matchPattern (setting schema limit) operand production precedence
      [.text token, .operand role constraint (some name)] cursor).Leaves
      (some ⟨[(name, .tree right)], lexeme.span.start, next⟩) notes := by
  have matched : Leaves (matchElements (setting schema limit) operand production.name precedence
      [.text token, .operand role constraint (some name)] (.begin cursor))
      (.matched ⟨next, [(name, .tree right)], some lexeme.span.start, true⟩) notes := by
    rw [matchElements_text led, ← List.append_nil notes]
    exact leaves_matchElements_operand read accepted leaves_matchElements_nil
  exact leaves_matchPattern matched

theorem leaves_opener {op : Opener} (led : token? table.tokens op.token cursor = some lexeme)
    (read : (operand precedence lexeme.next).Leaves (tree, next) notes)
    (accepted : ∀ type ∈ op.demand.type?, type.accepts tree.type = true) :
    (matchPattern (setting schema limit) operand op.production precedence op.production.elements
      cursor).Leaves (some ⟨[("operand", .tree tree)], lexeme.span.start, next⟩) notes :=
  leaves_led led read accepted

theorem leaves_infixNode {op : Infix} (led : token? table.tokens op.token cursor = some lexeme)
    (read : (operand (op.right.floor precedence) lexeme.next).Leaves (right, next) notes)
    (accepted : ∀ type ∈ op.demand.type?, type.accepts right.type = true) :
    (matchPattern (setting schema limit) operand op.production precedence
      op.production.elements.tail cursor).Leaves
      (some ⟨[("right", .tree right)], lexeme.span.start, next⟩) notes :=
  leaves_led led read accepted

theorem leaves_choice (led : token? table.tokens "?" cursor = some mark)
    (read : (operand .loosest mark.next).Leaves (positive, behind) notes)
    (divided : token? table.tokens ":" behind = some colon)
    (last : (operand choiceFloor colon.next).Leaves (negative, next) others) :
    (matchPattern (setting schema limit) operand choice choiceFloor choice.elements.tail
      cursor).Leaves
      (some ⟨[("else", .tree negative), ("then", .tree positive)], mark.span.start, next⟩)
      (notes ++ others) := by
  have matched : Leaves (matchElements (setting schema limit) operand choice.name choiceFloor
      choice.elements.tail (.begin cursor))
      (.matched ⟨next, [("else", .tree negative), ("then", .tree positive)],
        some mark.span.start, true⟩) (notes ++ others) := by
    rw [choice, List.tail_cons, matchElements_text led]
    refine leaves_matchElements_operand read (by simp) ?_
    rw [matchElements_text divided, ← List.append_nil others]
    exact leaves_matchElements_operand last (by simp) leaves_matchElements_nil
  exact leaves_matchPattern matched

end Patterns

/-! ## Notes of expressions -/

/-- Reading comes to the end of a written tree, and has left the notes of all concatenations in it. -/
def Traced (schema : Schema) (limit depth : Nat) (floor : Precedence) (tree : Tree)
    (cursor next : Cursor) : Prop :=
  ∃ notes, Accounts tree notes ∧
    Continues (setting schema limit) (expression (setting schema limit) depth) floor cursor
      (tree, next) notes

theorem Traced.leaves (traced : Traced schema limit depth floor tree cursor next)
    (calm : Calm floor.rank next) :
    ∃ notes, Accounts tree notes ∧
      (expression (setting schema limit) (depth + 1) floor cursor).Leaves (tree, next) notes := by
  obtain ⟨notes, accounts, continues⟩ := traced
  exact ⟨notes, accounts, continues.leaves (leaves_firstExtension_of_calm calm)⟩

/-- A literal or a reference, which leaves no notes. -/
theorem Traced.of_leaf (leaf : tree.operands = [])
    (read : (literalOrLater (setting schema limit) (expression (setting schema limit) depth)
      cursor.skipBlanks).Leaves (tree, next) [])
    (shut : token? table.tokens openParen cursor = none) :
    Traced schema limit depth floor tree cursor next := by
  refine ⟨[], accounts_leaf leaf, .of_atom ?_⟩
  rw [atom_of_noAtoms atoms_table, shut]
  exact read

theorem Traced.group {opening closing : Lexeme String}
    (opened : token? table.tokens openParen cursor = some opening)
    (inside : Traced schema limit depth .loosest tree opening.next next)
    (closed : token? table.tokens closeParen next = some closing) :
    Traced schema limit (depth + 1) floor
      (tree.widen ⟨opening.span.start, closing.span.stop⟩) cursor closing.next := by
  obtain ⟨notes, accounts, read⟩ := inside.leaves (calm_of_token (.inl rfl) closed _)
  refine ⟨notes, accounts.widen _, .of_atom ?_⟩
  rw [atom_of_noAtoms atoms_table, opened]
  refine read.bind_silent ?_
  dsimp only
  rw [closed]
  exact .of_pure _

theorem Traced.opener {op : Opener} {lexeme : Lexeme String} (known : op ∈ openers)
    (shut : token? table.tokens openParen cursor = none)
    (noConstant : constant? cursor = .ok none)
    (led : token? table.tokens op.token cursor = some lexeme)
    (inside : Traced schema limit depth openerFloor tree lexeme.next next)
    (calm : Calm openerFloor.rank next)
    (accepted : ∀ type ∈ op.demand.type?, type.accepts tree.type = true)
    (shallow : (op.node tree lexeme.span.start next).depth ≤ limit) :
    Traced schema limit (depth + 1) floor (op.node tree lexeme.span.start next) cursor next := by
  obtain ⟨notes, accounts, read⟩ := inside.leaves calm
  refine ⟨notes, fun note => ?_, .of_atom ?_⟩
  · rw [accounts note]
    exact exists_congr fun left => and_congr_left' (isJoined_opener known _ _ _).symm
  obtain ⟨earlier, later, same⟩ := List.append_of_mem known
  have started : (firstStart (setting schema limit) (expression (setting schema limit) (depth + 1))
      table.openers cursor.skipBlanks).Leaves
      (some (op.node tree lexeme.span.start next, next)) notes := by
    rw [openers_table, same, List.map_append, List.map_cons]
    refine leaves_firstStart (fun other mem => ?_)
      (leaves_opener (by rwa [token?_skipBlanks]) ?_ accepted) shallow
    · obtain ⟨op', before, rfl⟩ := List.mem_map.mp mem
      refine leaves_matchPattern_none ?_
      rw [token?_skipBlanks]
      exact Opener.missing_before known same led op' before
    · rw [op.precedence_eq known]
      exact read
  rw [atom_of_noAtoms atoms_table, shut]
  dsimp only
  rw [literalOrLater_eq, constant?_skipBlanks, noConstant]
  exact started.bind_silent (.of_pure _)

theorem Traced.between {op : Infix} {lexeme : Lexeme String} {right : Tree}
    (tight : floor.atMost (.level op.level) = true)
    (before : Traced schema limit (depth + 1) floor left cursor middle)
    (chosen : extender? left middle = some op.candidate)
    (led : token? table.tokens op.token middle = some lexeme)
    (inside : Traced schema limit depth op.rightFloor right lexeme.next next)
    (calm : Calm op.rightFloor.rank next)
    (accepted : ∀ type ∈ op.demand.type?, type.accepts right.type = true)
    (shallow : (op.node left right next).depth ≤ limit)
    (shorter : next.rest.length < middle.rest.length) :
    Traced schema limit (depth + 1) floor (op.node left right next) cursor next := by
  obtain ⟨notes, accounts, continues⟩ := before
  obtain ⟨more, further, read⟩ := inside.leaves calm
  obtain ⟨passed, known, extension⟩ := leaves_firstExtension_of_fits tight chosen
    (leaves_infixNode led read accepted) shallow
  refine ⟨notes ++ (passed ++ more), fun note => ?_, continues.extend extension shorter⟩
  have own : note ∈ passed ↔ ∃ first, (op.name = "concat" ∧ first = left) ∧ note = staleNote first := by
    rw [known note]
    exact ⟨fun ⟨named, same⟩ => ⟨left, ⟨named, rfl⟩, same⟩,
      fun ⟨first, ⟨named, here⟩, same⟩ => ⟨named, here ▸ same⟩⟩
  rw [List.mem_append, List.mem_append, accounts note, further note, own, or_left_comm]
  simp only [isJoined_infixNode, or_and_right, exists_or]

theorem Traced.chosen {mark colon : Lexeme String} {behind : Cursor}
    {condition positive negative : Tree} (tight : floor.atMost choiceFloor = true)
    (before : Traced schema limit (depth + 1) floor condition cursor middle)
    (extended : extender? condition middle = some (1, choice))
    (led : token? table.tokens "?" middle = some mark)
    (inside : Traced schema limit depth .loosest positive mark.next behind)
    (divided : token? table.tokens ":" behind = some colon)
    (last : Traced schema limit depth choiceFloor negative colon.next next)
    (calm : Calm choiceFloor.rank next)
    (shallow : (choiceNode condition positive negative next).depth ≤ limit)
    (shorter : next.rest.length < middle.rest.length) :
    Traced schema limit (depth + 1) floor (choiceNode condition positive negative next) cursor
      next := by
  obtain ⟨notes, accounts, continues⟩ := before
  obtain ⟨more, further, read⟩ := inside.leaves (calm_of_token (.inr rfl) divided _)
  obtain ⟨others, furthest, lastRead⟩ := last.leaves calm
  obtain ⟨passed, known, extension⟩ := leaves_firstExtension_of_fits tight extended
    (leaves_choice led read divided lastRead) shallow
  refine ⟨notes ++ (passed ++ (more ++ others)), fun note => ?_,
    continues.extend extension shorter⟩
  have none_passed : note ∉ passed := fun mem => absurd ((known note).mp mem).1 (by decide)
  rw [List.mem_append, List.mem_append, List.mem_append, accounts note, further note,
    furthest note, or_iff_right none_passed]
  simp only [isJoined_choice, or_and_right, exists_or]

/-- Reading what is written leaves the notes of all concatenations in it and no others, if no
operator stands behind it that is tight enough to extend its open end. -/
theorem Written.traced (types : Schema.All WellFormed schema)
    (written : Written schema limit depth floor tree cursor next)
    (calm : tree.isBare = true → Calm (edge tree) next) :
    ∃ inner, depth = inner + 1 ∧ Traced schema limit inner floor tree cursor next := by
  induction written with
  | @constant depth floor cursor lexeme shut found =>
      refine ⟨depth, rfl, .of_leaf rfl ?_ shut⟩
      rw [literalOrLater_eq, constant?_skipBlanks, found]
      exact .of_pure _
  | @field depth floor cursor next tree shut noConstant noOpener found =>
      have leaf : tree.operands = [] := by
        obtain ⟨path, entry, _, _, _, rfl, _, _⟩ := reference?_ok found
        rfl
      refine ⟨depth, rfl, .of_leaf leaf ?_ shut⟩
      have notStarted : (firstStart (setting schema limit) (expression (setting schema limit) depth)
          table.openers cursor.skipBlanks).Leaves none [] := by
        refine leaves_firstStart_none fun production mem => ?_
        rw [openers_table] at mem
        obtain ⟨op, known, rfl⟩ := List.mem_map.mp mem
        refine leaves_matchPattern_none ?_
        rw [token?_skipBlanks]
        exact noOpener op known
      rw [literalOrLater_eq, constant?_skipBlanks, noConstant]
      refine notStarted.bind_silent ?_
      dsimp only
      rw [reference?_skipBlanks, found]
      exact .of_pure _
  | @group depth floor cursor next tree opening closing opened inside ends closed ih =>
      obtain ⟨inner, rfl, traced⟩ := ih fun _ => calm_of_token (.inl rfl) closed _
      exact ⟨inner + 1, rfl, traced.group opened closed⟩
  | @opener depth floor cursor next operand op lexeme known shut noConstant led inside ends
      accepted shallow ih =>
      obtain ⟨quiet, inherits⟩ := inside.calm_operand known calm
      obtain ⟨inner, rfl, traced⟩ := ih inherits
      exact ⟨inner + 1, rfl, traced.opener known shut noConstant led quiet.opener accepted shallow⟩
  | @between depth floor cursor middle next left right op lexeme known tight before chosen led
      inside ends accepted shallow left_ih right_ih =>
      obtain ⟨quiet, inherits⟩ := inside.calm_right known calm
      obtain ⟨inner, rfl, rightTraced⟩ := right_ih inherits
      obtain ⟨_, same, leftTraced⟩ := left_ih fun bare => before.calm_of_extender types chosen bare
      cases same
      exact ⟨inner + 1, rfl, leftTraced.between tight chosen led rightTraced quiet accepted shallow
        ((Cursor.reaches_skipBlanks middle).passes
          (passes_of_led (op.token_mem known) led inside.stands.1)).length_lt⟩
  | @chosen depth floor cursor middle behind next condition positive negative mark colon tight before
      extended led inside ends divided last lastEnds shallow first_ih second_ih third_ih =>
      obtain ⟨quiet, inherits⟩ := last.calm_negative calm
      obtain ⟨inner, rfl, secondTraced⟩ := second_ih fun _ => calm_of_token (.inr rfl) divided _
      obtain ⟨_, same, thirdTraced⟩ := third_ih inherits
      cases same
      obtain ⟨_, same, firstTraced⟩ := first_ih fun bare =>
        before.calm_of_extender types extended bare
      cases same
      have behindColon := passes_of_led choice_mem.2 divided last.stands.1
      exact ⟨inner + 1, rfl, firstTraced.chosen tight extended led secondTraced divided thirdTraced
        quiet shallow ((Cursor.reaches_skipBlanks middle).passes (passes_of_led choice_mem.1 led
          (inside.stands.1.trans_reaches
            ((Cursor.reaches_skipBlanks _).trans behindColon.reaches)))).length_lt⟩

/-- Reading an expression behind which no operator stands leaves the notes of all concatenations in
it and no others. -/
theorem leaves_of_written (types : Schema.All WellFormed schema)
    (written : Written schema limit depth floor tree cursor next)
    (calm : ∀ level, Calm level next) :
    ∃ notes, Accounts tree notes ∧
      (expression (setting schema limit) depth floor cursor).Leaves (tree, next) notes := by
  obtain ⟨inner, rfl, traced⟩ := written.traced types fun _ => calm _
  exact traced.leaves (calm _)

end Mixfix.Standard
