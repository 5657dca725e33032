import Mixfix.Proofs.Grammar.Checks
import Mixfix.Proofs.Standard.Subtrees

/-!
# Trees read with another schema

The types in a tree come from those of the fields that it reads. A tree can be given the types of
another schema that has the same fields (`reread?`). Its nodes stay what they are, but for those that
the types have decided on: a `+` adds if its left operand may be a number and concatenates otherwise,
so a concatenation is chosen anew by the types that its operands have become (`plus?`). It may be that
no operator takes them.

How a tree is read anew follows from how its operands are (`reread?_between`, `reread?_opener`,
`reread?_choice`).
-/

set_option autoImplicit false

namespace Mixfix.Standard

open Parse

variable {other : Schema} {left right : Tree} {next : Cursor} {op op' : Infix}

/-! ## Reading a tree anew -/

/-- Whether a type is what a demand asks for. -/
def Demand.takes (demand : Demand) (type : Descriptor) : Bool :=
  demand.type?.all fun asked => asked.accepts type

/-- The operators with the token of the sum, in the order in which they are tried. -/
def joiners : List Infix := infixes.filter (·.token == "+")

/-- What a `+` between operands of two types is: the first operator that takes the left one, if it
takes the right one as well. -/
def plus? (left right : Descriptor) : Option Infix :=
  (joiners.find? (·.demand.takes left)).filter (·.demand.takes right)

/-- The production of a node with operands of other types. A concatenation is chosen anew, all other
nodes stay what they are. -/
def nodeAnew? (name : String) (bindings : Bindings) : Option Production :=
  if name = concat.name then
    match bindings with
    | [(_, .tree left), (_, .tree right)] => (plus? left.type right.type).map Infix.production
    | _ => none
  else table.productions.find? (·.name == name)

mutual
/-- A tree with the types of another schema, if its concatenations can be chosen anew. -/
def reread? (schema : Schema) : Tree → Option Tree
  | .literal value extent => some (.literal value extent)
  | .identifier path _ extent =>
    (schema.resolve path).map fun entry => .identifier path entry.descriptor extent
  | .node name bindings _ _ extent => do
    let bindings ← rereadBindings? schema bindings
    let production ← nodeAnew? name bindings
    some (.ofMatch production.name bindings production.result extent)
/-- Bindings with the types of another schema. -/
def rereadBindings? (schema : Schema) : List (String × Binding) → Option (List (String × Binding))
  | [] => some []
  | (name, .tree tree) :: bindings => do
    let tree ← reread? schema tree
    let bindings ← rereadBindings? schema bindings
    some ((name, .tree tree) :: bindings)
  | (name, .value value) :: bindings => do
    let bindings ← rereadBindings? schema bindings
    some ((name, .value value) :: bindings)
end

/-- The operator of a node with operands of other types. -/
def Infix.anew? (op : Infix) (left right : Descriptor) : Option Infix :=
  if op.name = concat.name then plus? left right else some op

theorem anew?_of_name (differs : op.name ≠ concat.name) {left right : Descriptor} :
    op.anew? left right = some op' ↔ op' = op := by
  rw [Infix.anew?, if_neg differs, Option.some.injEq, eq_comm]

theorem anew?_concat (same : op.name = concat.name) (left right : Descriptor) :
    op.anew? left right = plus? left right := if_pos same

theorem Demand.takes_iff {demand : Demand} {type : Descriptor} :
    demand.takes type = true ↔ ∀ asked ∈ demand.type?, asked.accepts type = true := by
  rw [takes, Option.all_eq_true]
  exact Iff.rfl

theorem Infix.takes_production (op : Infix) (left : Tree) :
    takes op.production left = op.demand.takes left.type := by
  rw [Bool.eq_iff_iff, op.takes_iff, Demand.takes_iff]

/-- The sum comes before the concatenation. -/
theorem exists_joiners : ∃ sum concatenation, joiners = [sum, concatenation] ∧
    sum.name = "add" ∧ sum.demand = .number ∧
    concatenation.name = "concat" ∧ concatenation.demand = .text :=
  ⟨_, _, rfl, rfl, rfl, rfl, rfl⟩

theorem answer_of_joiner : ∀ op ∈ joiners, op.answer = .text ∨ op.answer = .number := by decide

theorem joiner_iff : ∀ op ∈ infixes, op ∈ joiners ↔ op.token = "+" := by
  intro op known
  rw [joiners, List.mem_filter, beq_iff_eq]
  exact and_iff_right known

theorem plus?_eq_some_iff {left right : Descriptor} : plus? left right = some op ↔
    op ∈ joiners ∧ op.demand.takes left = true ∧ op.demand.takes right = true ∧
      (op.name = "concat" → Demand.number.takes left = false) := by
  obtain ⟨sum, concatenation, same, sumNamed, sumAsks, concatNamed, concatAsks⟩ := exists_joiners
  have differ : sum.name ≠ "concat" := by
    rw [sumNamed]
    decide
  have found : joiners.find? (·.demand.takes left) = some op ↔
      op ∈ joiners ∧ op.demand.takes left = true ∧
        (op.name = "concat" → Demand.number.takes left = false) := by
    rw [same, List.find?_cons, List.find?_singleton, sumAsks]
    cases taken : Demand.number.takes left with
    | true =>
        constructor
        · rintro ⟨⟩
          exact ⟨List.mem_cons_self, by rwa [sumAsks], fun named => absurd named differ⟩
        · rintro ⟨mem, _, excluded⟩
          rcases List.mem_cons.mp mem with rfl | mem
          · rfl
          · cases List.mem_singleton.mp mem
            exact absurd (excluded concatNamed) (by decide)
    | false =>
        dsimp only
        constructor
        · intro first
          split at first
          · next here =>
              cases first
              exact ⟨List.mem_cons_of_mem _ List.mem_cons_self, here, fun _ => rfl⟩
          · cases first
        · rintro ⟨mem, here, _⟩
          rcases List.mem_cons.mp mem with rfl | mem
          · rw [sumAsks, taken] at here
            cases here
          · cases List.mem_singleton.mp mem
            rw [if_pos here]
  rw [plus?, Option.filter_eq_some_iff, found]
  exact ⟨fun ⟨⟨mem, here, first⟩, there⟩ => ⟨mem, here, there, first⟩,
    fun ⟨mem, here, there, first⟩ => ⟨⟨mem, here, first⟩, there⟩⟩

theorem find?_production {production : Production} (mem : production ∈ table.productions) :
    table.productions.find? (·.name == production.name) = some production := by
  have distinct := (ok_of_compileAll (Grammar.productions_of_build grammar_eq).1).2.2
  obtain ⟨earlier, later, same⟩ := List.append_of_mem mem
  rw [same, List.map_append, List.map_cons] at distinct
  refine List.find?_eq_some_iff_append.mpr ⟨beq_self_eq_true _, earlier, later, same, ?_⟩
  intro before there
  have differs := (List.nodup_append.mp distinct).2.2 before.name (List.mem_map_of_mem there)
    production.name List.mem_cons_self
  simpa using differs

/-! ## Trees that are read anew -/

theorem extent_reread? {tree tree' : Tree} (read : reread? other tree = some tree') :
    tree'.extent = tree.extent := by
  cases tree with
  | literal value extent =>
      cases read
      rfl
  | identifier path type extent =>
      obtain ⟨entry, _, rfl⟩ := Option.map_eq_some_iff.mp read
      rfl
  | node name bindings type depth extent =>
      simp only [reread?, Option.bind_eq_bind, Option.bind_eq_some_iff] at read
      obtain ⟨_, _, _, _, same⟩ := read
      cases same
      rfl

theorem reread?_widen (tree : Tree) (span : Span) :
    reread? other (tree.widen span) = (reread? other tree).map (·.widen span) := by
  cases tree with
  | literal value extent => rfl
  | identifier path type extent =>
      simp only [Tree.widen, reread?, Option.map_map]
      rfl
  | node name bindings type depth extent =>
      simp only [Tree.widen, reread?, Option.bind_eq_bind]
      cases rereadBindings? other bindings with
      | none => rfl
      | some bindings =>
          simp only [Option.bind_some]
          cases nodeAnew? name bindings <;> rfl

theorem rereadBindings?_cons {name : String} {tree : Tree} {bindings found : Bindings} :
    rereadBindings? other ((name, .tree tree) :: bindings) = some found ↔
      ∃ tree' rest, reread? other tree = some tree' ∧ rereadBindings? other bindings = some rest ∧
        found = (name, .tree tree') :: rest := by
  simp only [rereadBindings?, Option.bind_eq_bind, Option.bind_eq_some_iff, Option.some.injEq]
  exact ⟨fun ⟨tree', first, rest, others, same⟩ => ⟨tree', rest, first, others, same.symm⟩,
    fun ⟨tree', rest, first, others, same⟩ => ⟨tree', first, rest, others, same.symm⟩⟩

theorem reread?_nodeOf {production : Production} {bindings : Bindings} {start : Nat} {node : Tree} :
    reread? other (nodeOf production bindings start next) = some node ↔
      ∃ bindings' production', rereadBindings? other bindings = some bindings' ∧
        nodeAnew? production.name bindings' = some production' ∧
        node = nodeOf production' bindings' start next := by
  rw [nodeOf, Tree.ofMatch]
  simp only [reread?, Option.bind_eq_bind, Option.bind_eq_some_iff, Option.some.injEq]
  constructor
  · rintro ⟨bindings', inside, production', chosen, rfl⟩
    exact ⟨bindings', production', inside, chosen, rfl⟩
  · rintro ⟨bindings', production', inside, chosen, rfl⟩
    exact ⟨bindings', inside, production', chosen, rfl⟩

theorem Infix.production_mem (known : op ∈ infixes) : op.production ∈ table.productions := by
  rcases List.mem_append.mp known with chained | power
  · exact List.mem_cons_of_mem _ (List.mem_append_left _ (List.mem_append_left _
      (List.mem_map_of_mem chained)))
  · rw [List.mem_singleton.mp power]
    exact List.mem_cons_of_mem _ (List.mem_append_right _ List.mem_cons_self)

/-- The operator of a node is chosen anew by the types of the operands. -/
theorem nodeAnew?_between (known : op ∈ infixes) (left right : Tree) :
    nodeAnew? op.name [("left", .tree left), ("right", .tree right)] =
      (op.anew? left.type right.type).map Infix.production := by
  rw [nodeAnew?, Infix.anew?]
  split
  · rfl
  · exact find?_production (Infix.production_mem known)

theorem rereadBindings?_nil {bindings : Bindings} :
    rereadBindings? other [] = some bindings ↔ bindings = [] := by
  rw [rereadBindings?, Option.some.injEq, eq_comm]

theorem reread?_between (known : op ∈ infixes) {node : Tree} :
    reread? other (op.node left right next) = some node ↔
      ∃ left' right' op', reread? other left = some left' ∧ reread? other right = some right' ∧
        op.anew? left'.type right'.type = some op' ∧ node = op'.node left' right' next := by
  rw [Infix.node, reread?_nodeOf]
  simp only [rereadBindings?_cons, rereadBindings?_nil]
  constructor
  · rintro ⟨_, production', ⟨left', _, first, ⟨right', _, second, rfl, rfl⟩, rfl⟩, chosen, rfl⟩
    rw [show op.production.name = op.name from rfl, nodeAnew?_between known] at chosen
    obtain ⟨op', same, rfl⟩ := Option.map_eq_some_iff.mp chosen
    refine ⟨left', right', op', first, second, same, ?_⟩
    rw [Infix.node, Tree.span, Tree.span, extent_reread? first]
  · rintro ⟨left', right', op', first, second, chosen, rfl⟩
    refine ⟨_, op'.production, ⟨left', _, first, ⟨right', _, second, rfl, rfl⟩, rfl⟩, ?_, ?_⟩
    · rw [show op.production.name = op.name from rfl, nodeAnew?_between known, chosen]
      rfl
    · rw [Infix.node, Tree.span, Tree.span, extent_reread? first]

/-- A node that is no concatenation stays what it is. -/
theorem nodeAnew?_eq_some {production : Production} (mem : production ∈ table.productions)
    (differs : production.name ≠ concat.name) (bindings : Bindings) :
    nodeAnew? production.name bindings = some production := by
  unfold nodeAnew?
  rw [if_neg differs]
  exact find?_production mem

theorem reread?_opener {op : Opener} (known : op ∈ openers) {operand node : Tree} {start : Nat} :
    reread? other (op.node operand start next) = some node ↔
      ∃ operand', reread? other operand = some operand' ∧ node = op.node operand' start next := by
  have differ : ∀ op ∈ openers, op.production.name ≠ concat.name := by decide
  have mem : op.production ∈ table.productions := List.mem_cons_of_mem _
    (List.mem_append_left _ (List.mem_append_right _ (List.mem_map_of_mem known)))
  rw [Opener.node, reread?_nodeOf]
  simp only [rereadBindings?_cons, rereadBindings?_nil, nodeAnew?_eq_some mem (differ op known)]
  constructor
  · rintro ⟨_, _, ⟨operand', _, read, rfl, rfl⟩, ⟨⟩, rfl⟩
    exact ⟨operand', read, rfl⟩
  · rintro ⟨operand', read, rfl⟩
    exact ⟨_, _, ⟨operand', _, read, rfl, rfl⟩, rfl, rfl⟩

theorem reread?_choice {condition positive negative node : Tree} :
    reread? other (choiceNode condition positive negative next) = some node ↔
      ∃ condition' positive' negative', reread? other condition = some condition' ∧
        reread? other positive = some positive' ∧ reread? other negative = some negative' ∧
        node = choiceNode condition' positive' negative' next := by
  have mem : choice ∈ table.productions := List.mem_cons_self
  rw [choiceNode, reread?_nodeOf]
  simp only [rereadBindings?_cons, rereadBindings?_nil, nodeAnew?_eq_some mem (by decide)]
  constructor
  · rintro ⟨_, _, ⟨condition', _, first, ⟨negative', _, third, ⟨positive', _, second, rfl, rfl⟩,
      rfl⟩, rfl⟩, ⟨⟩, rfl⟩
    refine ⟨condition', positive', negative', first, second, third, ?_⟩
    rw [choiceNode, Tree.span, Tree.span, extent_reread? first]
  · rintro ⟨condition', positive', negative', first, second, third, rfl⟩
    refine ⟨_, _, ⟨condition', _, first, ⟨negative', _, third, ⟨positive', _, second, rfl, rfl⟩,
      rfl⟩, rfl⟩, rfl, ?_⟩
    rw [choiceNode, Tree.span, Tree.span, extent_reread? first]

end Mixfix.Standard
