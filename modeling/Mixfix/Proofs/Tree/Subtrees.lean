import Mixfix.Tree

/-!
# Trees inside of trees

The operands of a node are the trees among its bindings, under their names. The subtrees of a tree
are the tree itself and the subtrees of its operands (`mem_subtrees`). Parentheses around a tree
change neither its operands nor what is below it.

The references of a tree are the identifiers among its subtrees (`references_eq`), so a tree has the
references of everything inside of it (`references_subset`).
-/

set_option autoImplicit false

namespace Mixfix.Tree

/-- The trees among bindings, under their names. -/
def treesOf : List (String × Binding) → List (String × Tree)
  | [] => []
  | (name, .tree tree) :: bindings => (name, tree) :: treesOf bindings
  | (_, .value _) :: bindings => treesOf bindings

/-- The operands of a tree, under their names. -/
def operands : Tree → List (String × Tree)
  | .node _ bindings _ _ _ => treesOf bindings
  | _ => []

mutual
/-- A tree and all trees inside of it. -/
def subtrees : Tree → List Tree
  | .literal value extent => [.literal value extent]
  | .identifier path type extent => [.identifier path type extent]
  | .node name bindings type depth extent =>
    .node name bindings type depth extent :: bindingSubtrees bindings
/-- All trees inside of bindings. -/
def bindingSubtrees : List (String × Binding) → List Tree
  | [] => []
  | (_, .tree tree) :: bindings => subtrees tree ++ bindingSubtrees bindings
  | (_, .value _) :: bindings => bindingSubtrees bindings
end

/-- Whether there are no parentheses around a tree. -/
def isBare (tree : Tree) : Bool := tree.extent.span == tree.extent.core

theorem mem_bindingSubtrees {inner : Tree} {bindings : List (String × Binding)} :
    inner ∈ bindingSubtrees bindings ↔
      ∃ operand ∈ treesOf bindings, inner ∈ operand.2.subtrees := by
  induction bindings with
  | nil => simp [bindingSubtrees, treesOf]
  | cons binding bindings ih =>
      obtain ⟨name, tree | value⟩ := binding
      · simp [bindingSubtrees, treesOf, ih]
      · simp [bindingSubtrees, treesOf, ih]

/-- The trees among bindings are bound under their names. -/
theorem mem_treesOf {operand : String × Tree} {bindings : List (String × Binding)} :
    operand ∈ treesOf bindings ↔ (operand.1, .tree operand.2) ∈ bindings := by
  induction bindings with
  | nil => simp [treesOf]
  | cons binding bindings ih =>
      obtain ⟨name, tree | value⟩ := binding
      · simp [treesOf, ih, Prod.ext_iff]
      · simp [treesOf, ih]

/-- The subtrees of a tree are the tree itself and those of its operands. -/
theorem mem_subtrees {inner tree : Tree} :
    inner ∈ tree.subtrees ↔ inner = tree ∨ ∃ operand ∈ tree.operands, inner ∈ operand.2.subtrees := by
  cases tree with
  | literal value extent => simp [subtrees, operands]
  | identifier path type extent => simp [subtrees, operands]
  | node name bindings type depth extent =>
      rw [subtrees, List.mem_cons, mem_bindingSubtrees, operands]

theorem self_mem_subtrees (tree : Tree) : tree ∈ tree.subtrees := mem_subtrees.mpr (.inl rfl)

mutual
/-- What is inside of a subtree is inside of the tree. -/
theorem subtrees_subset {inner : Tree} : (tree : Tree) → inner ∈ tree.subtrees →
    inner.subtrees ⊆ tree.subtrees
  | .literal _ _, mem => by
    rw [subtrees, List.mem_singleton] at mem
    exact mem ▸ List.Subset.refl _
  | .identifier _ _ _, mem => by
    rw [subtrees, List.mem_singleton] at mem
    exact mem ▸ List.Subset.refl _
  | .node name bindings type depth extent, mem => by
    rw [subtrees, List.mem_cons] at mem
    rcases mem with rfl | inside
    · exact List.Subset.refl _
    · rw [subtrees]
      exact List.subset_cons_of_subset _ (bindingSubtrees_subset bindings inside)
/-- What is inside of a tree within bindings is inside of the bindings. -/
theorem bindingSubtrees_subset {inner : Tree} : (bindings : List (String × Binding)) →
    inner ∈ bindingSubtrees bindings → inner.subtrees ⊆ bindingSubtrees bindings
  | [], mem => by cases mem
  | (_, .tree tree) :: bindings, mem => by
    rw [bindingSubtrees, List.mem_append] at mem
    rcases mem with here | there
    · exact List.subset_append_of_subset_left _ (subtrees_subset tree here)
    · exact List.subset_append_of_subset_right _ (bindingSubtrees_subset bindings there)
  | (_, .value _) :: bindings, mem => bindingSubtrees_subset bindings mem
end

@[simp]
theorem operands_widen (tree : Tree) (span : Span) : (tree.widen span).operands = tree.operands := by
  cases tree <;> rfl

@[simp]
theorem type_widen (tree : Tree) (span : Span) : (tree.widen span).type = tree.type := by
  cases tree <;> rfl

@[simp]
theorem depth_widen (tree : Tree) (span : Span) : (tree.widen span).depth = tree.depth := by
  cases tree <;> rfl

@[simp]
theorem extent_widen (tree : Tree) (span : Span) :
    (tree.widen span).extent = ⟨span, tree.extent.core⟩ := by
  cases tree <;> rfl

/-! ## References -/

/-- The path and the span of a reference. -/
def reference? : Tree → Option (List String × Span)
  | .identifier path _ extent => some (path, extent.span)
  | _ => none

mutual
/-- The references of a tree are the identifiers among its subtrees, each of them once. -/
theorem references_eq : (tree : Tree) → tree.references = tree.subtrees.filterMap reference?
  | .literal _ _ => rfl
  | .identifier _ _ _ => rfl
  | .node _ bindings _ _ _ => by
    rw [references, subtrees, bindingReferences_eq bindings]
    rfl
theorem bindingReferences_eq : (bindings : List (String × Binding)) →
    bindingReferences bindings = (bindingSubtrees bindings).filterMap reference?
  | [] => rfl
  | (_, .tree tree) :: bindings => by
    rw [bindingReferences, bindingSubtrees, List.filterMap_append, references_eq tree,
      bindingReferences_eq bindings]
  | (_, .value _) :: bindings => bindingReferences_eq bindings
end

/-- A reference in a tree is one of the identifiers inside of it. -/
theorem identifier_of_reference {reference : List String × Span} (tree : Tree)
    (mem : reference ∈ tree.references) :
    ∃ type extent, .identifier reference.1 type extent ∈ tree.subtrees := by
  rw [references_eq] at mem
  obtain ⟨inner, inside, same⟩ := List.mem_filterMap.mp mem
  cases inner with
  | identifier path type extent =>
      cases same
      exact ⟨type, extent, inside⟩
  | _ => cases same

/-- What is inside of a tree refers to what the tree refers to. -/
theorem references_subset {inner : Tree} (tree : Tree) (mem : inner ∈ tree.subtrees) :
    inner.references ⊆ tree.references := by
  rw [references_eq, references_eq]
  exact List.filterMap_subset _ (subtrees_subset tree mem)

end Mixfix.Tree
