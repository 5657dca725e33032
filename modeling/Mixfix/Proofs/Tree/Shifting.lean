import Mixfix.Proofs.Text.Enclosure
import Mixfix.Proofs.Tree.Shape
import Mixfix.Proofs.Tree.Subtrees

/-!
# Trees farther on in a text

A tree that is read behind some bytes is the same tree with all of its places farther on. Its type
and depth do not change, nor do those of the nodes that are made of such trees (`shifted_ofMatch`).
-/

set_option autoImplicit false

namespace Mixfix

/-- An extent farther on in a text. -/
def Extent.shifted (lead : Nat) (extent : Extent) : Extent :=
  ⟨extent.span.shifted lead, extent.core.shifted lead⟩

namespace Tree

mutual
/-- A tree farther on in a text. -/
def shifted (lead : Nat) : Tree → Tree
  | .literal value extent => .literal value (extent.shifted lead)
  | .identifier path type extent => .identifier path type (extent.shifted lead)
  | .node name bindings type depth extent =>
    .node name (shiftedBindings lead bindings) type depth (extent.shifted lead)
/-- Bindings farther on in a text. -/
def shiftedBindings (lead : Nat) : List (String × Binding) → List (String × Binding)
  | [] => []
  | (name, .tree tree) :: bindings =>
    (name, .tree (shifted lead tree)) :: shiftedBindings lead bindings
  | (name, .value value) :: bindings => (name, .value value) :: shiftedBindings lead bindings
end

variable (lead : Nat)

@[simp]
theorem type_shifted (tree : Tree) : (tree.shifted lead).type = tree.type := by
  cases tree <;> simp only [shifted, type]

@[simp]
theorem depth_shifted (tree : Tree) : (tree.shifted lead).depth = tree.depth := by
  cases tree <;> simp only [shifted, depth]

@[simp]
theorem span_shifted (tree : Tree) : (tree.shifted lead).span = tree.span.shifted lead := by
  cases tree <;> simp only [shifted, span, extent, Extent.shifted]

theorem shifted_widen (tree : Tree) (span : Span) :
    (tree.widen span).shifted lead = (tree.shifted lead).widen (span.shifted lead) := by
  cases tree <;> simp only [widen, shifted, Extent.shifted]

mutual
theorem shifted_zero : (tree : Tree) → tree.shifted 0 = tree
  | .literal _ _ => by simp only [shifted, Extent.shifted, Span.shifted, Nat.zero_add]
  | .identifier _ _ _ => by simp only [shifted, Extent.shifted, Span.shifted, Nat.zero_add]
  | .node _ bindings _ _ _ => by
    simp only [shifted, Extent.shifted, Span.shifted, Nat.zero_add, shiftedBindings_zero bindings]
theorem shiftedBindings_zero : (bindings : List (String × Binding)) →
    shiftedBindings 0 bindings = bindings
  | [] => by simp only [shiftedBindings]
  | (_, .tree tree) :: bindings => by
    simp only [shiftedBindings, shifted_zero tree, shiftedBindings_zero bindings]
  | (_, .value _) :: bindings => by simp only [shiftedBindings, shiftedBindings_zero bindings]
end

mutual
/-- A tree farther on has the same shape. -/
theorem unplaced_shifted : (tree : Tree) → (tree.shifted lead).unplaced = tree.unplaced
  | .literal _ _ => by simp only [shifted, unplaced]
  | .identifier _ _ _ => by simp only [shifted, unplaced]
  | .node _ bindings _ _ _ => by simp only [shifted, unplaced, unplacedBindings_shifted bindings]
theorem unplacedBindings_shifted : (bindings : List (String × Binding)) →
    unplacedBindings (shiftedBindings lead bindings) = unplacedBindings bindings
  | [] => by simp only [shiftedBindings, unplacedBindings]
  | (_, .tree tree) :: bindings => by
    simp only [shiftedBindings, unplacedBindings, unplaced_shifted tree,
      unplacedBindings_shifted bindings]
  | (_, .value _) :: bindings => by
    simp only [shiftedBindings, unplacedBindings, unplacedBindings_shifted bindings]
end

/-! ## Operands and subtrees -/

/-- An operand farther on in a text. -/
def shiftedOperand (operand : String × Tree) : String × Tree :=
  (operand.1, operand.2.shifted lead)

theorem treesOf_shifted (bindings : List (String × Binding)) :
    treesOf (shiftedBindings lead bindings) = (treesOf bindings).map (shiftedOperand lead) := by
  induction bindings with
  | nil => simp only [shiftedBindings, treesOf, List.map_nil]
  | cons binding bindings ih =>
      obtain ⟨name, tree | value⟩ := binding
      · simp only [shiftedBindings, treesOf, List.map_cons, ih, shiftedOperand]
      · simp only [shiftedBindings, treesOf, ih]

@[simp]
theorem operands_shifted (tree : Tree) :
    (tree.shifted lead).operands = tree.operands.map (shiftedOperand lead) := by
  cases tree with
  | node name bindings type depth extent =>
      simp only [shifted, operands, treesOf_shifted]
  | _ => simp only [shifted, operands, List.map_nil]

mutual
theorem subtrees_shifted : (tree : Tree) →
    (tree.shifted lead).subtrees = tree.subtrees.map (shifted lead)
  | .literal _ _ => by simp only [shifted, subtrees, List.map_cons, List.map_nil]
  | .identifier _ _ _ => by simp only [shifted, subtrees, List.map_cons, List.map_nil]
  | .node _ bindings _ _ _ => by
    simp only [shifted, subtrees, List.map_cons, bindingSubtrees_shifted bindings]
theorem bindingSubtrees_shifted : (bindings : List (String × Binding)) →
    bindingSubtrees (shiftedBindings lead bindings) = (bindingSubtrees bindings).map (shifted lead)
  | [] => by simp only [shiftedBindings, bindingSubtrees, List.map_nil]
  | (_, .tree tree) :: bindings => by
    simp only [shiftedBindings, bindingSubtrees, List.map_append, subtrees_shifted tree,
      bindingSubtrees_shifted bindings]
  | (_, .value _) :: bindings => by
    simp only [shiftedBindings, bindingSubtrees, bindingSubtrees_shifted bindings]
end

/-! ## Nodes -/

theorem map_type_shifted (bindings : Bindings) :
    (shiftedBindings lead bindings).map (fun entry => (entry.1, entry.2.type)) =
      bindings.map fun entry => (entry.1, entry.2.type) := by
  induction bindings with
  | nil => simp only [shiftedBindings, List.map_nil]
  | cons entry bindings ih =>
      obtain ⟨name, tree | value⟩ := entry
      · have same : (Binding.tree (tree.shifted lead)).type = (Binding.tree tree).type :=
          tree.type_shifted lead
        simp only [shiftedBindings, List.map_cons, ih, same]
      · simp only [shiftedBindings, List.map_cons, ih]

theorem map_depth_shifted (bindings : Bindings) :
    (shiftedBindings lead bindings).map (·.2.depth) = bindings.map (·.2.depth) := by
  induction bindings with
  | nil => simp only [shiftedBindings, List.map_nil]
  | cons entry bindings ih =>
      obtain ⟨name, tree | value⟩ := entry
      · have same : (Binding.tree (tree.shifted lead)).depth = (Binding.tree tree).depth :=
          tree.depth_shifted lead
        simp only [shiftedBindings, List.map_cons, ih, same]
      · simp only [shiftedBindings, List.map_cons, ih]

/-- The node of what its bindings are farther on is the node farther on. -/
theorem shifted_ofMatch (name : String) (bindings : Bindings) (result : ResultType Descriptor)
    (extent : Extent) : (ofMatch name bindings result extent).shifted lead =
      ofMatch name (shiftedBindings lead bindings) result (extent.shifted lead) := by
  simp only [ofMatch, shifted, Bindings.depth, map_depth_shifted,
    Bindings.resultType_congr result (map_type_shifted lead bindings)]

end Tree

end Mixfix
