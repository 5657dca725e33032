import Mixfix.Tree

/-!
# The shape of a tree

What remains of a tree when the places it was read from are forgotten. Trees of the same shape have
the same type and depth (`type_unplaced`, `depth_unplaced`), and so have the nodes made of them
(`unplaced_ofMatch`). The depth that a node keeps is its height as soon as this is so for the trees
it binds (`Bindings.depth_eq_height`).
-/

set_option autoImplicit false

namespace Mixfix

namespace Tree

mutual
/-- A tree without the places it was read from. -/
def unplaced : Tree → Tree
  | .literal value _ => .literal value (.bare 0 0)
  | .identifier path type _ => .identifier path type (.bare 0 0)
  | .node name bindings type depth _ =>
    .node name (unplacedBindings bindings) type depth (.bare 0 0)
/-- Bindings without the places they were read from. -/
def unplacedBindings : List (String × Binding) → List (String × Binding)
  | [] => []
  | (name, .tree tree) :: bindings => (name, .tree tree.unplaced) :: unplacedBindings bindings
  | (name, .value value) :: bindings => (name, .value value) :: unplacedBindings bindings
end

mutual
/-- How many trees stand below each other in a tree at most. -/
def height : Tree → Nat
  | .literal _ _ => 1
  | .identifier _ _ _ => 1
  | .node _ bindings _ _ _ => 1 + bindingsHeight bindings
/-- The height of the highest tree in bindings. -/
def bindingsHeight : List (String × Binding) → Nat
  | [] => 0
  | (_, .tree tree) :: bindings => max tree.height (bindingsHeight bindings)
  | (_, .value _) :: bindings => bindingsHeight bindings
end

@[simp]
theorem type_unplaced (tree : Tree) : tree.unplaced.type = tree.type := by
  cases tree <;> simp only [unplaced, type]

@[simp]
theorem depth_unplaced (tree : Tree) : tree.unplaced.depth = tree.depth := by
  cases tree <;> simp only [unplaced, depth]

@[simp]
theorem height_widen (tree : Tree) (span : Span) : (tree.widen span).height = tree.height := by
  cases tree <;> simp only [widen, height]

theorem unplaced_widen (tree : Tree) (span : Span) : (tree.widen span).unplaced = tree.unplaced := by
  cases tree <;> simp only [widen, unplaced]

/-- Trees of one shape have one type. -/
theorem type_eq_of_unplaced {tree other : Tree} (same : tree.unplaced = other.unplaced) :
    tree.type = other.type := by
  rw [← type_unplaced tree, same, type_unplaced]

theorem depth_eq_of_unplaced {tree other : Tree} (same : tree.unplaced = other.unplaced) :
    tree.depth = other.depth := by
  rw [← depth_unplaced tree, same, depth_unplaced]

end Tree

namespace Bindings

open Mixfix.Tree (unplacedBindings)

theorem map_type_unplaced (bindings : Bindings) :
    (unplacedBindings bindings).map (fun entry => (entry.1, entry.2.type)) =
      bindings.map fun entry => (entry.1, entry.2.type) := by
  induction bindings with
  | nil => simp only [unplacedBindings, List.map_nil]
  | cons entry bindings ih =>
      obtain ⟨name, tree | value⟩ := entry
      · have same : (Binding.tree tree.unplaced).type = (Binding.tree tree).type :=
          tree.type_unplaced
        simp only [unplacedBindings, List.map_cons, ih, same]
      · simp only [unplacedBindings, List.map_cons, ih]

theorem map_depth_unplaced (bindings : Bindings) :
    (unplacedBindings bindings).map (·.2.depth) = bindings.map (·.2.depth) := by
  induction bindings with
  | nil => simp only [unplacedBindings, List.map_nil]
  | cons entry bindings ih =>
      obtain ⟨name, tree | value⟩ := entry
      · have same : (Binding.tree tree.unplaced).depth = (Binding.tree tree).depth :=
          tree.depth_unplaced
        simp only [unplacedBindings, List.map_cons, ih, same]
      · simp only [unplacedBindings, List.map_cons, ih]

theorem get?_map_type (bindings : Bindings) (name : String) :
    (Dict.get? bindings name).map (·.type) =
      Dict.get? (bindings.map fun entry => (entry.1, entry.2.type)) name := by
  induction bindings with
  | nil => rfl
  | cons entry bindings ih =>
      obtain ⟨key, binding⟩ := entry
      rw [List.map_cons, Dict.get?_cons, Dict.get?_cons, ← ih]
      split <;> rfl

/-- The type of a node's result comes from the types of its bindings. -/
theorem resultType_congr {bindings other : Bindings} (result : ResultType Descriptor)
    (same : bindings.map (fun entry => (entry.1, entry.2.type)) =
      other.map fun entry => (entry.1, entry.2.type)) :
    bindings.resultType result = other.resultType result := by
  cases result with
  | fixed type => rfl
  | sole =>
      rcases bindings with _ | ⟨first, _ | ⟨second, bindings⟩⟩ <;>
        rcases other with _ | ⟨first', _ | ⟨second', other⟩⟩ <;>
        simp_all [resultType]
  | union names =>
      simp only [resultType, get?_map_type, same]

/-- The depth of a node is its height, if those of the trees it binds are. -/
theorem depth_eq_height {bindings : Bindings}
    (same : ∀ name tree, (name, .tree tree) ∈ bindings → tree.depth = tree.height) :
    bindings.depth = 1 + Tree.bindingsHeight bindings := by
  have folded : ∀ highest, (bindings.map (·.2.depth)).foldl max highest =
      max highest (Tree.bindingsHeight bindings) := by
    induction bindings with
    | nil => exact fun highest => (Nat.max_zero highest).symm
    | cons entry bindings ih =>
        have later := ih fun name tree mem => same name tree (List.mem_cons_of_mem _ mem)
        intro highest
        obtain ⟨name, tree | value⟩ := entry
        · have here : (Binding.tree tree).depth = tree.height := same name tree List.mem_cons_self
          rw [List.map_cons, List.foldl_cons, later, here, Tree.bindingsHeight, Nat.max_assoc]
        · rw [List.map_cons, List.foldl_cons, later, Tree.bindingsHeight, Binding.depth,
            Nat.max_zero]
  rw [depth, folded, Nat.zero_max]

end Bindings

/-- Nodes of bindings of one shape have one shape. -/
theorem Tree.unplaced_ofMatch {name : String} {bindings other : Bindings}
    {result : ResultType Descriptor} {extent extent' : Extent}
    (same : unplacedBindings bindings = unplacedBindings other) :
    (ofMatch name bindings result extent).unplaced =
      (ofMatch name other result extent').unplaced := by
  have types : bindings.resultType result = other.resultType result := by
    refine Bindings.resultType_congr result ?_
    rw [← Bindings.map_type_unplaced bindings, same, Bindings.map_type_unplaced]
  have depths : bindings.depth = other.depth := by
    rw [Bindings.depth, Bindings.depth, ← Bindings.map_depth_unplaced bindings, same,
      Bindings.map_depth_unplaced]
  simp only [ofMatch, unplaced, same, types, depths]

end Mixfix
