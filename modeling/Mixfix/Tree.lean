import Mixfix.Binary64.Text
import Mixfix.Descriptor.SortedUnion
import Mixfix.Grammar.Pattern
import Mixfix.Text.Quoted

/-!
# Trees

A parsed expression. Its leaves are literals and references to fields; each inner node carries the
name of its definition and the elements it was matched from, under their names and in name order.
Every tree knows the type of its value, the span of source text it was read from and its depth.

Parentheses around an expression leave no node, but widen its span; the core of an extent is the
span without them.
-/

set_option autoImplicit false

namespace Mixfix

/-- Where a tree was read from. -/
structure Extent where
  /-- The span with the parentheses around the expression. -/
  span : Span
  /-- The span of the expression itself. -/
  core : Span
deriving DecidableEq

/-- The extent of an expression without parentheses. -/
def Extent.bare (start stop : Nat) : Extent := ⟨⟨start, stop⟩, ⟨start, stop⟩⟩

mutual
/-- A parsed expression. -/
inductive Tree where
  /-- A number, a string or a keyword. -/
  | literal (value : Value) (extent : Extent)
  /-- A reference to a field, by its path. -/
  | identifier (path : List String) (type : Descriptor) (extent : Extent)
  /-- A match of a definition. -/
  | node (name : String) (bindings : List (String × Binding)) (type : Descriptor) (depth : Nat)
    (extent : Extent)
/-- What a named element of a pattern matched. -/
inductive Binding where
  | tree (tree : Tree)
  | value (value : Value)
end

namespace Tree

/-- Where a tree was read from. -/
def extent : Tree → Extent
  | .literal _ extent => extent
  | .identifier _ _ extent => extent
  | .node _ _ _ _ extent => extent

/-- The span of source text of a tree, with the parentheses around it. -/
def span (tree : Tree) : Span := tree.extent.span

/-- The type of a tree's value. -/
def type : Tree → Descriptor
  | .literal value _ => .ofValue value
  | .identifier _ type _ => type
  | .node _ _ type _ _ => type

/-- The depth of a tree; a leaf has depth one. -/
def depth : Tree → Nat
  | .literal _ _ => 1
  | .identifier _ _ _ => 1
  | .node _ _ _ depth _ => depth

/-- The same tree with parentheses around it. -/
def widen (span : Span) : Tree → Tree
  | .literal value extent => .literal value { extent with span }
  | .identifier path type extent => .identifier path type { extent with span }
  | .node name bindings type depth extent => .node name bindings type depth { extent with span }

end Tree

namespace Binding

/-- The type of what an element matched. -/
def type : Binding → Descriptor
  | .tree inner => inner.type
  | .value constant => .ofValue constant

/-- The depth of the tree that an element matched; a value has none. -/
def depth : Binding → Nat
  | .tree inner => inner.depth
  | .value _ => 0

end Binding

/-- What the named elements of a pattern matched, under their names. -/
abbrev Bindings := Dict Binding

namespace Bindings

/-- The type of the result of a node with these bindings. -/
def resultType (bindings : Bindings) : ResultType Descriptor → Descriptor
  | .fixed type => type
  | .sole =>
    match bindings with
    | [(_, binding)] => binding.type
    | _ => .unknown
  | .union names =>
    .sortedUnion (names.filterMap fun name => (Dict.get? bindings name).map (·.type))

/-- The depth of a node with these bindings. -/
def depth (bindings : Bindings) : Nat :=
  1 + (bindings.map (·.2.depth)).foldl max 0

end Bindings

namespace Tree

/-- The node of a definition. -/
def ofMatch (name : String) (bindings : Bindings) (result : ResultType Descriptor)
    (extent : Extent) : Tree :=
  .node name bindings (bindings.resultType result) bindings.depth extent

/-! ## References -/

mutual
/-- The references in a tree, in name order of the bindings. -/
def references : Tree → List (List String × Span)
  | .literal _ _ => []
  | .identifier path _ extent => [(path, extent.span)]
  | .node _ bindings _ _ _ => bindingReferences bindings
/-- The references in bindings. -/
def bindingReferences : List (String × Binding) → List (List String × Span)
  | [] => []
  | (_, .tree tree) :: bindings => references tree ++ bindingReferences bindings
  | (_, .value _) :: bindings => bindingReferences bindings
end

/-- The references in a tree, in the order of the source text. -/
def identifiers (tree : Tree) : List (List String × Span) :=
  tree.references.mergeSort fun a b => a.2.start ≤ b.2.start

/-! ## Text -/

/-- The text of a value in a tree. -/
def valueText : Value → String
  | .string s => Text.quoted s
  | .integer n => toString n.toInt
  | .float x => x.text .tree
  | .boolean b => if b then "true" else "false"
  | value => value.kindName

mutual
/-- The text of a tree: its nodes by name, with their bindings in parentheses. -/
def text : Tree → String
  | .literal value _ => valueText value
  | .identifier path _ _ => ".".intercalate path
  | .node name bindings _ _ _ => name ++ "(" ++ ", ".intercalate (bindingTexts bindings) ++ ")"
/-- The texts of bindings. -/
def bindingTexts : List (String × Binding) → List String
  | [] => []
  | (name, .tree tree) :: bindings => (name ++ ": " ++ text tree) :: bindingTexts bindings
  | (name, .value value) :: bindings => (name ++ ": " ++ valueText value) :: bindingTexts bindings
end

end Tree

end Mixfix
