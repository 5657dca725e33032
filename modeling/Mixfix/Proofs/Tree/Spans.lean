import Mathlib.Data.List.Pairwise
import Mixfix.Proofs.Evaluation.Preconditions

/-!
# Spans of trees

A span lies in a source text if it is not empty and both of its ends are boundaries of characters
of the text. A tree is laid out in a text if its span lies in it and encloses the spans of its
operands, which are apart from each other (`LaidOut`); it is spaced if everything inside of it is
laid out (`Spaced`).

The references of a spaced tree are apart from each other, since they lie in operands that are
(`apart_references`). So no two of them start at the same place, and in the order of the source text
their starts ascend strictly (`starts_identifiers`).
-/

set_option autoImplicit false

namespace Mixfix

variable {source : String}

/-! ## Spans -/

/-- A character of a text starts at an offset, or the text ends there. -/
def IsBoundary (source : String) (offset : Nat) : Prop :=
  ∃ before after, source.toList = before ++ after ∧ byteLength before = offset

theorem Cursor.LiesIn.isBoundary {cursor : Cursor} (inside : cursor.LiesIn source) :
    IsBoundary source cursor.offset := by
  obtain ⟨before, whole, counted⟩ := inside
  exact ⟨before, cursor.rest, whole, counted.symm⟩

theorem IsBoundary.le {offset : Nat} (boundary : IsBoundary source offset) :
    offset ≤ source.utf8ByteSize := by
  obtain ⟨before, after, whole, rfl⟩ := boundary
  rw [← String.ofList_toList (s := source), ← Cursor.byteLength_eq, whole, byteLength_append]
  exact Nat.le_add_right _ _

namespace Span

/-- A span covers some characters of a text. -/
structure LiesIn (source : String) (span : Span) : Prop where
  nonempty : span.start < span.stop
  inside : span.stop ≤ source.utf8ByteSize
  start : IsBoundary source span.start
  stop : IsBoundary source span.stop

/-- The text from a cursor to one behind it is a span of the source text. -/
theorem liesIn_between {cursor next : Cursor} (inside : cursor.LiesIn source)
    (passes : cursor.Passes next) : LiesIn source ⟨cursor.offset, next.offset⟩ where
  nonempty := passes.offset_lt
  inside := (inside.reaches passes.reaches).isBoundary.le
  start := inside.isBoundary
  stop := (inside.reaches passes.reaches).isBoundary

/-- A span lies within another one. -/
def Within (inner outer : Span) : Prop := outer.start ≤ inner.start ∧ inner.stop ≤ outer.stop

/-- One of two spans ends before the other one starts. -/
def Apart (first second : Span) : Prop := first.stop ≤ second.start ∨ second.stop ≤ first.start

theorem Apart.symm {first second : Span} (apart : Apart first second) : Apart second first :=
  Or.symm apart

theorem Within.trans {inner middle outer : Span} (first : inner.Within middle)
    (second : middle.Within outer) : inner.Within outer :=
  ⟨Nat.le_trans second.1 first.1, Nat.le_trans first.2 second.2⟩

/-- What lies within spans that are apart is apart. -/
theorem Apart.within {first second inner other : Span} (apart : Apart first second)
    (left : inner.Within first) (right : other.Within second) : Apart inner other := by
  rcases apart with before | behind
  · exact .inl (Nat.le_trans left.2 (Nat.le_trans before right.1))
  · exact .inr (Nat.le_trans right.2 (Nat.le_trans behind left.1))

end Span

namespace Tree

/-! ## Trees -/

/-- The spans of a tree and of its operands are as they should be in a text. -/
structure LaidOut (source : String) (tree : Tree) : Prop where
  span : tree.span.LiesIn source
  within : ∀ operand ∈ tree.operands, operand.2.span.Within tree.span
  apart : tree.operands.Pairwise fun first second => first.2.span.Apart second.2.span

/-- A tree is laid out, with everything inside of it. -/
def Spaced (source : String) (tree : Tree) : Prop := ∀ inner ∈ tree.subtrees, inner.LaidOut source

theorem Spaced.laidOut {tree : Tree} (spaced : Spaced source tree) : tree.LaidOut source :=
  spaced tree tree.self_mem_subtrees

theorem Spaced.operand {tree : Tree} (spaced : Spaced source tree) {operand : String × Tree}
    (known : operand ∈ tree.operands) : Spaced source operand.2 := by
  intro inner inside
  exact spaced inner (mem_subtrees.mpr (.inr ⟨operand, known, inside⟩))

/-- A tree that is laid out is spaced if its operands are. -/
theorem spaced_of_operands {tree : Tree} (laidOut : tree.LaidOut source)
    (spaced : ∀ operand ∈ tree.operands, Spaced source operand.2) : Spaced source tree := by
  intro inner mem
  rcases mem_subtrees.mp mem with rfl | ⟨operand, known, inside⟩
  · exact laidOut
  · exact spaced operand known inner inside

/-- Without operands only the span of a tree matters. -/
theorem spaced_leaf {tree : Tree} (leaf : tree.operands = []) (lies : tree.span.LiesIn source) :
    Spaced source tree := by
  refine spaced_of_operands ⟨lies, ?_, ?_⟩ ?_
  · simp [leaf]
  · simp [leaf]
  · simp [leaf]

/-- Parentheses around a tree leave it spaced. -/
theorem Spaced.widen {tree : Tree} (spaced : Spaced source tree) {span : Span}
    (lies : span.LiesIn source) (within : tree.span.Within span) :
    Spaced source (tree.widen span) := by
  have widened : (tree.widen span).span = span := by rw [Tree.span, extent_widen]
  refine spaced_of_operands ⟨?_, ?_, ?_⟩ ?_
  · rwa [widened]
  · intro operand known
    rw [operands_widen] at known
    rw [widened]
    exact (spaced.laidOut.within operand known).trans within
  · rw [operands_widen]
    exact spaced.laidOut.apart
  · intro operand known
    rw [operands_widen] at known
    exact spaced.operand known

/-! ## References -/

mutual
/-- The references in a spaced tree lie within it and are apart from each other. -/
theorem apart_references : (tree : Tree) → Spaced source tree →
    (∀ reference ∈ tree.references, reference.2.LiesIn source ∧ reference.2.Within tree.span) ∧
      tree.references.Pairwise fun first second => first.2.Apart second.2
  | .literal _ _, _ => ⟨by simp [references], .nil⟩
  | .identifier path type extent, spaced => by
    refine ⟨?_, List.pairwise_singleton _ _⟩
    intro reference mem
    rw [references, List.mem_singleton] at mem
    subst mem
    exact ⟨spaced.laidOut.span, Nat.le_refl _, Nat.le_refl _⟩
  | .node name bindings type depth extent, spaced => by
    have laidOut := spaced.laidOut
    obtain ⟨among, apart⟩ := apart_bindingReferences bindings (fun _ known => spaced.operand known)
      laidOut.apart
    refine ⟨?_, apart⟩
    intro reference mem
    obtain ⟨lies, operand, known, within⟩ := among reference mem
    exact ⟨lies, within.trans (laidOut.within operand known)⟩
/-- The references in bindings lie within the trees among them and are apart from each other. -/
theorem apart_bindingReferences : (bindings : List (String × Binding)) →
    (∀ operand ∈ treesOf bindings, Spaced source operand.2) →
    ((treesOf bindings).Pairwise fun first second => first.2.span.Apart second.2.span) →
    (∀ reference ∈ bindingReferences bindings, reference.2.LiesIn source ∧
      ∃ operand ∈ treesOf bindings, reference.2.Within operand.2.span) ∧
      (bindingReferences bindings).Pairwise fun first second => first.2.Apart second.2
  | [], _, _ => ⟨by simp [bindingReferences], .nil⟩
  | (name, .tree tree) :: bindings, spaced, apart => by
    rw [treesOf, List.forall_mem_cons] at spaced
    rw [treesOf, List.pairwise_cons] at apart
    obtain ⟨here, apartHere⟩ := apart_references tree spaced.1
    obtain ⟨there, apartThere⟩ := apart_bindingReferences bindings spaced.2 apart.2
    rw [bindingReferences, treesOf, List.pairwise_append]
    refine ⟨?_, apartHere, apartThere, ?_⟩
    · intro reference mem
      rcases List.mem_append.mp mem with inside | inside
      · exact ⟨(here reference inside).1, _, List.mem_cons_self, (here reference inside).2⟩
      · obtain ⟨lies, operand, known, within⟩ := there reference inside
        exact ⟨lies, operand, List.mem_cons_of_mem _ known, within⟩
    · intro first mem second later
      obtain ⟨_, operand, known, within⟩ := there second later
      exact (apart.1 operand known).within (here first mem).2 within
  | (_, .value _) :: bindings, spaced, apart => apart_bindingReferences bindings spaced apart
end

/-- The references of a spaced tree in the order of the source text start one behind the other. -/
theorem starts_identifiers {tree : Tree} (spaced : Spaced source tree) :
    tree.identifiers.Pairwise fun first second => first.2.start < second.2.start := by
  obtain ⟨lies, apart⟩ := apart_references tree spaced
  have sorted : tree.identifiers.Perm tree.references := List.mergeSort_perm _ _
  have apartSorted : tree.identifiers.Pairwise fun first second => first.2.Apart second.2 :=
    (sorted.pairwise_iff fun apart => apart.symm).mpr apart
  refine ((Evaluation.pairwise_identifiers tree).and apartSorted).imp_of_mem ?_
  intro first second mem later both
  have nonempty := (lies first (sorted.mem_iff.mp mem)).1.nonempty
  have nonemptyLater := (lies second (sorted.mem_iff.mp later)).1.nonempty
  rcases both.2 with before | behind
  · exact Nat.lt_of_lt_of_le nonempty before
  · exact absurd both.1 (Nat.not_le.mpr (Nat.lt_of_lt_of_le nonemptyLater behind))

end Tree

end Mixfix
