import Mathlib
import Mixfix.Proofs.Descriptor.Agreement
import Mixfix.Proofs.Standard.Preservation
import Mixfix.Proofs.Standard.Reading

/-!
# Soundness of types

The value of an expression of the standard language is one that its type admits, and so is the value
of every part of it (`admits_of_evaluate`). Admission is respected by evaluation because a sorted
union admits what its sources admit; this is where exactness of the values in the schema is needed.

The parts of an expression that has a value have values themselves (`exists_value_of_subtree`).
-/

set_option autoImplicit false

namespace Mixfix.Standard

open Parse Evaluation
open Descriptor (WellFormed IsExact)

/-! ## Values of parts -/

section Parts

variable {grammar : Grammar} {data : Value} {inner : Tree}

mutual
/-- The parts of a tree that has a value have values. -/
theorem exists_value_of_subtree : (tree : Tree) → {result : Value} →
    value grammar data tree = .ok result → inner ∈ tree.subtrees →
    ∃ result, value grammar data inner = .ok result
  | .literal constant extent, _, ok, mem => by
    rw [Tree.subtrees, List.mem_singleton] at mem
    exact mem ▸ ⟨_, ok⟩
  | .identifier path type extent, _, ok, mem => by
    rw [Tree.subtrees, List.mem_singleton] at mem
    exact mem ▸ ⟨_, ok⟩
  | .node name bindings type depth extent, _, ok, mem => by
    rw [Tree.subtrees, List.mem_cons] at mem
    rcases mem with rfl | inside
    · exact ⟨_, ok⟩
    · rw [value] at ok
      obtain ⟨rule, _, ok⟩ := ok_of_bind ok
      obtain ⟨args, reached, _⟩ := ok_of_bind ok
      exact exists_value_of_bindingSubtree bindings reached inside
/-- The parts of bindings that have values have values. -/
theorem exists_value_of_bindingSubtree : (bindings : List (String × Binding)) → {args : Args} →
    arguments grammar data bindings = .ok args → inner ∈ Tree.bindingSubtrees bindings →
    ∃ result, value grammar data inner = .ok result
  | [], _, _, mem => by cases mem
  | (name, .tree tree) :: bindings, _, ok, mem => by
    rw [arguments] at ok
    obtain ⟨first, reached, ok⟩ := ok_of_bind ok
    obtain ⟨others, later, _⟩ := ok_of_bind ok
    rw [Tree.bindingSubtrees, List.mem_append] at mem
    rcases mem with inside | inside
    · exact exists_value_of_subtree tree reached inside
    · exact exists_value_of_bindingSubtree bindings later inside
  | (name, .value constant) :: bindings, _, ok, mem => by
    rw [arguments] at ok
    obtain ⟨others, later, _⟩ := ok_of_bind ok
    rw [Tree.bindingSubtrees] at mem
    exact exists_value_of_bindingSubtree bindings later mem
end

end Parts

/-! ## Types -/

/-- A well-formed type whose members have exact values only. -/
def HasExactValues (type : Descriptor) : Prop :=
  WellFormed type ∧ ∀ member ∈ type.members, ∀ part ∈ member.parts, IsExact part

theorem hasExactValues_of_parts {type : Descriptor} (wellFormed : WellFormed type)
    (exact : ∀ part ∈ type.parts, IsExact part) : HasExactValues type :=
  ⟨wellFormed, fun _ inside part mem => exact part (Descriptor.parts_member inside mem)⟩

theorem respected_admits : Respected HasExactValues fun type value => type.admits value = true where
  closed := by
    apply closed_members
    intro value part mem
    cases value with
    | array items =>
        simp only [Descriptor.ofValue, Descriptor.parts, List.mem_cons, List.not_mem_nil, or_false]
          at mem
        rcases mem with rfl | rfl <;> trivial
    | _ => exact List.mem_singleton.mp mem ▸ trivial
  admitted := fun _ admits => admits
  union := fun good known admits =>
    Descriptor.admits_sortedUnion (fun type mem => (good type mem).1)
      (fun type mem => (good type mem).2) known admits

/-- The value of an expression of the standard language is admitted by the type of the expression,
and over data that is fit for the expression the value of every part of it is admitted by the type of
the part; if the expression has a value, all of its parts have one. -/
theorem admits_of_evaluate {grammar : Grammar} (built : Standard.grammar = .ok grammar)
    {schema : Schema} (schemaBuilt : Schema.IsBuilt schema)
    (exact : Schema.All (fun type => ∀ part ∈ type.parts, IsExact part) schema) {limit : Nat}
    {source : String} {tree : Tree} (read : whole ⟨grammar, schema, limit⟩ source = .ok tree)
    (data : Value) :
    (∀ result, evaluate grammar schema data tree = .ok result → tree.type.admits result = true ∧
      ∀ inner ∈ tree.subtrees, ∃ part, value grammar data inner = .ok part) ∧
    (unfit? schema data tree = none → ∀ inner ∈ tree.subtrees, ∀ part,
      value grammar data inner = .ok part → inner.type.admits part = true) := by
  obtain rfl : table = grammar := Except.ok.inj (grammar_eq.symm.trans built)
  obtain ⟨next, written, _⟩ := whole_ok_iff.mp read
  have types : Schema.All HasExactValues schema :=
    Schema.All.and (fun _ => hasExactValues_of_parts) schemaBuilt.wellFormed exact
  have inside : unfit? schema data tree = none → ∀ inner ∈ tree.subtrees, ∀ part,
      value table data inner = .ok part → inner.type.admits part = true := by
    intro unfit inner mem part ok
    obtain ⟨depth, floor, start, stop, _, inWritten⟩ := written.of_subtree inner mem
    have fit := (unfit?_eq_none_iff.mp unfit).of_subtree mem
    exact (inWritten.keepsTo respected_admits types fit).of_ok ok
  refine ⟨fun result ok => ?_, inside⟩
  unfold evaluate at ok
  split at ok
  · cases ok
  · next unfit =>
      exact ⟨inside unfit tree tree.self_mem_subtrees result ok,
        fun inner mem => exists_value_of_subtree tree ok mem⟩

theorem admits_of_evaluate_choice :
    ∃ schema, Schema.addField [] "price" "1.5 | 'free'" = .ok schema ∧
      ∃ tree, whole ⟨table, schema, 8⟩ "price == 'free' ? 0 : price" = .ok tree ∧ ∀ data,
        (∀ result, evaluate table schema data tree = .ok result →
          tree.type.admits result = true ∧
            ∀ inner ∈ tree.subtrees, ∃ part, value table data inner = .ok part) ∧
        (unfit? schema data tree = none → ∀ inner ∈ tree.subtrees, ∀ part,
          value table data inner = .ok part → inner.type.admits part = true) := by
  let schema : Schema :=
    [("price", .type (.union [.unit (.float (.ofDecimal false 15 (-1))), .unit (.string "free")]))]
  have added : Schema.addField [] "price" "1.5 | 'free'" = .ok schema := rfl
  refine ⟨schema, added, ?_⟩
  have exact : Schema.All (fun type => ∀ part ∈ type.parts, IsExact part) schema := by
    refine ⟨?_, trivial⟩
    rw [Entry.All]
    intro part mem
    simp only [Descriptor.parts, Descriptor.memberParts, List.cons_append, List.nil_append,
      List.mem_cons, List.not_mem_nil, or_false] at mem
    rcases mem with rfl | rfl | rfl
    · trivial
    · show (Binary64.ofDecimal false 15 (-1)).magnitudeBelow (2 ^ 53) = true
      decide +kernel
    · trivial
  have accepted : (whole ⟨table, schema, 8⟩ "price == 'free' ? 0 : price").isOk = true := by
    decide +kernel
  cases ok : whole ⟨table, schema, 8⟩ "price == 'free' ? 0 : price" with
  | error failure =>
      rw [ok] at accepted
      cases accepted
  | ok tree => exact ⟨tree, rfl, admits_of_evaluate grammar_eq (.field .empty added) exact ok⟩

end Mixfix.Standard
