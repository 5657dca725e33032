import Mixfix.Proofs.Evaluation.Calls
import Mixfix.Proofs.Schema.Fitness
import Mixfix.Proofs.Standard.Table

/-!
# What an evaluation depends on

An expression reads the data at the paths of its references and nowhere else. Two values that the
schema allows and that have the same at these paths, or both nothing, cannot be told apart by it:
the same rules are called with the same arguments, in the same order
(`recordedEvaluation_eq_of_agreeOn`), so the outcome is the same, be it a value or a failure
(`evaluate_eq_of_agreeOn`).

The rules may be any functions of their arguments. The data reaches them through references only,
and the search for a missing field asks at these paths only.
-/

set_option autoImplicit false

namespace Mixfix

/-- Two values have the same at some paths, or both nothing. -/
def Value.AgreeOn (paths : List (List String)) (data other : Value) : Prop :=
  ∀ path ∈ paths, data.lookup path = other.lookup path

namespace Evaluation

variable {grammar : Grammar} {schema : Schema} {data other : Value} {tree : Tree}

/-! ## Values and calls -/

mutual
/-- The calls for a tree, and its value, depend on what its references read. -/
theorem record_eq_of_agreeOn : (tree : Tree) → Value.AgreeOn tree.paths data other →
    record grammar data tree = record grammar other tree
  | .literal _ _, _ => rfl
  | .identifier path _ _, agree => by
      have read : data.lookup path = other.lookup path := agree path List.mem_cons_self
      rw [record, record, read]
  | .node name bindings type depth extent, agree => by
      rw [record, record, recordArguments_eq_of_agreeOn bindings agree]
/-- The calls for bindings, and their values, depend on what the references in them read. -/
theorem recordArguments_eq_of_agreeOn : (bindings : List (String × Binding)) →
    Value.AgreeOn ((Tree.bindingReferences bindings).map Prod.fst) data other →
    recordArguments grammar data bindings = recordArguments grammar other bindings
  | [], _ => rfl
  | (name, .tree tree) :: bindings, agree => by
      rw [Tree.bindingReferences, List.map_append] at agree
      have here : Value.AgreeOn tree.paths data other :=
        fun path mem => agree path (List.mem_append_left _ mem)
      have later : Value.AgreeOn ((Tree.bindingReferences bindings).map Prod.fst) data other :=
        fun path mem => agree path (List.mem_append_right _ mem)
      rw [recordArguments, recordArguments, record_eq_of_agreeOn tree here,
        recordArguments_eq_of_agreeOn bindings later]
  | (name, .value constant) :: bindings, agree => by
      rw [recordArguments, recordArguments, recordArguments_eq_of_agreeOn bindings agree]
end

/-! ## The checks -/

/-- The same field is found missing, if one is. -/
theorem firstMissing_eq_of_agreeOn (agree : Value.AgreeOn tree.paths data other) :
    firstMissing schema data tree = firstMissing schema other tree := by
  rw [firstMissing, firstMissing, ← List.head?_filter, ← List.head?_filter]
  refine congrArg List.head? (List.filter_congr fun reference mem => ?_)
  have known : reference.1 ∈ tree.paths := List.mem_map_of_mem (List.mem_mergeSort.mp mem)
  rw [agree _ known]

/-- The checks of data that the schema allows come to the same. -/
theorem unfit?_eq_of_agreeOn (clean : schema.violations data = [])
    (cleanOther : schema.violations other = []) (agree : Value.AgreeOn tree.paths data other) :
    unfit? schema data tree = unfit? schema other tree := by
  rw [unfit?, unfit?, clean, cleanOther, firstMissing_eq_of_agreeOn agree]

/-! ## Evaluations -/

/-- Data that agrees on the paths of an expression leads to the same calls and the same outcome. -/
theorem recordedEvaluation_eq_of_agreeOn (clean : schema.violations data = [])
    (cleanOther : schema.violations other = []) (agree : Value.AgreeOn tree.paths data other) :
    recordedEvaluation grammar schema data tree = recordedEvaluation grammar schema other tree := by
  rw [recordedEvaluation, recordedEvaluation, unfit?_eq_of_agreeOn clean cleanOther agree,
    record_eq_of_agreeOn tree agree]

/-- Whatever the rules of a grammar are, an expression has the same value, or fails the same, over
any two data that the schema allows and that agree where the expression has references. -/
theorem evaluate_eq_of_agreeOn (grammar : Grammar) (clean : schema.violations data = [])
    (cleanOther : schema.violations other = [])
    (agree : ∀ reference ∈ tree.identifiers, data.lookup reference.1 = other.lookup reference.1) :
    evaluate grammar schema data tree = evaluate grammar schema other tree := by
  have onPaths : Value.AgreeOn tree.paths data other := by
    intro path mem
    obtain ⟨reference, known, rfl⟩ := List.mem_map.mp mem
    exact agree reference (List.mem_mergeSort.mpr known)
  rw [← recordedEvaluation_fst tree, ← recordedEvaluation_fst tree,
    recordedEvaluation_eq_of_agreeOn clean cleanOther onPaths]

/-- A price with a note and with more than its net. -/
def annotatedPrice : Value :=
  .object [("note", .null), ("price", .object [("gross", .integer 9), ("net", .integer 3)])]

/-- A price with its net only. -/
def netPrice : Value := .object [("price", .object [("net", .integer 3)])]

theorem evaluate_eq_of_agreeOn_prices :
    ∃ price, Schema.addField [] "net" "number" = .ok price ∧
      ∃ schema, Schema.addField (Schema.addNested [] "price" price) "discount"
          "number | undefined" = .ok schema ∧
        ∃ tree, Parse.whole ⟨Standard.table, schema, 8⟩ "discount ?? price.net * 2" = .ok tree ∧
          schema.violations annotatedPrice = [] ∧ schema.violations netPrice = [] ∧
          evaluate Standard.table schema annotatedPrice tree =
            evaluate Standard.table schema netPrice tree := by
  have accepted : ((Schema.addField [] "net" "number").toOption.any fun price =>
      (Schema.addField (Schema.addNested [] "price" price) "discount"
          "number | undefined").toOption.any fun schema =>
        (Parse.whole ⟨Standard.table, schema, 8⟩
            "discount ?? price.net * 2").toOption.any fun tree =>
          tree.paths == [["discount"], ["price", "net"]] &&
            (schema.violations annotatedPrice).isEmpty &&
            (schema.violations netPrice).isEmpty) = true := by
    decide +kernel
  obtain ⟨price, priced, accepted⟩ := exists_ok_of_any accepted
  obtain ⟨schema, added, accepted⟩ := exists_ok_of_any accepted
  obtain ⟨tree, read, accepted⟩ := exists_ok_of_any accepted
  rw [Bool.and_eq_true, Bool.and_eq_true, beq_iff_eq, List.isEmpty_iff,
    List.isEmpty_iff] at accepted
  obtain ⟨⟨paths, clean⟩, cleanOther⟩ := accepted
  refine ⟨price, priced, schema, added, tree, read, clean, cleanOther,
    evaluate_eq_of_agreeOn Standard.table clean cleanOther fun reference mem => ?_⟩
  have known : reference.1 ∈ tree.paths := List.mem_map_of_mem (List.mem_mergeSort.mp mem)
  rw [paths, List.mem_cons, List.mem_singleton] at known
  rcases known with same | same <;> rw [same] <;> rfl

end Evaluation

end Mixfix
