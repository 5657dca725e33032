import Mixfix.Evaluation
import Mixfix.Proofs.Parse.Index

/-!
# Rearranged definitions

Only the order of definitions of the same precedence matters. Two lists of definitions that can be built
and differ in nothing else than how the precedences are mixed declare the same language
(`same_of_rearranges`): all texts have the same parse, with the same tree and rest or the same failure,
all trees have the same value or failure over all data, and the grammars have the same listing.

Parsing goes by the index of the grammar, evaluation by the names of the nodes, and the listing by
precedences. None of them knows about the order of all definitions.
-/

set_option autoImplicit false

namespace Mixfix

open Parse

namespace Evaluation

variable {grammar other : Grammar}

theorem rule_of_names (same : ∀ name, grammar.node? name = other.node? name) (name : String) :
    rule grammar name = rule other name := by
  simp only [rule, same]

mutual
/-- Values are computed by the definitions that names lead to. -/
theorem value_of_names (same : ∀ name, grammar.node? name = other.node? name) (data : Value) :
    (tree : Tree) → value grammar data tree = value other data tree
  | .literal constant extent => by simp only [value]
  | .identifier path type extent => by simp only [value]
  | .node name bindings depth type extent => by
      simp only [value, rule_of_names same, arguments_of_names same data bindings]
theorem arguments_of_names (same : ∀ name, grammar.node? name = other.node? name) (data : Value) :
    (bindings : List (String × Binding)) →
    arguments grammar data bindings = arguments other data bindings
  | [] => by simp only [arguments]
  | (name, .tree tree) :: bindings => by
      simp only [arguments, value_of_names same data tree, arguments_of_names same data bindings]
  | (name, .value constant) :: bindings => by
      simp only [arguments, arguments_of_names same data bindings]
end

theorem evaluate_of_names (same : ∀ name, grammar.node? name = other.node? name)
    (schema : Schema) (data : Value) (tree : Tree) :
    evaluate grammar schema data tree = evaluate other schema data tree := by
  simp only [evaluate, value_of_names same]

end Evaluation

namespace Grammar

variable {definitions reordered : List Definition} {grammar other : Grammar}

/-- Rearranged definitions declare the same language. -/
theorem same_of_rearranges (rearranges : Rearranges Definition.precedence definitions reordered)
    (built : build definitions = .ok grammar) (rebuilt : build reordered = .ok other) :
    (∀ (schema : Schema) (limit : Nat) (source : String),
      atStart ⟨grammar, schema, limit⟩ source = atStart ⟨other, schema, limit⟩ source ∧
        whole ⟨grammar, schema, limit⟩ source = whole ⟨other, schema, limit⟩ source) ∧
    (∀ (schema : Schema) (data : Value) (tree : Tree),
      evaluate grammar schema data tree = evaluate other schema data tree) ∧
    grammar.listing = other.listing := by
  refine ⟨fun schema limit source => ?_, fun schema data tree => ?_,
    listing_of_rearranges rearranges built rebuilt⟩
  · have moved : (⟨other, schema, limit⟩ : Setting) =
        Setting.reorder ⟨grammar, schema, limit⟩ other.productions :=
      congrArg (Setting.mk · schema limit) (eq_reorder_of_build rearranges built rebuilt)
    rw [moved, atStart_reorder, whole_reorder]
    exact ⟨rfl, rfl⟩
  · exact Evaluation.evaluate_of_names (node?_of_rearranges rearranges built rebuilt) schema data tree

/-- Two nodes of a level before one of another level. -/
def levelledDefinitions : List Definition :=
  Definition.binary "difference" 1 "-" (some "number") :: sampleDefinitions

/-- The same nodes with the one of the other level in front. -/
def mixedDefinitions : List Definition := levelledDefinitions.drop 2 ++ levelledDefinitions.take 2

theorem rearranges_mixedDefinitions :
    Rearranges Definition.precedence levelledDefinitions mixedDefinitions where
  perm := by
    conv_lhs => rw [← List.take_append_drop 2 levelledDefinitions]
    exact List.perm_append_comm
  stable level := by
    by_cases first : level = .level 1
    · subst first
      rfl
    · by_cases second : level = .level 2
      · subst second
        rfl
      · have other (number : UInt32) (differs : level ≠ .level number) :
            (Precedence.level number == level) = false :=
          beq_eq_false_iff_ne.mpr differs.symm
        simp [mixedDefinitions, levelledDefinitions, sampleDefinitions, Definition.binary,
          Definition.plain, Definition.returns, other 1 first, other 2 second]

theorem same_of_rearranges_mixedDefinitions : ∃ grammar other,
    build levelledDefinitions = .ok grammar ∧ build mixedDefinitions = .ok other ∧
      (∀ schema limit source,
        whole ⟨grammar, schema, limit⟩ source = whole ⟨other, schema, limit⟩ source) ∧
      grammar.listing = other.listing := by
  have accepted : (match build levelledDefinitions, build mixedDefinitions with
      | .ok _, .ok _ => true
      | _, _ => false) = true := by
    decide +kernel
  split at accepted
  · next grammar other built rebuilt =>
      have same := same_of_rearranges rearranges_mixedDefinitions built rebuilt
      exact ⟨grammar, other, built, rebuilt,
        fun schema limit source => (same.1 schema limit source).2, same.2.2⟩
  · cases accepted

end Grammar

end Mixfix
