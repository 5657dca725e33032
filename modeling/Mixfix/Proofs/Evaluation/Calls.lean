import Mixfix.Evaluation
import Mixfix.Proofs.Descriptor.Reading
import Mixfix.Proofs.Tree.Subtrees

/-!
# The calls of an evaluation

An evaluation calls the rules of the nodes, inner nodes before outer ones, until one of them fails.
Here it is carried out with a record of these calls, and comes to the same (`record_fst`,
`recordedEvaluation_fst`). Each call is one for a node of the expression, with the values of what the
node binds (`mem_record`).
-/

set_option autoImplicit false

namespace Mixfix

/-- A call of the rule of a node. -/
structure Call where
  name : String
  /-- What the node binds. -/
  bindings : Bindings
  /-- What its rule is given. -/
  args : Args

namespace Evaluation

variable {grammar : Grammar} {schema : Schema} {data : Value}

mutual
/-- The value of a tree as `value` has it, with the calls of rules in their order. -/
def record (grammar : Grammar) (data : Value) : Tree → Except EvalFailure Value × List Call
  | .literal value _ => (.ok value, [])
  | .identifier path _ _ => (.ok ((data.lookup path).getD .undefined), [])
  | .node name bindings _ _ extent =>
    match rule grammar name with
    | .error cause => (.error ⟨extent.span.start, cause⟩, [])
    | .ok rule =>
      match recordArguments grammar data bindings with
      | (.error failure, calls) => (.error failure, calls)
      | (.ok args, calls) =>
        (placed extent.span.start (applyRule rule name args), calls ++ [⟨name, bindings, args⟩])
/-- The values of bindings, with the calls of rules in their order. -/
def recordArguments (grammar : Grammar) (data : Value) :
    List (String × Binding) → Except EvalFailure (List (String × Value)) × List Call
  | [] => (.ok [], [])
  | (name, .tree tree) :: bindings =>
    match record grammar data tree with
    | (.error failure, calls) => (.error failure, calls)
    | (.ok value, calls) =>
      let later := recordArguments grammar data bindings
      (later.1.map ((name, value) :: ·), calls ++ later.2)
  | (name, .value constant) :: bindings =>
    let later := recordArguments grammar data bindings
    (later.1.map ((name, constant) :: ·), later.2)
end

/-- An evaluation with the calls of rules in their order. -/
def recordedEvaluation (grammar : Grammar) (schema : Schema) (data : Value) (tree : Tree) :
    Except EvalFailure Value × List Call :=
  match unfit? schema data tree with
  | some failure => (.error failure, [])
  | none => record grammar data tree

/-! ## The same outcome -/

mutual
/-- Recording the calls does not change a value. -/
theorem record_fst : (tree : Tree) → (record grammar data tree).1 = value grammar data tree
  | .literal _ _ => rfl
  | .identifier _ _ _ => rfl
  | .node name bindings type depth extent => by
      rw [record, value, ← recordArguments_fst bindings]
      cases rule grammar name with
      | error cause => rfl
      | ok rule =>
          dsimp only
          rcases recordArguments grammar data bindings with ⟨failure | args, calls⟩ <;> rfl
/-- Recording the calls does not change the values of bindings. -/
theorem recordArguments_fst : (bindings : List (String × Binding)) →
    (recordArguments grammar data bindings).1 = arguments grammar data bindings
  | [] => rfl
  | (name, .tree tree) :: bindings => by
      rw [recordArguments, arguments, ← record_fst tree, ← recordArguments_fst bindings]
      rcases record grammar data tree with ⟨failure | value, calls⟩
      · rfl
      · dsimp only
        cases (recordArguments grammar data bindings).1 <;> rfl
  | (name, .value constant) :: bindings => by
      rw [recordArguments, arguments, ← recordArguments_fst bindings]
      dsimp only
      cases (recordArguments grammar data bindings).1 <;> rfl
end

/-- Recording the calls does not change what an evaluation comes to. -/
theorem recordedEvaluation_fst (tree : Tree) :
    (recordedEvaluation grammar schema data tree).1 = evaluate grammar schema data tree := by
  unfold recordedEvaluation evaluate
  cases unfit? schema data tree with
  | some failure => rfl
  | none => exact record_fst tree

/-! ## What is called -/

/-- A call is one for a node, with the values of what the node binds. -/
def IsCallOf (grammar : Grammar) (data : Value) (call : Call) (tree : Tree) : Prop :=
  ∃ type depth extent, tree = .node call.name call.bindings type depth extent ∧
    arguments grammar data call.bindings = .ok call.args

mutual
/-- Every call is one for a node inside of the tree. -/
theorem mem_record {call : Call} : (tree : Tree) → call ∈ (record grammar data tree).2 →
    ∃ inner ∈ tree.subtrees, IsCallOf grammar data call inner
  | .literal _ _, mem => by cases mem
  | .identifier _ _ _, mem => by cases mem
  | .node name bindings type depth extent, mem => by
      have within (earlier : call ∈ (recordArguments grammar data bindings).2) :
          ∃ inner ∈ (Tree.node name bindings type depth extent).subtrees,
            IsCallOf grammar data call inner := by
        obtain ⟨inner, inside, called⟩ := mem_recordArguments bindings earlier
        refine ⟨inner, ?_, called⟩
        rw [Tree.subtrees]
        exact List.mem_cons_of_mem _ inside
      have values : (recordArguments grammar data bindings).1 = arguments grammar data bindings :=
        recordArguments_fst bindings
      rw [record] at mem
      cases known : rule grammar name with
      | error cause =>
          rw [known] at mem
          cases mem
      | ok rule =>
          rw [known] at mem
          generalize recordArguments grammar data bindings = recorded at mem within values
          obtain ⟨failure | args, calls⟩ := recorded
          · exact within mem
          · rcases List.mem_append.mp mem with earlier | last
            · exact within earlier
            · obtain rfl := List.mem_singleton.mp last
              exact ⟨_, Tree.self_mem_subtrees _, type, depth, extent, rfl, values.symm⟩
/-- Every call is one for a node inside of the bindings. -/
theorem mem_recordArguments {call : Call} : (bindings : List (String × Binding)) →
    call ∈ (recordArguments grammar data bindings).2 →
    ∃ inner ∈ Tree.bindingSubtrees bindings, IsCallOf grammar data call inner
  | [], mem => by cases mem
  | (name, .tree tree) :: bindings, mem => by
      have first : call ∈ (record grammar data tree).2 → _ := mem_record tree
      have later : call ∈ (recordArguments grammar data bindings).2 → _ :=
        mem_recordArguments bindings
      rw [recordArguments] at mem
      rw [Tree.bindingSubtrees]
      generalize record grammar data tree = recorded at mem first
      obtain ⟨failure | value, calls⟩ := recorded
      · obtain ⟨inner, inside, called⟩ := first mem
        exact ⟨inner, List.mem_append_left _ inside, called⟩
      · rcases List.mem_append.mp mem with here | there
        · obtain ⟨inner, inside, called⟩ := first here
          exact ⟨inner, List.mem_append_left _ inside, called⟩
        · obtain ⟨inner, inside, called⟩ := later there
          exact ⟨inner, List.mem_append_right _ inside, called⟩
  | (name, .value constant) :: bindings, mem => by
      rw [recordArguments] at mem
      rw [Tree.bindingSubtrees]
      exact mem_recordArguments bindings mem
end

/-! ## What rules are given -/

/-- The value of a binding. -/
def bindingValue (grammar : Grammar) (data : Value) : Binding → Except EvalFailure Value
  | .tree tree => value grammar data tree
  | .value constant => .ok constant

/-- Bindings are evaluated one after the other. -/
theorem arguments_cons (name : String) (binding : Binding) (bindings : Bindings) :
    arguments grammar data ((name, binding) :: bindings) = (do
      let value ← bindingValue grammar data binding
      .ok ((name, value) :: (← arguments grammar data bindings))) := by
  cases binding <;> rfl

/-- Bindings have their values under their names. -/
theorem get?_of_arguments {bindings : Bindings} {args : Args}
    (given : arguments grammar data bindings = .ok args) {name : String} {binding : Binding}
    (bound : Dict.get? bindings name = some binding) :
    ∃ value, bindingValue grammar data binding = .ok value ∧ Dict.get? args name = some value := by
  induction bindings generalizing args with
  | nil => cases bound
  | cons head bindings ih =>
      obtain ⟨key, first⟩ := head
      rw [arguments_cons] at given
      obtain ⟨value, isValue, given⟩ := ok_of_bind given
      obtain ⟨later, rest, done⟩ := ok_of_bind given
      cases done
      rw [Dict.get?_cons] at bound ⊢
      split at bound
      · next same =>
          cases bound
          exact ⟨value, isValue, if_pos same⟩
      · next differs =>
          rw [if_neg differs]
          exact ih rest bound

end Evaluation

end Mixfix
