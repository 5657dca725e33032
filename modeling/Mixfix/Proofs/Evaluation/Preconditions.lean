import Mixfix.Proofs.Evaluation.Calls
import Mixfix.Proofs.Parse.Inheritance
import Mixfix.Proofs.Schema.Fitness
import Mixfix.Proofs.Standard.Table

/-!
# What an evaluation checks before it calls rules

No rule is called for data that violates the schema or lacks a field that the expression reads, and
the failure does not depend on the rules then (`checksFirst_of_read`). Of several missing fields the
one that is read first in the source text is reported: the references are visited in the order in
which they start, so the first that is missing starts before all others.

Once the checks are passed, what a rule is given for a reference is a value of the type of its field.
-/

set_option autoImplicit false

namespace Mixfix.Evaluation

variable {grammar : Grammar} {schema : Schema} {data : Value} {tree : Tree} {failure : EvalFailure}

/-! ## Failures of the checks and of the rules -/

/-- A failure that lies with the rules of a grammar. -/
def LiesWithRules (failure : EvalFailure) : Prop :=
  failure.cause.kind = .notImplemented ∨ failure.cause.kind = .ruleFailed

theorem liesWithRules_of_rule {name : String} {offset : Nat}
    (failed : placed offset (rule grammar name) = .error failure) : LiesWithRules failure := by
  unfold rule at failed
  split at failed
  · cases failed
    exact .inl rfl
  · split at failed
    · cases failed
      exact .inl rfl
    · cases failed

theorem liesWithRules_of_applyRule {rule : Rule} {name : String} {args : Args} {offset : Nat}
    (failed : placed offset (applyRule rule name args) = .error failure) :
    LiesWithRules failure := by
  unfold applyRule at failed
  cases result : rule args with
  | ok value =>
      rw [result] at failed
      cases failed
  | error error =>
      rw [result] at failed
      cases failed
      exact .inr rfl

mutual
/-- Where the checks are passed only rules fail. -/
theorem liesWithRules_of_value : (tree : Tree) → value grammar data tree = .error failure →
    LiesWithRules failure
  | .literal _ _, failed => by cases failed
  | .identifier _ _ _, failed => by cases failed
  | .node name bindings type depth extent, failed => by
      rw [value] at failed
      rcases error_of_bind failed with unknown | ⟨rule, _, failed⟩
      · exact liesWithRules_of_rule unknown
      · rcases error_of_bind failed with inside | ⟨args, _, failed⟩
        · exact liesWithRules_of_arguments bindings inside
        · exact liesWithRules_of_applyRule failed
theorem liesWithRules_of_arguments : (bindings : List (String × Binding)) →
    arguments grammar data bindings = .error failure → LiesWithRules failure
  | [], failed => by cases failed
  | (name, .tree tree) :: bindings, failed => by
      rw [arguments] at failed
      rcases error_of_bind failed with here | ⟨value, _, failed⟩
      · exact liesWithRules_of_value tree here
      · rcases error_of_bind failed with later | ⟨args, _, done⟩
        · exact liesWithRules_of_arguments bindings later
        · cases done
  | (name, .value constant) :: bindings, failed => by
      rw [arguments] at failed
      rcases error_of_bind failed with later | ⟨args, _, done⟩
      · exact liesWithRules_of_arguments bindings later
      · cases done
end

/-! ## Missing fields -/

/-- A field is missing if the data has nothing at its path and its type does not admit an absent
value. -/
def IsMissing (schema : Schema) (data : Value) (path : List String) : Prop :=
  data.lookup path = none ∧
    ∃ entry, schema.resolve path = some entry ∧ entry.descriptor.admits .undefined = false

/-- A reference to a missing field that starts before all others. -/
structure IsFirstMissing (schema : Schema) (data : Value) (tree : Tree)
    (reference : List String × Span) : Prop where
  mem : reference ∈ tree.references
  missing : IsMissing schema data reference.1
  first : ∀ other ∈ tree.references, IsMissing schema data other.1 →
    reference.2.start ≤ other.2.start

/-- Every reference in a tree stands for a field of the schema. -/
def Resolved (schema : Schema) (tree : Tree) : Prop :=
  ∀ path type extent, .identifier path type extent ∈ tree.subtrees →
    ∃ entry, schema.resolve path = some entry ∧ entry.descriptor = type

theorem isMissing_iff (resolved : Resolved schema tree) {reference : List String × Span}
    (mem : reference ∈ tree.references) : IsMissing schema data reference.1 ↔
      ((data.lookup reference.1).isNone && !mayBeAbsent schema reference.1) = true := by
  obtain ⟨type, extent, inside⟩ := Tree.identifier_of_reference tree mem
  obtain ⟨entry, found, _⟩ := resolved _ _ _ inside
  rw [IsMissing, mayBeAbsent, found, Option.any_some, Bool.and_eq_true, Option.isNone_iff_eq_none,
    Bool.not_eq_true']
  constructor
  · rintro ⟨nothing, _, ⟨⟩, refused⟩
    exact ⟨nothing, refused⟩
  · rintro ⟨nothing, refused⟩
    exact ⟨nothing, entry, rfl, refused⟩

/-- The references of a tree by their start. -/
theorem pairwise_identifiers (tree : Tree) :
    tree.identifiers.Pairwise fun a b => a.2.start ≤ b.2.start := by
  refine (List.pairwise_mergeSort ?_ ?_ tree.references).imp fun le => of_decide_eq_true le
  · intro a b c first second
    exact decide_eq_true (Nat.le_trans (of_decide_eq_true first) (of_decide_eq_true second))
  · intro a b
    rw [Bool.or_eq_true, decide_eq_true_eq, decide_eq_true_eq]
    exact Nat.le_total _ _

theorem mem_identifiers {reference : List String × Span} :
    reference ∈ tree.identifiers ↔ reference ∈ tree.references :=
  List.mem_mergeSort

/-- What is found first among the references starts before all others that pass the test. -/
theorem start_le_of_find? {test : List String × Span → Bool} {reference : List String × Span}
    (found : tree.identifiers.find? test = some reference) {other : List String × Span}
    (among : other ∈ tree.references) (passes : test other = true) :
    reference.2.start ≤ other.2.start := by
  obtain ⟨_, before, after, split, failed⟩ := List.find?_eq_some_iff_append.mp found
  have ordered := pairwise_identifiers tree
  have there := mem_identifiers.mpr among
  rw [split] at ordered there
  rcases List.mem_append.mp there with earlier | here
  · have fails := failed other earlier
    rw [passes] at fails
    cases fails
  · rcases List.mem_cons.mp here with rfl | later
    · exact Nat.le_refl _
    · exact (List.pairwise_cons.mp (List.pairwise_append.mp ordered).2.1).1 other later

/-- What is found missing first starts before all others that are missing. -/
theorem isFirstMissing_of_firstMissing (resolved : Resolved schema tree)
    {reference : List String × Span} (found : firstMissing schema data tree = some reference) :
    IsFirstMissing schema data tree reference := by
  have mem : reference ∈ tree.references := mem_identifiers.mp (List.mem_of_find?_eq_some found)
  obtain ⟨missing, -⟩ := List.find?_eq_some_iff_append.mp found
  refine ⟨mem, (isMissing_iff resolved mem).mpr missing, fun other among lacks => ?_⟩
  exact start_le_of_find? found among ((isMissing_iff resolved among).mp lacks)

theorem firstMissing_eq_none (resolved : Resolved schema tree) :
    firstMissing schema data tree = none ↔
      ∀ reference ∈ tree.references, ¬ IsMissing schema data reference.1 := by
  rw [firstMissing, List.find?_eq_none]
  constructor
  · intro fine reference mem missing
    exact fine reference (mem_identifiers.mpr mem) ((isMissing_iff resolved mem).mp missing)
  · intro fine reference mem missing
    have among := mem_identifiers.mp mem
    exact fine reference among ((isMissing_iff resolved among).mpr missing)

/-! ## The checks -/

/-- The checks that come before the rules, and what rules are given after them. -/
structure ChecksFirst (grammar : Grammar) (schema : Schema) (data : Value) (tree : Tree) :
    Prop where
  /-- Violations are reported if there are any. -/
  violated : (∃ failure, evaluate grammar schema data tree = .error failure ∧
    failure.cause.kind = .dataTypeViolation) ↔ schema.violations data ≠ []
  /-- Exactly the violations of the data are reported. -/
  violations : ∀ failure, evaluate grammar schema data tree = .error failure →
    failure.cause.kind = .dataTypeViolation →
      failure.cause = .dataViolation (schema.violations data)
  /-- In data without violations a missing field is reported if there is one. -/
  missing : schema.violations data = [] →
    ((∃ failure, evaluate grammar schema data tree = .error failure ∧
      failure.cause.kind = .missingData) ↔
        ∃ reference ∈ tree.references, IsMissing schema data reference.1)
  /-- Of several missing fields the first one in the source text is reported, where it starts. -/
  first : ∀ failure, evaluate grammar schema data tree = .error failure →
    failure.cause.kind = .missingData → ∃ reference, IsFirstMissing schema data tree reference ∧
      failure = ⟨reference.2.start, .missingData reference.1⟩
  /-- What is reported of the data does not depend on the grammar and its rules. -/
  independent : (schema.violations data ≠ [] ∨
    ∃ reference ∈ tree.references, IsMissing schema data reference.1) →
      ∀ other, evaluate other schema data tree = evaluate grammar schema data tree
  /-- The calls of rules are recorded without a change to the evaluation. -/
  recorded : (recordedEvaluation grammar schema data tree).1 = evaluate grammar schema data tree
  /-- A rule is given values of the types of the references that its node binds. -/
  described : ∀ call ∈ (recordedEvaluation grammar schema data tree).2,
    ∀ name path type extent, (name, .tree (.identifier path type extent)) ∈ call.bindings →
      ∃ value, Dict.get? call.args name = some value ∧ type.admits value = true

/-- What the checks come to, in the order in which they are made. -/
inductive Checked (schema : Schema) (data : Value) (tree : Tree) : Prop
  | violating (violated : schema.violations data ≠ [])
      (unfit : unfit? schema data tree = some
        ⟨violationOffset tree (schema.violations data), .dataViolation (schema.violations data)⟩)
  | lacking {reference : List String × Span} (clean : schema.violations data = [])
      (first : IsFirstMissing schema data tree reference)
      (unfit : unfit? schema data tree = some ⟨reference.2.start, .missingData reference.1⟩)
  | passed (fit : IsFit schema data tree)
      (complete : ∀ reference ∈ tree.references, ¬ IsMissing schema data reference.1)

theorem checked (resolved : Resolved schema tree) (data : Value) : Checked schema data tree := by
  cases violations : schema.violations data with
  | cons violation violations' =>
      refine .violating (by rw [violations]; exact nofun) ?_
      rw [unfit?, violations]
  | nil =>
      cases found : firstMissing schema data tree with
      | some reference =>
          refine .lacking violations (isFirstMissing_of_firstMissing resolved found) ?_
          rw [unfit?, violations]
          dsimp only
          rw [found]
          rfl
      | none =>
          refine .passed (unfit?_eq_none_iff.mp ?_) ((firstMissing_eq_none resolved).mp found)
          rw [unfit?, violations]
          dsimp only
          rw [found]
          rfl

theorem evaluate_of_unfit? (unfit : unfit? schema data tree = some failure) (grammar : Grammar) :
    evaluate grammar schema data tree = .error failure := by
  rw [evaluate, unfit]

theorem evaluate_of_isFit (fit : IsFit schema data tree) (grammar : Grammar) :
    evaluate grammar schema data tree = value grammar data tree := by
  rw [evaluate, unfit?_eq_none_iff.mpr fit]

/-- No rule is called where the checks fail. -/
theorem calls_of_unfit? (unfit : unfit? schema data tree = some failure) (grammar : Grammar) :
    (recordedEvaluation grammar schema data tree).2 = [] := by
  rw [recordedEvaluation, unfit]

/-- The value that a rule is given for a reference is described by its field. -/
theorem admits_of_call (resolved : Resolved schema tree)
    (ordered : ∀ name bindings type depth extent,
      .node name bindings type depth extent ∈ tree.subtrees → Dict.Ordered bindings)
    (fit : IsFit schema data tree) {call : Call} (mem : call ∈ (record grammar data tree).2)
    {name : String} {path : List String} {type : Descriptor} {extent : Extent}
    (bound : (name, .tree (.identifier path type extent)) ∈ call.bindings) :
    ∃ value, Dict.get? call.args name = some value ∧ type.admits value = true := by
  obtain ⟨inner, inside, result, depth, place, rfl, given⟩ := mem_record tree mem
  have only := (ordered _ _ _ _ _ inside).nodup
  obtain ⟨value, isValue, there⟩ :=
    get?_of_arguments given ((Dict.get?_eq_some_iff only).mpr bound)
  refine ⟨value, there, ?_⟩
  cases isValue
  have within : .identifier path type extent ∈ tree.subtrees := by
    refine Tree.subtrees_subset tree inside ?_
    rw [Tree.subtrees, List.mem_cons, Tree.mem_bindingSubtrees]
    exact .inr ⟨(name, _), Tree.mem_treesOf.mpr bound, Tree.self_mem_subtrees _⟩
  obtain ⟨entry, found, rfl⟩ := resolved _ _ _ within
  exact fit.admits (Tree.paths_subtree tree within List.mem_cons_self) found

theorem checksFirst_of_violating (violated : schema.violations data ≠ [])
    (unfit : unfit? schema data tree = some
      ⟨violationOffset tree (schema.violations data), .dataViolation (schema.violations data)⟩)
    (grammar : Grammar) : ChecksFirst grammar schema data tree := by
  have reported := evaluate_of_unfit? unfit
  constructor
  case violated => exact ⟨fun _ => violated, fun _ => ⟨_, reported grammar, rfl⟩⟩
  case violations =>
    intro failure failed _
    cases (reported grammar).symm.trans failed
    rfl
  case missing => exact fun clean => absurd clean violated
  case first =>
    intro failure failed kind
    cases (reported grammar).symm.trans failed
    cases kind
  case independent => exact fun _ other => (reported other).trans (reported grammar).symm
  case recorded => exact recordedEvaluation_fst tree
  case described =>
    rw [calls_of_unfit? unfit]
    exact nofun

theorem checksFirst_of_lacking {reference : List String × Span}
    (clean : schema.violations data = [])
    (first : IsFirstMissing schema data tree reference)
    (unfit : unfit? schema data tree = some ⟨reference.2.start, .missingData reference.1⟩)
    (grammar : Grammar) : ChecksFirst grammar schema data tree := by
  have reported := evaluate_of_unfit? unfit
  constructor
  case violated =>
    refine ⟨?_, fun violated => absurd clean violated⟩
    rintro ⟨failure, failed, kind⟩
    cases (reported grammar).symm.trans failed
    cases kind
  case violations =>
    intro failure failed kind
    cases (reported grammar).symm.trans failed
    cases kind
  case missing =>
    exact fun _ => ⟨fun _ => ⟨_, first.mem, first.missing⟩, fun _ => ⟨_, reported grammar, rfl⟩⟩
  case first =>
    intro failure failed _
    cases (reported grammar).symm.trans failed
    exact ⟨_, first, rfl⟩
  case independent => exact fun _ other => (reported other).trans (reported grammar).symm
  case recorded => exact recordedEvaluation_fst tree
  case described =>
    rw [calls_of_unfit? unfit]
    exact nofun

/-- Where the checks are passed, a failure lies with the rules, so it is none of those of the
checks. -/
theorem kind_ne_of_isFit (fit : IsFit schema data tree)
    (failed : evaluate grammar schema data tree = .error failure) :
    failure.cause.kind ≠ .dataTypeViolation ∧ failure.cause.kind ≠ .missingData := by
  rw [evaluate_of_isFit fit] at failed
  rcases liesWithRules_of_value tree failed with kind | kind <;> simp [kind]

theorem checksFirst_of_passed (resolved : Resolved schema tree)
    (ordered : ∀ name bindings type depth extent,
      .node name bindings type depth extent ∈ tree.subtrees → Dict.Ordered bindings)
    (fit : IsFit schema data tree)
    (complete : ∀ reference ∈ tree.references, ¬ IsMissing schema data reference.1)
    (grammar : Grammar) : ChecksFirst grammar schema data tree := by
  constructor
  case violated =>
    refine ⟨?_, fun violated => absurd fit.clean violated⟩
    rintro ⟨failure, failed, kind⟩
    exact absurd kind (kind_ne_of_isFit fit failed).1
  case violations => exact fun failure failed kind => absurd kind (kind_ne_of_isFit fit failed).1
  case missing =>
    refine fun _ => ⟨?_, fun ⟨reference, mem, lacks⟩ => absurd lacks (complete reference mem)⟩
    rintro ⟨failure, failed, kind⟩
    exact absurd kind (kind_ne_of_isFit fit failed).2
  case first => exact fun failure failed kind => absurd kind (kind_ne_of_isFit fit failed).2
  case independent =>
    rintro (violated | ⟨reference, mem, lacks⟩)
    · exact absurd fit.clean violated
    · exact absurd lacks (complete reference mem)
  case recorded => exact recordedEvaluation_fst tree
  case described =>
    intro call mem name path type extent bound
    rw [recordedEvaluation, unfit?_eq_none_iff.mpr fit] at mem
    exact admits_of_call resolved ordered fit mem bound

theorem checksFirst (resolved : Resolved schema tree)
    (ordered : ∀ name bindings type depth extent,
      .node name bindings type depth extent ∈ tree.subtrees → Dict.Ordered bindings)
    (grammar : Grammar) (data : Value) : ChecksFirst grammar schema data tree := by
  cases checked resolved data with
  | violating violated unfit => exact checksFirst_of_violating violated unfit grammar
  | lacking clean first unfit => exact checksFirst_of_lacking clean first unfit grammar
  | passed fit complete => exact checksFirst_of_passed resolved ordered fit complete grammar

/-! ## Parsed trees -/

open Parse

theorem resolved_of_sound {setting : Setting} {source : String}
    (sound : Sound setting source tree) : Resolved setting.schema tree := by
  intro path type extent mem
  cases sound _ mem with
  | identifier resolved spelled => exact ⟨_, resolved, rfl⟩

theorem ordered_of_sound {setting : Setting} {source : String}
    (sound : Sound setting source tree) {name : String} {bindings : Bindings} {type : Descriptor}
    {depth : Nat} {extent : Extent} (mem : .node name bindings type depth extent ∈ tree.subtrees) :
    Dict.Ordered bindings := by
  cases sound _ mem with
  | node known registered compiled fits => exact fits.ordered

/-- What is read at the start of a text or as a whole conforms. -/
theorem sound_of_read {definitions : List Definition} {setting : Setting}
    (built : Grammar.build definitions = .ok setting.grammar) {source : String}
    (read : (∃ rest, atStart setting source = .ok ⟨tree, rest⟩) ∨ whole setting source = .ok tree) :
    Sound setting source tree := by
  obtain ⟨next, gives⟩ := Returns.gives read.symm
  exact sound_of_expression built _ _ _ (tree, next) (Cursor.liesIn_start source) gives

/-- An evaluation of what a parser read checks the data before it calls a rule, whatever the rules
are and whatever the data is. -/
theorem checksFirst_of_read {definitions : List Definition}
    (built : Grammar.build definitions = .ok grammar) {limit : Nat} {source : String}
    (read : (∃ rest, atStart ⟨grammar, schema, limit⟩ source = .ok ⟨tree, rest⟩) ∨
      whole ⟨grammar, schema, limit⟩ source = .ok tree) (evaluator : Grammar) (data : Value) :
    ChecksFirst evaluator schema data tree := by
  have sound : Sound ⟨grammar, schema, limit⟩ source tree := sound_of_read built read
  exact checksFirst (resolved_of_sound sound)
    (fun _ _ _ _ _ mem => ordered_of_sound sound mem) evaluator data

/-- Over data with a price the product calls its rule with the price, which is a number. -/
theorem checksFirst_of_read_sample :
    ∃ schema, Schema.addField [] "price" "number" = .ok schema ∧
      ∃ tree, whole ⟨Standard.table, schema, 8⟩ "price * 2" = .ok tree ∧
        (∀ data, ChecksFirst Standard.table schema data tree) ∧
        ∃ call ∈ (recordedEvaluation Standard.table schema
            (.object [("price", .integer 3)]) tree).2, ∃ path type extent,
          ("left", .tree (.identifier path type extent)) ∈ call.bindings ∧
            ∃ value, Dict.get? call.args "left" = some value ∧ type.admits value = true := by
  have accepted : ((Schema.addField [] "price" "number").toOption.any fun schema =>
      (whole ⟨Standard.table, schema, 8⟩ "price * 2").toOption.any fun tree =>
        (recordedEvaluation Standard.table schema (.object [("price", .integer 3)]) tree).2.any
          fun call => (Tree.treesOf call.bindings).any fun operand =>
            operand.1 == "left" && operand.2.reference?.isSome) = true := by
    decide +kernel
  obtain ⟨schema, added, accepted⟩ := exists_ok_of_any accepted
  obtain ⟨tree, read, accepted⟩ := exists_ok_of_any accepted
  obtain ⟨call, called, accepted⟩ := List.any_eq_true.mp accepted
  obtain ⟨⟨name, operand⟩, known, accepted⟩ := List.any_eq_true.mp accepted
  simp only [Bool.and_eq_true, beq_iff_eq] at accepted
  obtain ⟨rfl, reference⟩ := accepted
  have bound := Tree.mem_treesOf.mp known
  have checks := checksFirst_of_read Standard.grammar_eq (.inr read) Standard.table
  refine ⟨schema, added, tree, read, checks, call, called, ?_⟩
  cases operand with
  | identifier path type extent =>
      exact ⟨path, type, extent, bound, (checks _).described call called _ _ _ _ bound⟩
  | _ => cases reference

end Mixfix.Evaluation
