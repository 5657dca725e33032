import Mixfix.Proofs.Evaluation.Preconditions
import Mixfix.Proofs.Standard.Inlining
import Mixfix.Proofs.Standard.Preservation

/-!
# Values with a number in place of a field

Where the data has the number that is written in place of a field, an expression has the same value
as before (`evaluate_inlinedText`): a literal has the value that the field had, and a negative
literal that of the opposite of the field.

The exception is a power of the field directly behind a minus (`isOppositePower`). The minus of a
field comes after the power, that of a literal before it, so the value can change its sign
(`not_evaluate_inlinedText`).
-/

set_option autoImplicit false

namespace Mixfix.Standard

open Parse Lexeme Evaluation

/-! ## Computations of the same value -/

/-- Two computations give the same value, or both none. -/
def SameValue {ε α : Type} (first second : Except ε α) : Prop :=
  ∀ value, first = .ok value ↔ second = .ok value

namespace SameValue

variable {ε α β : Type} {first second : Except ε α}

theorem refl (result : Except ε α) : SameValue result result := fun _ => Iff.rfl

theorem symm (same : SameValue first second) : SameValue second first :=
  fun value => (same value).symm

theorem trans {third : Except ε α} (same : SameValue first second)
    (further : SameValue second third) : SameValue first third :=
  fun value => (same value).trans (further value)

theorem bind (same : SameValue first second) {next next' : α → Except ε β}
    (further : ∀ value, SameValue (next value) (next' value)) :
    SameValue (first >>= next) (second >>= next') := by
  intro result
  cases first with
  | ok value =>
      rw [(same value).mp rfl]
      exact further value result
  | error failure =>
      cases second with
      | ok value => cases (same value).mpr rfl
      | error failure' => exact ⟨nofun, nofun⟩

end SameValue

/-- The place of a computation does not matter for its value. -/
theorem sameValue_placed {α : Type} (place place' : Nat) (result : Except EvalCause α) :
    SameValue (placed place result) (placed place' result) := by
  intro value
  cases result with
  | ok result => exact Iff.rfl
  | error cause => exact ⟨nofun, nofun⟩

variable {schema : Schema} {data : Value} {name : String} {n : Int64} {tree tree' : Tree}

theorem sameValue_widen (tree : Tree) (span : Span) :
    SameValue (value table data (tree.widen span)) (value table data tree) := by
  cases tree with
  | literal constant extent => exact .refl _
  | identifier path type extent => exact .refl _
  | node name bindings type depth extent =>
      rw [Tree.widen, value, value]
      exact (sameValue_placed _ _ _).bind fun rule =>
        (SameValue.refl _).bind fun args => sameValue_placed _ _ _

/-! ## Powers behind a minus -/

/-- Whether a tree is a reference to a field that starts at an offset. -/
def isFieldAt (name : String) (start : Nat) : Tree → Bool
  | .identifier path _ extent => path == [name] && extent.core.start == start
  | _ => false

/-- Whether a tree is the opposite of a power of a field, with the minus directly before the
field. -/
def isOppositePower (name : String) (tree : Tree) : Bool :=
  nodeName? tree == some opposition.name && tree.operands.any fun (_, power) =>
    nodeName? power == some exponentiation.name && power.operands.any fun (place, base) =>
      place == "left" && isFieldAt name (tree.extent.core.start + 1) base

theorem isOppositePower_widen (span : Span) :
    isOppositePower name (tree.widen span) = isOppositePower name tree := by
  rw [isOppositePower, isOppositePower, nodeName?_widen, Tree.operands_widen, Tree.extent_widen]

theorem isOppositePower_node (type : Descriptor) (extent : Extent) (right : Tree)
    (last next : Cursor) (start : Nat) :
    isOppositePower name
        (opposition.node (exponentiation.node (.identifier [name] type extent) right last) start
          next) = (extent.core.start == start + 1) := by
  have place : (opposition.node (exponentiation.node (.identifier [name] type extent) right last)
      start next).extent.core.start = start := rfl
  have named : exponentiation.candidate.2.name = exponentiation.name := rfl
  simp [isOppositePower, nodeName?_opener, nodeName?_infixNode, Opener.operands_node,
    Infix.operands_node, isFieldAt, place, named]

/-- No power of a field stands directly behind a minus. -/
def NoOppositePower (name : String) (tree : Tree) : Prop :=
  ∀ inner ∈ tree.subtrees, isOppositePower name inner = false

theorem NoOppositePower.operand (apart : NoOppositePower name tree) {operand : String × Tree}
    (mem : operand ∈ tree.operands) : NoOppositePower name operand.2 :=
  fun inner inside => apart inner (Tree.mem_subtrees.mpr (.inr ⟨operand, mem, inside⟩))

theorem NoOppositePower.widen {span : Span} (apart : NoOppositePower name (tree.widen span)) :
    NoOppositePower name tree := by
  intro inner mem
  rcases Tree.mem_subtrees.mp mem with rfl | ⟨operand, known, inside⟩
  · rw [← isOppositePower_widen span]
    exact apart _ (Tree.self_mem_subtrees _)
  · rw [← Tree.operands_widen tree span] at known
    exact apart.operand known inner inside

/-! ## Values -/

/-- The opposite of a number that is not negative is an integer. -/
theorem opposite_integer (natural : 0 ≤ n) :
    opposite [("operand", .integer n)] = .ok (.integer (-n)) := by
  have read : Args.value [("operand", .integer n)] "operand" = .ok (.integer n) := rfl
  simp [opposite, read, toInt64?_opposite natural, bind, Except.bind]

/-- A number in place of a field with this value leaves the value of the expression as it is. -/
theorem Inlines.sameValue (inlines : Inlines name n tree tree') (natural : 0 ≤ n)
    (held : data.lookup [name] = some (.integer n)) (apart : NoOppositePower name tree) :
    SameValue (value table data tree) (value table data tree') := by
  have read (type : Descriptor) (extent : Extent) :
      value table data (.identifier [name] type extent) = .ok (.integer n) := by
    rw [value, held, Option.getD_some]
  induction inlines with
  | constant constant extent extent' => exact .refl _
  | field type extent extent' differs => exact .refl _
  | replaced extent extent' =>
      rw [read]
      exact .refl _
  | group span span' inside ih =>
      exact (sameValue_widen _ _).trans ((ih apart.widen).trans (sameValue_widen _ _).symm)
  | @opener op operand operand' known start start' next next' inside ih =>
      obtain ⟨rule, found, _⟩ := op.exists_rule known
      rw [Opener.value_node found, Opener.value_node found]
      rw [NoOppositePower] at apart
      exact (ih (NoOppositePower.operand apart List.mem_cons_self)).bind fun value =>
        sameValue_placed _ _ _
  | @between op left left' right right' known next next' first second left_ih right_ih =>
      obtain ⟨rule, found, _⟩ := op.exists_rule known
      rw [Infix.value_node found, Infix.value_node found]
      have here := left_ih (apart.operand List.mem_cons_self)
      have there := right_ih (apart.operand (List.mem_cons_of_mem _ List.mem_cons_self))
      exact here.bind fun first => there.bind fun second => sameValue_placed _ _ _
  | chosen next next' first second third condition_ih positive_ih negative_ih =>
      rw [value_choiceNode, value_choiceNode]
      have condition := condition_ih (apart.operand List.mem_cons_self)
      have negative := negative_ih (apart.operand (List.mem_cons_of_mem _ List.mem_cons_self))
      have positive := positive_ih
        (apart.operand (List.mem_cons_of_mem _ (List.mem_cons_of_mem _ List.mem_cons_self)))
      exact condition.bind fun first => negative.bind fun third => positive.bind fun second =>
        sameValue_placed _ _ _
  | negative start next extent extent' =>
      have found : Evaluation.rule table opposition.production.name = .ok opposite := rfl
      rw [Opener.value_node found, read]
      show SameValue (placed start (applyRule opposite _ [("operand", .integer n)])) _
      rw [applyRule, opposite_integer natural]
      exact .refl _
  | @power right right' start extent next next' last extent' adjacent inside ih =>
      have here := apart _ (Tree.self_mem_subtrees _)
      rw [isOppositePower_node, adjacent, beq_self_eq_true] at here
      cases here

/-! ## Evaluations -/

theorem evaluate_ok_iff {result : Value} :
    evaluate table schema data tree = .ok result ↔
      IsFit schema data tree ∧ value table data tree = .ok result := by
  constructor
  · intro ok
    cases unfit : unfit? schema data tree with
    | none =>
        have fit := unfit?_eq_none_iff.mp unfit
        rw [evaluate_of_isFit fit] at ok
        exact ⟨fit, ok⟩
    | some failure =>
        rw [evaluate_of_unfit? unfit] at ok
        cases ok
  · rintro ⟨fit, ok⟩
    rw [evaluate_of_isFit fit, ok]

/-- Data that has the field is fit for both expressions or for none. -/
theorem Inlines.isFit_iff (inlines : Inlines name n tree tree')
    (held : data.lookup [name] = some (.integer n)) :
    IsFit schema data tree ↔ IsFit schema data tree' := by
  constructor
  · intro fit
    exact ⟨fit.clean, fun path mem => fit.complete path (inlines.mem_paths_iff.mp mem).1⟩
  · intro fit
    refine ⟨fit.clean, fun path mem => ?_⟩
    by_cases same : path = [name]
    · rw [same, held]
      exact .inl rfl
    · exact fit.complete path (inlines.mem_paths_iff.mpr ⟨mem, same⟩)

/-- **Values in place of fields.** A text that is an expression stays one when the digits of a number
are written in place of a field of the type `number`. Over data where the field has this number it
evaluates to the same value, unless the field is the base of a power and stands directly behind a
minus, which then becomes part of the base. -/
theorem evaluate_inlinedText {grammar : Grammar} (built : Standard.grammar = .ok grammar)
    (field : schema.resolve [name] = some (.type .number)) {limit : Nat} {source : String}
    (ok : whole ⟨grammar, schema, limit⟩ source = .ok tree) (natural : 0 ≤ n)
    (held : data.lookup [name] = some (.integer n)) :
    ∃ tree', whole ⟨grammar, schema, limit⟩ (inlinedText name n source) = .ok tree' ∧
      (NoOppositePower name tree → ∀ result, evaluate grammar schema data tree = .ok result ↔
        evaluate grammar schema data tree' = .ok result) := by
  obtain rfl : table = grammar := Except.ok.inj (grammar_eq.symm.trans built)
  obtain ⟨tree', ok', inlines⟩ := exists_whole_inlinedText natural field ok
  refine ⟨tree', ok', fun apart result => ?_⟩
  rw [evaluate_ok_iff, evaluate_ok_iff, inlines.isFit_iff held,
    inlines.sameValue natural held apart result]

/-- A schema with a number. -/
def measured : Schema := [("x", .type .number)]

/-- Data with a five. -/
def measuredFive : Value := .object [("x", .integer 5)]

theorem evaluate_inlinedText_five : ∃ tree tree',
    whole ⟨table, measured, 8⟩ "-x * 2 - x ** 2" = .ok tree ∧
      whole ⟨table, measured, 8⟩ "-5 * 2 - 5 ** 2" = .ok tree' ∧
      ∀ result, evaluate table measured measuredFive tree = .ok result ↔
        evaluate table measured measuredFive tree' = .ok result := by
  have accepted : ((whole ⟨table, measured, 8⟩ "-x * 2 - x ** 2").toOption.any fun tree =>
      tree.subtrees.all fun inner => !isOppositePower "x" inner) = true := by
    decide +kernel
  have text : inlinedText "x" 5 "-x * 2 - x ** 2" = "-5 * 2 - 5 ** 2" := by decide +kernel
  obtain ⟨tree, ok, none⟩ := exists_ok_of_any accepted
  have apart : NoOppositePower "x" tree := by
    intro inner mem
    simpa using List.all_eq_true.mp none inner mem
  obtain ⟨tree', ok', same⟩ := evaluate_inlinedText grammar_eq (rfl : measured.resolve ["x"] = _)
    ok (by decide : (0 : Int64) ≤ 5) (rfl : measuredFive.lookup ["x"] = _)
  rw [text] at ok'
  exact ⟨tree, tree', ok, ok', same apart⟩

/-- A power of a field has the opposite sign with the minus before it than a power of the negative
number that is written there. -/
theorem not_evaluate_inlinedText :
    ¬ ∀ (schema : Schema) (name : String), schema.resolve [name] = some (.type .number) →
      ∀ (limit : Nat) (source : String) (tree : Tree),
        whole ⟨table, schema, limit⟩ source = .ok tree → ∀ (n : Int64), 0 ≤ n →
        ∀ data : Value, data.lookup [name] = some (.integer n) →
        ∃ tree', whole ⟨table, schema, limit⟩ (inlinedText name n source) = .ok tree' ∧
          ∀ result, evaluate table schema data tree = .ok result →
            evaluate table schema data tree' = .ok result := by
  intro same
  have powers : ((whole ⟨table, measured, 8⟩ "-x ** 2").toOption.any fun tree =>
      (whole ⟨table, measured, 8⟩ (inlinedText "x" 5 "-x ** 2")).toOption.any fun tree' =>
        tree.paths == [["x"]] && (value table measuredFive tree).toOption.any fun before =>
          (value table measuredFive tree').toOption.any fun after =>
            before.identical (.integer (-25)) && !after.identical (.integer (-25))) = true := by
    decide +kernel
  have clean : measured.violations measuredFive = [] := by decide +kernel
  obtain ⟨tree, ok, powers⟩ := exists_ok_of_any powers
  obtain ⟨tree', ok', powers⟩ := exists_ok_of_any powers
  obtain ⟨reads, values⟩ := Bool.and_eq_true_iff.mp powers
  obtain ⟨before, negative, values⟩ := exists_ok_of_any values
  obtain ⟨after, positive, differ⟩ := exists_ok_of_any values
  have fit : IsFit measured measuredFive tree := by
    refine ⟨clean, fun path mem => ?_⟩
    rw [beq_iff_eq.mp reads, List.mem_singleton] at mem
    subst mem
    exact .inl rfl
  obtain ⟨inlined, accepted, keeps⟩ :=
    same measured "x" rfl 8 _ tree ok 5 (by decide) measuredFive rfl
  obtain rfl : tree' = inlined := Except.ok.inj (ok'.symm.trans accepted)
  have kept := (evaluate_ok_iff.mp (keeps _ (evaluate_ok_iff.mpr ⟨fit, negative⟩))).2
  obtain rfl : after = before := Except.ok.inj (positive.symm.trans kept)
  simp at differ

end Mixfix.Standard
