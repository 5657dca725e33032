import Mixfix.Evaluation
import Mixfix.Proofs.Schema.Built
import Mixfix.Proofs.Tree.Subtrees

/-!
# Data that is fit

Data without violations has at the end of a path that the schema resolves either nothing or a value
that the field describes (`admits_of_lookup`). Data is fit for an expression if moreover nothing is
missing that the expression reads (`unfit?_eq_none_iff`), and then every reference has a value of
the type of its field (`IsFit.admits`), whether the field is there or may be absent.

Data that is fit for an expression is fit for every part of it (`IsFit.of_subtree`).
-/

set_option autoImplicit false

namespace Mixfix

/-! ## References -/

namespace Tree

/-- The paths of the fields that an expression reads. -/
def paths (tree : Tree) : List (List String) := tree.references.map Prod.fst

@[simp]
theorem paths_widen (tree : Tree) (span : Span) : (tree.widen span).paths = tree.paths := by
  cases tree <;> rfl

theorem mem_bindingReferences {reference : List String × Span}
    {bindings : List (String × Binding)} :
    reference ∈ bindingReferences bindings ↔
      ∃ operand ∈ treesOf bindings, reference ∈ operand.2.references := by
  induction bindings with
  | nil => simp [bindingReferences, treesOf]
  | cons binding bindings ih =>
      obtain ⟨name, tree | value⟩ := binding
      · simp [bindingReferences, treesOf, ih]
      · simp [bindingReferences, treesOf, ih]

/-- A tree reads what is read inside of it. -/
theorem paths_subtree {inner : Tree} (tree : Tree) (inside : inner ∈ tree.subtrees) :
    inner.paths ⊆ tree.paths :=
  List.map_subset _ (references_subset tree inside)

/-- A node reads what its operands read. -/
theorem paths_operand {tree : Tree} {operand : String × Tree} (known : operand ∈ tree.operands) :
    operand.2.paths ⊆ tree.paths :=
  paths_subtree tree (mem_subtrees.mpr (.inr ⟨operand, known, self_mem_subtrees _⟩))

end Tree

/-! ## Violations -/

namespace Schema

variable {schema : Schema} {data : Value}

/-- The value of a field without violations has none itself. -/
theorem entryViolations_of_field {path name : String} {fields : List (String × Entry)}
    {data : List (String × Value)} {entry : Entry} {value : Value}
    (none : fieldViolations path fields data = []) (field : Dict.get? fields name = some entry)
    (there : Dict.get? data name = some value) :
    entryViolations (below path name) entry value = [] := by
  induction fields with
  | nil => cases field
  | cons head rest ih =>
      obtain ⟨key, first⟩ := head
      rw [fieldViolations] at none
      rw [Dict.get?_cons] at field
      by_cases same : name = key
      · subst same
        rw [if_pos rfl] at field
        cases field
        rw [there] at none
        exact (List.append_eq_nil_iff.mp none).1
      · rw [if_neg same] at field
        cases other : Dict.get? data key with
        | none =>
            rw [other] at none
            exact ih none field
        | some value =>
            rw [other] at none
            exact ih (List.append_eq_nil_iff.mp none).2 field

theorem entryViolations_of_lookup {path : List String} {entry found : Entry} {start : String}
    {value inner : Value} (none : entryViolations start entry value = [])
    (followed : entry.follow path = some found) (there : value.lookup path = some inner) :
    ∃ place, entryViolations place found inner = [] := by
  induction path generalizing entry value start with
  | nil =>
      simp only [Entry.follow, Option.some.injEq] at followed
      simp only [Value.lookup, Option.some.injEq] at there
      exact ⟨start, followed ▸ there ▸ none⟩
  | cons name path ih =>
      cases entry with
      | type descriptor => cases followed
      | nested fields =>
          simp only [Entry.follow] at followed
          simp only [Value.lookup] at there
          split at followed
          · next entry field =>
              split at there
              · next first inside =>
                  cases value with
                  | object data =>
                      rw [entryViolations] at none
                      exact ih (entryViolations_of_field none field inside) followed there
                  | _ => cases inside
              · cases there
          · cases followed

/-- A value without violations is described by its field. -/
theorem admits_of_entryViolations {place : String} {entry : Entry} {value : Value}
    (none : entryViolations place entry value = []) : entry.descriptor.admits value = true := by
  cases entry with
  | type descriptor =>
      rw [entryViolations] at none
      by_cases admitted : descriptor.admits value = true
      · exact admitted
      · rw [if_neg admitted] at none
        cases none
  | nested fields =>
      cases value with
      | object data => rfl
      | _ => cases none

/-- In data without violations a path leads to a value that the field at its end describes. -/
theorem admits_of_lookup (none : schema.violations data = []) {path : List String} {entry : Entry}
    {value : Value} (resolved : schema.resolve path = some entry)
    (there : data.lookup path = some value) : entry.descriptor.admits value = true := by
  have followed : (Entry.nested schema).follow path = some entry := by
    cases path with
    | nil => cases resolved
    | cons name path =>
        rw [resolve, Option.bind_eq_some_iff] at resolved
        obtain ⟨first, field, followed⟩ := resolved
        rw [Entry.follow, field]
        exact followed
  obtain ⟨place, last⟩ := entryViolations_of_lookup none followed there
  exact admits_of_entryViolations last

end Schema

/-! ## Fitness -/

namespace Evaluation

variable {schema : Schema} {data : Value} {tree : Tree}

/-- Data is as the schema says and has all that an expression reads. -/
structure IsFit (schema : Schema) (data : Value) (tree : Tree) : Prop where
  clean : schema.violations data = []
  complete : ∀ path ∈ tree.paths,
    (data.lookup path).isSome = true ∨ mayBeAbsent schema path = true

theorem unfit?_eq_none_iff : unfit? schema data tree = none ↔ IsFit schema data tree := by
  have found : firstMissing schema data tree = none ↔ ∀ path ∈ tree.paths,
      (data.lookup path).isSome = true ∨ mayBeAbsent schema path = true := by
    simp only [firstMissing, List.find?_eq_none, Tree.identifiers, List.mem_mergeSort, Tree.paths,
      List.mem_map, Bool.and_eq_true, not_and]
    constructor
    · rintro nothing _ ⟨reference, mem, rfl⟩
      have covered := nothing reference mem
      cases there : data.lookup reference.1 with
      | some value => exact .inl rfl
      | none => exact .inr (by simpa [there] using covered)
    · intro covered reference mem missing
      rcases covered reference.1 ⟨reference, mem, rfl⟩ with there | absent
      · rw [Option.isNone_iff_eq_none] at missing
        rw [missing] at there
        cases there
      · simp [absent]
  unfold unfit?
  split
  · next clean =>
      rw [Option.map_eq_none_iff, found]
      exact ⟨fun complete => ⟨clean, complete⟩, fun fit => fit.complete⟩
  · next violated =>
      constructor
      · intro none
        cases none
      · intro fit
        exact absurd fit.clean violated

/-- Data that is fit for an expression is fit for what reads no more. -/
theorem IsFit.of_paths {inner : Tree} (fit : IsFit schema data tree)
    (fewer : inner.paths ⊆ tree.paths) : IsFit schema data inner :=
  ⟨fit.clean, fun path mem => fit.complete path (fewer mem)⟩

theorem IsFit.of_operand {name : String} {operand : Tree} (fit : IsFit schema data tree)
    (known : (name, operand) ∈ tree.operands) : IsFit schema data operand :=
  fit.of_paths (Tree.paths_operand known)

theorem IsFit.of_subtree {inner : Tree} (fit : IsFit schema data tree)
    (inside : inner ∈ tree.subtrees) : IsFit schema data inner :=
  fit.of_paths (Tree.paths_subtree tree inside)

/-- The value of a reference is described by its field. -/
theorem IsFit.admits (fit : IsFit schema data tree) {path : List String} {entry : Entry}
    (reads : path ∈ tree.paths) (resolved : schema.resolve path = some entry) :
    entry.descriptor.admits ((data.lookup path).getD .undefined) = true := by
  cases there : data.lookup path with
  | some value => exact Schema.admits_of_lookup fit.clean resolved there
  | none =>
      rcases fit.complete path reads with present | absent
      · rw [there] at present
        cases present
      · rwa [mayBeAbsent, resolved, Option.any_some] at absent

end Evaluation

end Mixfix
