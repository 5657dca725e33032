import Mixfix.Proofs.Schema.Fitness
import Mixfix.Proofs.Schema.Order

/-!
# Violations and paths

Three walks go down a schema by names: validation visits all fields, `resolve` follows one path in
the schema, and `lookup` follows it in the data. They agree. A path is reported if it resolves and
leads to a value that the field at its end does not describe (`Schema.Reports`). The violations of
an object are those of the reported paths: one for each path, in the order in which the schema lists
its fields (`Schema.violations_match_paths`).

The order of the schema is that of its paths, compared name by name: a field comes before what is
below it, and what is below it comes before the fields of greater names. So an ascending list of
paths is in the order of the visit, and `Schema.Accounts` asks this of the paths of a list of
violations. The names of the schema have to ascend at every depth for it (`Schema.Ordered`).
-/

set_option autoImplicit false

namespace Mixfix

/-! ## Reports -/

namespace Entry

/-- How a violation of a field names its place; an object without a name is the data as a whole. -/
def placed : Entry → String → String
  | .type _, place => place
  | .nested _, place => if place.isEmpty then "$" else place

/-- What is said about the value of a field at a place. -/
def violation (entry : Entry) (place : String) (value : Value) : Violation :=
  ⟨entry.placed place, entry.descriptor.text, value.brief⟩

/-- A violation is what is to be said about a path from a field at a place: the path leads to a value
that the field at its end does not describe. -/
def Reports (entry : Entry) (start : String) (value : Value) (path : List String)
    (violation : Violation) : Prop :=
  ∃ last found, entry.follow path = some last ∧ value.lookup path = some found ∧
    last.descriptor.admits found = false ∧
    violation = last.violation (path.foldl Schema.below start) found

end Entry

namespace Schema

variable {schema : Schema} {data : Value}

/-- A violation is what is to be said about a path of a schema: the path leads to a value that the
field at its end does not describe. -/
def Reports (schema : Schema) (data : Value) (path : List String) (violation : Violation) : Prop :=
  ∃ entry value, schema.resolve path = some entry ∧ data.lookup path = some value ∧
    entry.descriptor.admits value = false ∧
    violation = entry.violation (path.foldl below "") value

/-- Violations are those of all paths that have one, each path once, in the order of the paths. -/
def Accounts (reports : List String → Violation → Prop) (violations : List Violation) : Prop :=
  ∃ reported : List (List String × Violation), (reported.map Prod.fst).Pairwise (· < ·) ∧
    reported.map Prod.snd = violations ∧
    ∀ path violation, (path, violation) ∈ reported ↔ reports path violation

namespace Accounts

variable {reports others : List String → Violation → Prop} {violations further : List Violation}

/-- Where nothing is to be said, there is no violation. -/
theorem nil (silent : ∀ path violation, ¬ reports path violation) : Accounts reports [] := by
  refine ⟨[], List.Pairwise.nil, rfl, ?_⟩
  intro path violation
  simp [silent path violation]

/-- Where only the field itself can be wrong, its violation is the only one. -/
theorem singleton {violation : Violation}
    (only : ∀ path other, reports path other ↔ path = [] ∧ other = violation) :
    Accounts reports [violation] := by
  refine ⟨[([], violation)], List.pairwise_singleton _ _, rfl, ?_⟩
  intro path other
  rw [List.mem_singleton, Prod.mk.injEq, only]

theorem congr (same : ∀ path violation, others path violation ↔ reports path violation)
    (accounts : Accounts reports violations) : Accounts others violations := by
  obtain ⟨reported, ascending, listed, complete⟩ := accounts
  refine ⟨reported, ascending, listed, ?_⟩
  intro path violation
  rw [complete, same]

/-- The violations below a name come before those below greater names. -/
theorem append {name : String} (accounts : Accounts reports violations)
    (accountsLater : Accounts others further)
    (later : ∀ path violation, others path violation →
      ∃ other rest, path = other :: rest ∧ name < other) :
    Accounts
      (fun path violation =>
        (∃ rest, path = name :: rest ∧ reports rest violation) ∨ others path violation)
      (violations ++ further) := by
  obtain ⟨reported, ascending, rfl, complete⟩ := accounts
  obtain ⟨reportedLater, ascendingLater, rfl, completeLater⟩ := accountsLater
  refine ⟨reported.map (fun report => (name :: report.1, report.2)) ++ reportedLater, ?_, ?_, ?_⟩
  · rw [List.map_append, List.map_map, List.pairwise_append]
    refine ⟨?_, ascendingLater, ?_⟩
    · rw [List.pairwise_map] at ascending ⊢
      refine ascending.imp ?_
      intro first second less
      exact List.cons_lt_cons_iff.mpr (.inr ⟨rfl, less⟩)
    · intro path mem other memLater
      obtain ⟨first, _, rfl⟩ := List.mem_map.mp mem
      obtain ⟨⟨_, violation⟩, second, rfl⟩ := List.mem_map.mp memLater
      obtain ⟨key, rest, rfl, greater⟩ := later _ _ ((completeLater _ _).mp second)
      exact List.cons_lt_cons_iff.mpr (.inl greater)
  · simp [Function.comp_def]
  · intro path violation
    rw [List.mem_append, completeLater]
    refine or_congr_left ?_
    constructor
    · intro mem
      obtain ⟨⟨rest, _⟩, here, same⟩ := List.mem_map.mp mem
      cases same
      exact ⟨rest, rfl, (complete _ _).mp here⟩
    · rintro ⟨rest, rfl, reports⟩
      exact List.mem_map.mpr ⟨(rest, violation), (complete _ _).mpr reports, rfl⟩

end Accounts

/-! ## Validation accounts for all paths -/

/-- A violation is what is to be said about a path from the fields of an object. -/
def FieldReports (fields : List (String × Entry)) (start : String) (data : List (String × Value))
    (path : List String) (violation : Violation) : Prop :=
  ∃ name rest entry value, path = name :: rest ∧ (name, entry) ∈ fields ∧
    Dict.get? data name = some value ∧ entry.Reports (below start name) value rest violation

/-- What is to be said about an object is what is to be said about its fields. -/
theorem reports_object {fields : Schema} (ordered : Dict.Ordered fields) {start : String}
    {data : List (String × Value)} {path : List String} {violation : Violation} :
    (Entry.nested fields).Reports start (.object data) path violation ↔
      FieldReports fields start data path violation := by
  cases path with
  | nil =>
      constructor
      · rintro ⟨last, found, followed, there, refused, -⟩
        cases followed
        cases there
        cases refused
      · rintro ⟨name, rest, entry, value, same, -⟩
        cases same
  | cons name rest =>
      constructor
      · rintro ⟨last, found, followed, there, refused, said⟩
        rw [Entry.follow] at followed
        rw [Value.lookup, Value.field?] at there
        split at followed
        · next entry field =>
            split at there
            · next value inside =>
                refine ⟨name, rest, entry, value, rfl, ?_, inside, last, found, followed, there,
                  refused, said⟩
                exact (Dict.get?_eq_some_iff ordered.nodup).mp field
            · cases there
        · cases followed
      · rintro ⟨_, _, entry, value, same, field, inside, last, found, followed, there, refused, said⟩
        cases same
        refine ⟨last, found, ?_, ?_, refused, said⟩
        · rw [Entry.follow, (Dict.get?_eq_some_iff ordered.nodup).mpr field]
          exact followed
        · rw [Value.lookup, Value.field?, inside]
          exact there

/-- Where no path leads further, only the field itself can be reported. -/
theorem reports_end {entry : Entry} {start : String} {value : Value}
    (refused : entry.descriptor.admits value = false)
    (ends : ∀ name rest, entry.follow (name :: rest) = none ∨ value.lookup (name :: rest) = none)
    (path : List String) (violation : Violation) :
    entry.Reports start value path violation ↔
      path = [] ∧ violation = entry.violation start value := by
  constructor
  · rintro ⟨last, found, followed, there, -, said⟩
    cases path with
    | nil =>
        cases followed
        cases there
        exact ⟨rfl, said⟩
    | cons name rest =>
        rcases ends name rest with nowhere | nothing
        · cases nowhere.symm.trans followed
        · cases nothing.symm.trans there
  · rintro ⟨rfl, rfl⟩
    exact ⟨entry, value, rfl, rfl, refused, rfl⟩

/-- What is to be said about fields is said about the first of them or about the others. -/
theorem fieldReports_cons {name : String} {entry : Entry} {fields : List (String × Entry)}
    {start : String} {data : List (String × Value)} {path : List String} {violation : Violation} :
    FieldReports ((name, entry) :: fields) start data path violation ↔
      (∃ rest, path = name :: rest ∧ ∃ value, Dict.get? data name = some value ∧
        entry.Reports (below start name) value rest violation) ∨
      FieldReports fields start data path violation := by
  constructor
  · rintro ⟨key, rest, first, value, same, mem, there, said⟩
    rcases List.mem_cons.mp mem with head | tail
    · cases head
      exact .inl ⟨rest, same, value, there, said⟩
    · exact .inr ⟨key, rest, first, value, same, tail, there, said⟩
  · rintro (⟨rest, same, value, there, said⟩ | ⟨key, rest, first, value, same, mem, there, said⟩)
    · exact ⟨name, rest, entry, value, same, List.mem_cons_self, there, said⟩
    · exact ⟨key, rest, first, value, same, List.mem_cons_of_mem _ mem, there, said⟩

mutual
/-- The violations of a field account for the paths from it. -/
theorem accounts_entry (start : String) : (entry : Entry) → entry.Ordered → (value : Value) →
    Accounts (entry.Reports start value) (entryViolations start entry value)
  | .type descriptor, _, value => by
    by_cases admitted : descriptor.admits value = true
    · rw [entryViolations, if_pos admitted]
      refine Accounts.nil ?_
      rintro path violation ⟨last, found, followed, there, refused, -⟩
      cases path with
      | nil =>
          cases followed
          cases there
          cases admitted.symm.trans refused
      | cons name rest => cases followed
    · rw [entryViolations, if_neg admitted]
      exact Accounts.singleton
        (reports_end (eq_false_of_ne_true admitted) fun name rest => .inl rfl)
  | .nested fields, ordered, value => by
    rw [Entry.Ordered] at ordered
    cases value with
    | object data =>
        rw [entryViolations]
        exact Accounts.congr (fun path violation => reports_object ordered.1)
          (accounts_fields start fields ordered.1 ordered.2 data)
    | _ => exact Accounts.singleton (reports_end rfl fun name rest => .inr rfl)
/-- The violations of the fields of an object account for the paths from them. -/
theorem accounts_fields (start : String) : (fields : List (String × Entry)) →
    Dict.Ordered fields → Inside fields → (data : List (String × Value)) →
    Accounts (FieldReports fields start data) (fieldViolations start fields data)
  | [], _, _, data => by
    refine Accounts.nil ?_
    rintro path violation ⟨name, rest, entry, value, -, mem, -⟩
    cases mem
  | (name, entry) :: fields, ordered, inside, data => by
    obtain ⟨above, tail⟩ := List.pairwise_cons.mp ordered
    rw [Inside] at inside
    have others := accounts_fields start fields tail inside.2 data
    rw [fieldViolations]
    cases there : Dict.get? data name with
    | none =>
        refine others.congr ?_
        intro path violation
        rw [fieldReports_cons, or_iff_right]
        rintro ⟨rest, -, value, present, -⟩
        cases there.symm.trans present
    | some value =>
        have first := accounts_entry (below start name) entry inside.1 value
        have later : ∀ path violation, FieldReports fields start data path violation →
            ∃ other rest, path = other :: rest ∧ name < other := by
          rintro path violation ⟨other, rest, _, _, same, mem, -⟩
          exact ⟨other, rest, same, above other (List.mem_map_of_mem mem)⟩
        refine (first.append others later).congr ?_
        intro path violation
        simp [fieldReports_cons, there]
end

/-- Paths of names lead from a schema to where they lead from a field with its fields. -/
theorem follow_nested {path : List String} (inside : path ≠ []) :
    (Entry.nested schema).follow path = schema.resolve path := by
  cases path with
  | nil => exact absurd rfl inside
  | cons name path =>
      rw [Entry.follow, resolve]
      cases Dict.get? schema name <;> rfl

/-- In an object, what is to be said about a path of a schema is said about the path from a field
with its fields. -/
theorem reports_nested {fields : List (String × Value)} {path : List String}
    {violation : Violation} : schema.Reports (.object fields) path violation ↔
      (Entry.nested schema).Reports "" (.object fields) path violation := by
  cases path with
  | nil =>
      constructor
      · rintro ⟨entry, value, resolved, -⟩
        cases resolved
      · rintro ⟨last, found, followed, there, refused, -⟩
        cases followed
        cases there
        cases refused
  | cons name path =>
      rw [Reports, Entry.Reports, follow_nested (List.cons_ne_nil name path)]

/-- The violations of an object account for the paths of the schema. -/
theorem accounts_violations (ordered : schema.Ordered) (fields : List (String × Value)) :
    Accounts (schema.Reports (.object fields)) (schema.violations (.object fields)) :=
  (accounts_entry "" (.nested schema) ordered (.object fields)).congr
    fun _ _ => reports_nested

/-- Data without violations is an object; other data is a violation as a whole. -/
theorem object_of_violations (none : schema.violations data = []) :
    ∃ fields, data = .object fields := by
  cases data with
  | object fields => exact ⟨fields, rfl⟩
  | _ => cases none

/-- The violations are what is to be said about the paths. -/
theorem Accounts.mem_iff {reports : List String → Violation → Prop} {violations : List Violation}
    (accounts : Accounts reports violations) {violation : Violation} :
    violation ∈ violations ↔ ∃ path, reports path violation := by
  obtain ⟨reported, -, rfl, complete⟩ := accounts
  simp only [List.mem_map, Prod.exists, exists_eq_right, complete]

/-- There is no violation exactly if nothing is to be said about any path. -/
theorem Accounts.eq_nil_iff {reports : List String → Violation → Prop}
    {violations : List Violation} (accounts : Accounts reports violations) :
    violations = [] ↔ ∀ path violation, ¬ reports path violation := by
  simp only [List.eq_nil_iff_forall_not_mem, accounts.mem_iff, not_exists]
  exact forall_comm

/-- **Validation agrees with the paths.** Data has no violation exactly if it is an object in which
every path of the schema leads to nothing or to a value that the field at its end describes. And the
violations of an object are those of the paths with another value, each path once, in the order of
the schema. -/
theorem violations_match_paths (ordered : schema.Ordered) (data : Value) :
    (schema.violations data = [] ↔ (∃ fields, data = .object fields) ∧
      ∀ path entry value, schema.resolve path = some entry → data.lookup path = some value →
        entry.descriptor.admits value = true) ∧
    ∀ fields, data = .object fields → Accounts (schema.Reports data) (schema.violations data) := by
  refine ⟨⟨?_, ?_⟩, ?_⟩
  · intro none
    refine ⟨object_of_violations none, ?_⟩
    intro path entry value resolved there
    exact admits_of_lookup none resolved there
  · rintro ⟨⟨fields, rfl⟩, admitted⟩
    refine (accounts_violations ordered fields).eq_nil_iff.mpr ?_
    rintro path violation ⟨entry, value, resolved, there, refused, -⟩
    cases (admitted path entry value resolved there).symm.trans refused
  · rintro fields rfl
    exact accounts_violations ordered fields

/-- A schema with an object in it. -/
def sampleFields : Schema :=
  [("age", .type .number),
   ("home", .nested [("city", .type .string), ("number", .type .number)])]

/-- Data in which the age and the city are of a wrong kind. -/
def sampleData : Value :=
  .object [("age", .string "old"), ("home", .object [("city", .integer 3), ("number", .integer 7)])]

/-- Two paths of the sample lead to values of a wrong kind, one of them inside of an object. -/
theorem violations_match_paths_sample : sampleFields.Ordered ∧
    Accounts (sampleFields.Reports sampleData)
      [⟨"age", "number", "\"old\""⟩, ⟨"home.city", "string", "3"⟩] := by
  have ordered : sampleFields.Ordered := by
    simp only [sampleFields, ordered_iff, Inside, Entry.Ordered, Dict.Ordered, Dict.names]
    decide
  refine ⟨ordered, ?_⟩
  have listed : sampleFields.violations sampleData =
      [⟨"age", "number", "\"old\""⟩, ⟨"home.city", "string", "3"⟩] := by
    decide +kernel
  have accounts := (violations_match_paths ordered sampleData).2 _ rfl
  rwa [listed] at accounts

end Schema

end Mixfix
