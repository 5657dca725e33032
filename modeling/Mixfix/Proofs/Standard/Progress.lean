import Mixfix.Proofs.Standard.Preservation
import Mixfix.Proofs.Standard.Reading

/-!
# Progress

Where nothing in a schema is unknown, all kinds that a value of an expression can have are named by
the type of the expression (`Suits`). What a demand accepts is then of a kind that it names
(`strict_suits`), so no rule is given an operand that it cannot take: an evaluation gives a value,
or it fails because of the data, or because of the values that are divided by or compared
(`evaluate_or_expected`).
-/

set_option autoImplicit false

namespace Mixfix.Standard

open Parse Evaluation
open Descriptor (WellFormed Suits sortedUnion)

/-- A well-formed type whose members name their kinds. -/
def IsNamed (type : Descriptor) : Prop :=
  WellFormed type ∧ ∀ member ∈ type.members, member.kindName? ≠ none

/-- A member of a type that is not unknown names its kind. -/
theorem isNamed_of_parts {type : Descriptor} (wellFormed : WellFormed type)
    (known : ∀ part ∈ type.parts, part ≠ .unknown) : IsNamed type := by
  refine ⟨wellFormed, fun member inside => ?_⟩
  have single := (wellFormed.members member inside).1
  have notUnknown := known member (Descriptor.parts_member inside (Descriptor.self_mem_parts member))
  cases member with
  | unknown => exact absurd rfl notUnknown
  | union members => cases single
  | _ => exact Option.some_ne_none _

theorem respected_suits : Respected IsNamed Suits where
  closed := by
    refine closed_members fun value => ?_
    cases value <;> exact Option.some_ne_none _
  admitted := fun good admits => Descriptor.suits_of_admits good.1 admits
  union := fun good known describes =>
    Descriptor.suits_sortedUnion (fun type mem => (good type mem).1) known describes

/-- A value that suits an accepted type is of a kind that the demand names. -/
theorem strict_suits : Strict IsNamed Suits := by
  intro demand type value named suits accepted asks
  obtain ⟨wanted, asked⟩ := Option.isSome_iff_exists.mp asks
  obtain ⟨member, inside, kinds⟩ := suits
  have covers := (Demand.accepts_iff asked named.1).mp (accepted wanted asked) member inside
  obtain ⟨name, kind⟩ := Option.ne_none_iff_exists'.mp (named.2 member inside)
  have same : name = value.kindName := kinds name kind
  exact same ▸ covers name kind

/-- Over a schema without anything unknown, the evaluation of an expression of the standard language
gives a value, or it fails because the data does not fit, because of a division by zero, or because
two values cannot be compared. -/
theorem evaluate_or_expected {grammar : Grammar} (built : Standard.grammar = .ok grammar)
    {schema : Schema} (schemaBuilt : Schema.IsBuilt schema)
    (known : Schema.All (fun type => ∀ part ∈ type.parts, part ≠ .unknown) schema) {limit : Nat}
    {source : String} {tree : Tree} (read : whole ⟨grammar, schema, limit⟩ source = .ok tree)
    (data : Value) :
    (∃ value, evaluate grammar schema data tree = .ok value) ∨
      ∃ failure, evaluate grammar schema data tree = .error failure ∧
        failure.cause.IsExpected := by
  obtain rfl : table = grammar := Except.ok.inj (grammar_eq.symm.trans built)
  obtain ⟨next, written, _⟩ := whole_ok_iff.mp read
  unfold evaluate
  cases unfit : unfit? schema data tree with
  | some failure =>
      refine .inr ⟨failure, rfl, ?_⟩
      unfold unfit? at unfit
      split at unfit
      · obtain ⟨reference, _, rfl⟩ := Option.map_eq_some_iff.mp unfit
        exact .missingData _
      · cases unfit
        exact .dataViolation _
  | none =>
      have types : Schema.All IsNamed schema :=
        Schema.All.and (fun _ => isNamed_of_parts) schemaBuilt.wellFormed known
      have outcome := written.keepsTo respected_suits types (unfit?_eq_none_iff.mp unfit)
      cases result : value table data tree with
      | ok answer => exact .inl ⟨answer, rfl⟩
      | error failure => exact .inr ⟨failure, rfl, outcome.of_error result strict_suits⟩

theorem evaluate_or_expected_quotient :
    ∃ schema, Schema.addField [] "price" "number | string" = .ok schema ∧
      ∃ tree, whole ⟨table, schema, 8⟩ "price < 8 / 0 ?? price" = .ok tree ∧ ∀ data,
        (∃ value, evaluate table schema data tree = .ok value) ∨
          ∃ failure, evaluate table schema data tree = .error failure ∧
            failure.cause.IsExpected := by
  let schema : Schema := [("price", .type (.union [.number, .string]))]
  have added : Schema.addField [] "price" "number | string" = .ok schema := rfl
  refine ⟨schema, added, ?_⟩
  have known : Schema.All (fun type => ∀ part ∈ type.parts, part ≠ .unknown) schema := by
    refine ⟨?_, trivial⟩
    rw [Entry.All]
    rintro part mem rfl
    simp [Descriptor.parts, Descriptor.memberParts, Descriptor.number, Descriptor.string,
      Descriptor.plain] at mem
  have accepted : (whole ⟨table, schema, 8⟩ "price < 8 / 0 ?? price").isOk = true := by
    decide +kernel
  cases ok : whole ⟨table, schema, 8⟩ "price < 8 / 0 ?? price" with
  | error failure =>
      rw [ok] at accepted
      cases accepted
  | ok tree => exact ⟨tree, rfl, evaluate_or_expected grammar_eq (.field .empty added) known ok⟩

end Mixfix.Standard
