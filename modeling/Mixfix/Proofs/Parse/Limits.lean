import Mixfix.Proofs.Grammar.Checks
import Mixfix.Proofs.Parse.Correspondence

/-!
# Higher limits

How deep expressions may be nested decides between an answer and the failure that they are nested too
deep, and nothing else: an answer under some limit is the answer under every higher one. No
alternative is tried after this failure, so a lower limit does not lead to another tree, nor to
another failure.
-/

set_option autoImplicit false

namespace Mixfix.Parse

/-- Nothing is asked of the trail. -/
def TrailInvariant.indifferent : TrailInvariant where
  Going _ := True
  Met _ _ := True
  Reported _ _ := True
  met_see _ := trivial
  met_of_reported _ := trivial
  reported_choose _ := trivial
  going_record _ _ := trivial

variable {grammar : Grammar} {schema : Schema} {low high : Nat}

/-- A parse goes too deep, or does the same under every higher limit. -/
theorem failsDeep_or_run_eq (le : low ≤ high) (source : String) :
    FailsDeep (run ⟨grammar, schema, low⟩ source).1 ∨
      run ⟨grammar, schema, low⟩ source = run ⟨grammar, schema, high⟩ source := by
  have corresponds : CorrespondOperands .indifferent (expression ⟨grammar, schema, low⟩ low)
      (expression ⟨grammar, schema, high⟩ high) := corresponds_expression le le
  exact (corresponds .loosest (.start source) .empty trivial).imp_right And.left

/-- A higher limit changes no answer, be it a tree or a failure, other than that expressions are
nested too deep: neither of an expression at the start of a text nor of a text as a whole. -/
theorem answers_of_le (le : low ≤ high) (source : String) :
    (FailsDeep (atStart ⟨grammar, schema, low⟩ source) ∨
      atStart ⟨grammar, schema, low⟩ source = atStart ⟨grammar, schema, high⟩ source) ∧
    (FailsDeep (whole ⟨grammar, schema, low⟩ source) ∨
      whole ⟨grammar, schema, low⟩ source = whole ⟨grammar, schema, high⟩ source) := by
  have ran : FailsDeep (run ⟨grammar, schema, low⟩ source).1 ∨
      run ⟨grammar, schema, low⟩ source = run ⟨grammar, schema, high⟩ source :=
    failsDeep_or_run_eq le source
  unfold atStart whole
  rcases ran with deep | same
  · generalize run ⟨grammar, schema, low⟩ source = outcome at deep ⊢
    obtain ⟨failure | parsed, trail⟩ := outcome
    · exact ⟨.inl deep, .inl deep⟩
    · cases deep
  · rw [same]
    exact ⟨.inr rfl, .inr rfl⟩

theorem answers_of_le_nested :
    ∃ grammar, Grammar.build Grammar.sampleDefinitions = .ok grammar ∧
      FailsDeep (whole ⟨grammar, [], 2⟩ "1 + ((2) + 3)") ∧
      whole ⟨grammar, [], 4⟩ "1 + ((2) + 3)" = whole ⟨grammar, [], 9⟩ "1 + ((2) + 3)" := by
  have kinds : (match Grammar.build Grammar.sampleDefinitions with
      | .ok grammar =>
        match whole ⟨grammar, [], 2⟩ "1 + ((2) + 3)", whole ⟨grammar, [], 4⟩ "1 + ((2) + 3)" with
        | .error failure, .ok _ => failure.kind == .nestingTooDeep
        | _, _ => false
      | .error _ => false) = true := by
    decide +kernel
  split at kinds
  · next grammar built =>
      refine ⟨grammar, built, ?_⟩
      split at kinds
      · next failure tree deep shallow =>
          have answers : FailsDeep (whole ⟨grammar, [], 4⟩ "1 + ((2) + 3)") ∨
              whole ⟨grammar, [], 4⟩ "1 + ((2) + 3)" = whole ⟨grammar, [], 9⟩ "1 + ((2) + 3)" :=
            (answers_of_le (by decide) _).2
          rw [deep]
          rw [shallow] at answers ⊢
          exact ⟨beq_iff_eq.mp kinds, answers.resolve_left False.elim⟩
      · cases kinds
  · cases kinds

end Mixfix.Parse
