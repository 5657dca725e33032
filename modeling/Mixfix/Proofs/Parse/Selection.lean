import Mixfix.Proofs.Grammar.Checks
import Mixfix.Proofs.Parse.Correspondence

/-!
# The failure that is reported

When a parse fails, the failure to report is chosen among all those that it met. It is one that lies
farthest. Of several that lie there a recorded one is not preferred to one that comes later, even if
it tells more: where an alternative that was given up and the rest of the text fail at the same place,
the latter is reported (`not_unbeaten_of_atStart`). This is the only way in which the reported failure
can be outranked (`farthest_of_atStart`).

The trail keeps, at any time, a failure that no failure so far outranks, as soon as the parse goes on.
While a failure is on its way out it need not be recorded, but then the others that were seen are
outranked by none of the two.
-/

set_option autoImplicit false

namespace Mixfix

namespace Failure

variable {failure other another : Failure}

/-- A failure is better to report if it lies farther, or at the same place and tells more. -/
theorem outranks_iff : failure.outranks other = true ↔
    other.offset < failure.offset ∨
      failure.offset = other.offset ∧ other.kind.specificity < failure.kind.specificity := by
  simp only [outranks, Bool.or_eq_true, decide_eq_true_eq, Bool.and_eq_true, beq_iff_eq]

theorem outranks_eq_false : failure.outranks other = false ↔
    failure.offset < other.offset ∨
      failure.offset = other.offset ∧ failure.kind.specificity ≤ other.kind.specificity := by
  rw [← Bool.not_eq_true, outranks_iff]
  omega

theorem outranks_irrefl : failure.outranks failure = false :=
  outranks_eq_false.mpr (.inr ⟨rfl, Nat.le_refl _⟩)

theorem outranks_trans (first : failure.outranks other = false)
    (second : other.outranks another = false) : failure.outranks another = false := by
  rw [outranks_eq_false] at first second ⊢
  omega

theorem outranks_asymm (outranks : failure.outranks other = true) :
    other.outranks failure = false := by
  rw [outranks_iff] at outranks
  rw [outranks_eq_false]
  omega

/-- A failure that lies no farther than another one and outranks it lies at the same place and tells
more. -/
theorem outranks_of_offset_le (le : failure.offset ≤ other.offset)
    (outranks : failure.outranks other = true) : failure.offset = other.offset ∧
      other.kind.specificity < failure.kind.specificity := by
  rw [outranks_iff] at outranks
  omega

end Failure

/-- What tells less than something else is that nothing was found. -/
theorem FailureKind.specificity_lt {kind other : FailureKind}
    (less : kind.specificity < other.specificity) : kind = .noMatch ∧ other ≠ .noMatch := by
  have nothing : kind.specificity = 0 ↔ kind = .noMatch := by cases kind <;> decide
  refine ⟨nothing.mp ?_, ?_⟩
  · have top : other.specificity ≤ 1 := by cases other <;> decide
    omega
  · rintro rfl
    exact Nat.not_lt_zero _ less

namespace Trail

variable {trail : Trail} {failure other : Failure}

/-- A failure does not outrank the one that is kept. -/
def Covers (trail : Trail) (failure : Failure) : Prop :=
  ∃ best, trail.furthest = some best ∧ failure.outranks best = false

/-- What is known of a trail when a failure was met: it and the one that is kept were seen, and no
failure that was seen outranks both of them. -/
structure Bears (trail : Trail) (failure : Failure) : Prop where
  seen : failure ∈ trail.seen
  kept {best : Failure} (furthest : trail.furthest = some best) : best ∈ trail.seen
  bound {other : Failure} (mem : other ∈ trail.seen) :
    other.outranks failure = false ∨ trail.Covers other

theorem seen_record : (trail.record failure).seen = trail.seen := by
  unfold record
  split
  · rfl
  · split <;> rfl

/-- After a failure was recorded, the one that is kept is this one or the one before, and is outranked
by neither. -/
theorem furthest_record (failure : Failure) (trail : Trail) :
    ∃ best, (trail.record failure).furthest = some best ∧
      (best = failure ∨ trail.furthest = some best) ∧ failure.outranks best = false ∧
      ∀ before, trail.furthest = some before → before.outranks best = false := by
  cases furthest : trail.furthest with
  | none =>
      refine ⟨failure, ?_, .inl rfl, Failure.outranks_irrefl, nofun⟩
      rw [record, furthest]
  | some before =>
      by_cases better : failure.outranks before = true
      · refine ⟨failure, ?_, .inl rfl, Failure.outranks_irrefl, ?_⟩
        · simp only [record, furthest, better, if_true]
        · rintro _ ⟨⟩
          exact Failure.outranks_asymm better
      · refine ⟨before, ?_, .inr rfl, Bool.not_eq_true _ ▸ better, ?_⟩
        · simp only [record, furthest, better, if_false, Bool.false_eq_true]
        · rintro _ ⟨⟩
          exact Failure.outranks_irrefl

/-- What was met is recorded when it is given up: then the one that is kept covers all that was
seen. -/
theorem Bears.covers_record (bears : trail.Bears failure) :
    (∀ best, (trail.record failure).furthest = some best → best ∈ (trail.record failure).seen) ∧
    ∀ other ∈ (trail.record failure).seen, (trail.record failure).Covers other := by
  obtain ⟨best, furthest, origin, worse, former⟩ := furthest_record failure trail
  rw [seen_record]
  constructor
  · rw [furthest]
    rintro _ ⟨⟩
    rcases origin with rfl | before
    · exact bears.seen
    · exact bears.kept before
  · intro other mem
    refine ⟨best, furthest, ?_⟩
    rcases bears.bound mem with bound | ⟨before, kept, bound⟩
    · exact Failure.outranks_trans bound worse
    · exact Failure.outranks_trans bound (former before kept)

end Trail

namespace Parse

/-- While a parse goes on, the failure that is kept was seen and is outranked by none that was seen.
The failure of a part lies at least as far as the one that is kept, if it is not fatal. -/
def TrailInvariant.selective : TrailInvariant where
  Going trail := (∀ best, trail.furthest = some best → best ∈ trail.seen) ∧
    ∀ other ∈ trail.seen, trail.Covers other
  Met failure trail := trail.Bears failure
  Reported failure trail := trail.Bears failure ∧ (failure.isFatal = false →
    ∀ best, trail.furthest = some best → best.offset ≤ failure.offset)
  met_see := by
    rintro failure trail ⟨kept, covers⟩
    refine ⟨List.mem_cons_self, fun furthest => List.mem_cons_of_mem _ (kept _ furthest), ?_⟩
    intro other mem
    rcases List.mem_cons.mp mem with rfl | mem
    · exact .inl Failure.outranks_irrefl
    · exact .inr (covers other mem)
  met_of_reported reported := reported.1
  reported_choose := by
    intro failure trail bears
    unfold Trail.choose
    split
    · next fatal => exact ⟨bears, fun mild => absurd fatal (by rw [mild]; decide)⟩
    · split
      · next nothing => exact ⟨bears, fun _ best furthest => by rw [nothing] at furthest; cases furthest⟩
      · next best furthest =>
          split
          · next farther =>
              have covered : failure.outranks best = false :=
                Failure.outranks_eq_false.mpr (.inl farther)
              refine ⟨⟨bears.kept furthest, bears.kept, ?_⟩, ?_⟩
              · intro other mem
                rcases bears.bound mem with bound | covers
                · exact .inl (Failure.outranks_trans bound covered)
                · exact .inr covers
              · rintro _ _ same
                cases furthest.symm.trans same
                exact Nat.le_refl _
          · next nearer =>
              refine ⟨bears, ?_⟩
              rintro _ _ same
              cases furthest.symm.trans same
              exact Nat.le_of_not_lt nearer
  going_record bears _ := bears.covers_record

variable {grammar : Grammar} {schema : Schema} {limit : Nat} {source : String} {failure : Failure}

/-- The failure that is reported was met, and lies as far as any that was met. One that outranks it
lies at the same place, where nothing was found in the end, and the failure that is kept does so as
well. -/
theorem farthest_of_atStart (failed : atStart ⟨grammar, schema, limit⟩ source = .error failure)
    (mild : failure.isFatal = false) :
    failure ∈ (run ⟨grammar, schema, limit⟩ source).2.seen ∧
    ∀ other ∈ (run ⟨grammar, schema, limit⟩ source).2.seen, other.offset ≤ failure.offset ∧
      (other.outranks failure = true → failure.kind = .noMatch ∧
        ∃ best, (run ⟨grammar, schema, limit⟩ source).2.furthest = some best ∧
          best.offset = failure.offset ∧ best.kind ≠ .noMatch) := by
  have operands : CorrespondOperands .selective (expression ⟨grammar, schema, limit⟩ limit)
      (expression ⟨grammar, schema, limit⟩ limit) :=
    corresponds_expression (Nat.le_refl _) (Nat.le_refl _)
  have corresponds := operands .loosest (.start source) .empty ⟨nofun, nofun⟩
  change FailsDeep (run ⟨grammar, schema, limit⟩ source).1 ∨ _ ∧
    TrailInvariant.selective.AfterStep (run ⟨grammar, schema, limit⟩ source).1
      (run ⟨grammar, schema, limit⟩ source).2 at corresponds
  unfold atStart at failed
  split at failed
  · cases failed
  · next ran =>
      cases failed
      rw [ran] at corresponds
      rcases corresponds with deep | ⟨_, bears, nearer⟩
      · exact absurd (isFatal_of_tooDeep deep) (by rw [mild]; decide)
      · refine ⟨bears.seen, fun other mem => ?_⟩
        rcases bears.bound mem with bound | ⟨best, furthest, bound⟩
        · refine ⟨?_, fun outranks => absurd outranks (by rw [bound]; decide)⟩
          rw [Failure.outranks_eq_false] at bound
          omega
        · have near := nearer mild best furthest
          have below : other.offset ≤ best.offset := by
            rw [Failure.outranks_eq_false] at bound
            omega
          refine ⟨Nat.le_trans below near, fun outranks => ?_⟩
          obtain ⟨same, less⟩ := Failure.outranks_of_offset_le (Nat.le_trans below near) outranks
          have level : best.offset = failure.offset := by omega
          rw [Failure.outranks_eq_false] at bound
          have tells : failure.kind.specificity < best.kind.specificity := by omega
          obtain ⟨nothing, specific⟩ := FailureKind.specificity_lt tells
          exact ⟨nothing, best, furthest, level, specific⟩

theorem farthest_of_atStart_sample :
    ∃ grammar, Grammar.build Grammar.sampleDefinitions = .ok grammar ∧
      ∃ failure, atStart ⟨grammar, [], 8⟩ "(true + 1" = .error failure ∧
        failure.isFatal = false ∧ failure ∈ (run ⟨grammar, [], 8⟩ "(true + 1").2.seen ∧
        ∀ other ∈ (run ⟨grammar, [], 8⟩ "(true + 1").2.seen, other.offset ≤ failure.offset ∧
          (other.outranks failure = true → failure.kind = .noMatch ∧
            ∃ best, (run ⟨grammar, [], 8⟩ "(true + 1").2.furthest = some best ∧
              best.offset = failure.offset ∧ best.kind ≠ .noMatch) := by
  have mild : (match Grammar.build Grammar.sampleDefinitions with
      | .ok grammar =>
        match atStart ⟨grammar, [], 8⟩ "(true + 1" with
        | .ok _ => false
        | .error failure => !failure.isFatal
      | .error _ => false) = true := by
    decide +kernel
  split at mild
  · next grammar built =>
      refine ⟨grammar, built, ?_⟩
      split at mild
      · cases mild
      · next failure failed =>
          rw [Bool.not_eq_true'] at mild
          exact ⟨failure, failed, mild, farthest_of_atStart failed mild⟩
  · cases mild

/-- A definition of a node where an operand of a type may stand before a number. -/
def markedDefinitions : List Definition :=
  [Definition.plain "mark" (.level 1)
    [.text "@", .optional [.operand .expr (some "number") none], .literal .number none]]

/-- A failure that tells less than another one at the same place is reported: behind the mark, that
the operand is no number is given up for that no number stands there. -/
theorem not_unbeaten_of_atStart :
    ¬ ∀ (definitions : List Definition) (grammar : Grammar),
      Grammar.build definitions = .ok grammar → ∀ (schema : Schema) (limit : Nat)
        (source : String) (failure : Failure),
        atStart ⟨grammar, schema, limit⟩ source = .error failure → failure.isFatal = false →
        ∀ other ∈ (run ⟨grammar, schema, limit⟩ source).2.seen,
          other.outranks failure = false := by
  intro unbeaten
  have beaten : (match Grammar.build markedDefinitions with
      | .ok grammar =>
        match atStart ⟨grammar, [], 8⟩ "@ true" with
        | .ok _ => false
        | .error failure =>
          !failure.isFatal && (run ⟨grammar, [], 8⟩ "@ true").2.seen.any (·.outranks failure)
      | .error _ => false) = true := by
    decide +kernel
  split at beaten
  · next grammar built =>
      split at beaten
      · cases beaten
      · next failure failed =>
          rw [Bool.and_eq_true, Bool.not_eq_true', List.any_eq_true] at beaten
          obtain ⟨mild, other, mem, outranks⟩ := beaten
          have := unbeaten _ _ built _ _ _ _ failed mild other mem
          rw [this] at outranks
          cases outranks
  · cases beaten

end Parse

end Mixfix
