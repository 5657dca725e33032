import Mixfix.Proofs.Parse.Atoms
import Mixfix.Proofs.Parse.References
import Mixfix.Proofs.Tree.Shifting

/-!
# Leaves in front of parentheses

Literals and references are read in an enclosed text as in the text alone. A reference follows as
many segments: there is nothing more of it in a parenthesis.
-/

set_option autoImplicit false

namespace Mixfix.Parse

open Lexeme

variable (enclosure : Enclosure)

/-- What was read, in an enclosed text. -/
def Parsed.enclosed (parsed : Parsed) : Parsed :=
  (parsed.1.shifted enclosure.lead, parsed.2.enclosed enclosure)

/-! ## Literals -/

variable {cursor : Cursor}

theorem stringValue?_enclosed {outcome : Option (Lexeme Value)}
    (found : stringValue? cursor = .ok outcome) :
    stringValue? (cursor.enclosed enclosure) = .ok (outcome.map (enclosed enclosure)) := by
  unfold stringValue? at found ⊢
  cases read : string? cursor with
  | error fault =>
      rw [read] at found
      cases found
  | ok lexeme =>
      rw [string?_enclosed enclosure read]
      rw [read] at found
      cases lexeme <;> cases found <;> rfl

theorem keywordValue?_enclosed (cursor : Cursor) :
    keywordValue? (cursor.enclosed enclosure) =
      (keywordValue? cursor).map (enclosed enclosure) := by
  simp only [keywordValue?, keyword?_enclosed, List.map_findSome?, Function.comp_def,
    Option.map_map]
  rfl

/-- A literal that is found, or that nothing starts like, is found alike in an enclosed text. -/
theorem constant?_enclosed {outcome : Option (Lexeme Value)}
    (found : constant? cursor = .ok outcome) :
    constant? (cursor.enclosed enclosure) = .ok (outcome.map (enclosed enclosure)) := by
  unfold constant? at found ⊢
  rw [number?_enclosed]
  cases number : number? cursor with
  | some lexeme =>
      rw [number] at found
      cases found
      rfl
  | none =>
      rw [number] at found
      cases string : stringValue? cursor with
      | error failure =>
          rw [string] at found
          cases found
      | ok lexeme =>
          rw [string] at found
          rw [stringValue?_enclosed enclosure string, keywordValue?_enclosed]
          cases lexeme <;> cases found <;> rfl

theorem literalTree_enclosed (lexeme : Lexeme Value) :
    literalTree (lexeme.enclosed enclosure) = Parsed.enclosed enclosure (literalTree lexeme) := by
  simp only [literalTree, Parsed.enclosed, Tree.shifted, Extent.shifted, Lexeme.enclosed]

/-! ## References -/

/-- A field that was reached, in an enclosed text. -/
def Reached.enclosed (reached : Reached) : Reached :=
  { reached with cursor := reached.cursor.enclosed enclosure }

/-- Where no segment can be followed, following stays. -/
theorem followSegments_stays {reached : Reached}
    (stays : ∀ fields, reached.entry = .nested fields → segment? reached.cursor = none)
    (steps : Nat) : followSegments steps reached = .ok reached := by
  cases steps with
  | zero => rfl
  | succ steps =>
      rw [followSegments]
      split
      · rfl
      · next fields same => rw [stays fields same]

theorem followSegments_stays_enclosed {reached : Reached}
    (stays : ∀ fields, reached.entry = .nested fields → segment? reached.cursor = none)
    (steps : Nat) :
    followSegments steps (reached.enclosed enclosure) = .ok (reached.enclosed enclosure) := by
  refine followSegments_stays (fun fields nested => ?_) steps
  rw [Reached.enclosed, segment?_enclosed, stays fields nested]
  rfl

/-- Segments are followed to the same field; the number of steps does not matter as long as there are
as many as characters. -/
theorem followSegments_enclosed {steps more : Nat} {reached final : Reached}
    (enough : reached.cursor.rest.length ≤ steps) (le : steps ≤ more)
    (ok : followSegments steps reached = .ok final) :
    followSegments more (reached.enclosed enclosure) = .ok (final.enclosed enclosure) := by
  induction steps generalizing reached more with
  | zero =>
      cases ok
      refine followSegments_stays_enclosed enclosure (fun fields nested => ?_) more
      refine segment?_eq_none_of_rest fun c rest same => ?_
      rw [same] at enough
      exact absurd enough (Nat.not_succ_le_zero _)
  | succ steps ih =>
      obtain ⟨path, entry, cursor⟩ := reached
      rw [followSegments] at ok
      cases entry with
      | type descriptor =>
          cases ok
          exact followSegments_stays_enclosed enclosure (fun fields same => by cases same) more
      | nested fields =>
          dsimp only at ok
          cases found : segment? cursor with
          | none =>
              rw [found] at ok
              cases ok
              exact followSegments_stays_enclosed enclosure (fun _ _ => found) more
          | some segment =>
              rw [found] at ok
              dsimp only at ok
              cases there : Dict.get? fields segment.content with
              | none =>
                  rw [there] at ok
                  cases ok
              | some entry =>
                  rw [there] at ok
                  have shorter := (starts_of_segment? found).2.length_lt
                  cases more with
                  | zero => cases le
                  | succ more =>
                      simp only [Reached.enclosed, followSegments, segment?_enclosed, found,
                        Option.map_some, Lexeme.enclosed, there]
                      exact ih (Nat.le_of_lt_succ (Nat.lt_of_lt_of_le shorter enough))
                        (Nat.le_of_succ_le_succ le) ok

theorem reference?_enclosed {schema : Schema} {parsed : Parsed}
    (found : reference? schema cursor = .ok (some parsed)) :
    reference? schema (cursor.enclosed enclosure) =
      .ok (some (Parsed.enclosed enclosure parsed)) := by
  unfold reference? at found ⊢
  rw [identifier?_enclosed]
  cases named : identifier? cursor with
  | none =>
      rw [named] at found
      cases found
  | some name =>
      rw [named] at found
      dsimp only [Option.map_some, Lexeme.enclosed] at found ⊢
      cases there : Dict.get? schema name.content with
      | none =>
          rw [there] at found
          cases found
      | some entry =>
          rw [there] at found
          dsimp only at found ⊢
          cases followed : followSegments name.next.rest.length
              ⟨[name.content], entry, name.next⟩ with
          | error failure =>
              rw [followed] at found
              cases found
          | ok reached =>
              have longer : name.next.rest.length ≤ (name.next.enclosed enclosure).rest.length := by
                rw [Cursor.enclosed, List.length_append]
                exact Nat.le_add_right _ _
              have further : followSegments (name.next.enclosed enclosure).rest.length
                  ⟨[name.content], entry, name.next.enclosed enclosure⟩ =
                  .ok (reached.enclosed enclosure) :=
                followSegments_enclosed enclosure (Nat.le_refl name.next.rest.length) longer followed
              rw [followed] at found
              cases found
              rw [further]
              simp only [bind, Except.bind, Reached.enclosed, Parsed.enclosed, Tree.shifted]
              rfl

end Mixfix.Parse
