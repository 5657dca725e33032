import Mixfix.Descriptor.Shape

/-!
# Patterns of text

A pattern describes pieces of a text: characters of a class, one piece behind the other, one of two,
a count of them or any number of them. A piece that is matched has a text before and behind it, so a
pattern can also ask for the start and the end of the whole text (`Pattern.Matches`). A pattern
occurs in a text if any piece of it is matched (`Pattern.Occurs`). With the start and the end on its
two sides it occurs if the whole text is matched, and not in a longer text that has such a piece
(`Pattern.occurs_whole`).

What the patterns of a few forms match is said once for each form: two characters, a count of
characters of a class, any number of them, and pieces joined by dashes.
-/

set_option autoImplicit false

namespace Mixfix.Shape

/-- A pattern of text. -/
inductive Pattern where
  /-- Nothing. -/
  | empty
  /-- The start of the text. -/
  | start
  /-- The end of the text. -/
  | stop
  /-- A character of a class. -/
  | one (test : Char → Bool)
  /-- One piece behind the other. -/
  | both (first second : Pattern)
  /-- One of two pieces. -/
  | either (first second : Pattern)
  /-- Any number of pieces. -/
  | many (inner : Pattern)

/-- Any number of pieces, one behind the other, each with its text before and behind it. -/
inductive Repeats (matched : List Char → List Char → List Char → Prop) :
    List Char → List Char → List Char → Prop
  | none (before behind : List Char) : Repeats matched before [] behind
  | more {before first rest behind : List Char} (head : matched before first (rest ++ behind))
      (tail : Repeats matched (before ++ first) rest behind) :
      Repeats matched before (first ++ rest) behind

namespace Pattern

variable {test : Char → Bool} {pattern : Pattern} {before piece behind text : List Char}

/-- Whether a piece of a text, between what is before and what is behind it, is one of a pattern. -/
def Matches : Pattern → List Char → List Char → List Char → Prop
  | .empty, _, piece, _ => piece = []
  | .start, before, piece, _ => before = [] ∧ piece = []
  | .stop, _, piece, behind => behind = [] ∧ piece = []
  | .one test, _, piece, _ => ∃ c, piece = [c] ∧ test c = true
  | .both first second, before, piece, behind => ∃ left right, piece = left ++ right ∧
      first.Matches before left (right ++ behind) ∧ second.Matches (before ++ left) right behind
  | .either first second, before, piece, behind =>
      first.Matches before piece behind ∨ second.Matches before piece behind
  | .many inner, before, piece, behind => Repeats inner.Matches before piece behind

/-- A pattern is found anywhere in a text. -/
def Occurs (pattern : Pattern) (text : List Char) : Prop :=
  ∃ before piece behind, text = before ++ piece ++ behind ∧ pattern.Matches before piece behind

/-! ## Patterns made of patterns -/

/-- A pattern that takes the whole text. -/
def whole (pattern : Pattern) : Pattern := .both .start (.both pattern .stop)

/-- A count of pieces, one behind the other. -/
def times (pattern : Pattern) : Nat → Pattern
  | 0 => .empty
  | count + 1 => .both pattern (pattern.times count)

/-- A character. -/
def char (c : Char) : Pattern := .one (· == c)

/-- A character from a range. -/
def range (first last : Char) : Pattern := .one fun c => first ≤ c && c ≤ last

/-- Pieces of several patterns, joined by dashes. -/
def dashed : List Pattern → Pattern
  | [] => .empty
  | [pattern] => pattern
  | pattern :: other :: patterns =>
    .both pattern (.both (char '-') (dashed (other :: patterns)))

/-- A pattern for the whole text occurs where the whole text is matched. -/
theorem occurs_whole : pattern.whole.Occurs text ↔ pattern.Matches [] text [] := by
  constructor
  · rintro ⟨_, _, _, rfl, _, _, rfl, ⟨rfl, rfl⟩, _, _, rfl, matched, rfl, rfl⟩
    simpa using matched
  · intro matched
    exact ⟨[], text, [], by simp, [], text, by simp, ⟨rfl, rfl⟩, text, [], by simp, by simpa,
      rfl, rfl⟩

theorem dashed_single (pattern : Pattern) : dashed [pattern] = pattern := rfl

/-- Pieces joined by dashes are the first piece, a dash, and the others. -/
theorem matches_dashed {other : Pattern} {patterns : List Pattern} :
    (dashed (pattern :: other :: patterns)).Matches before piece behind ↔
      ∃ left right, piece = left ++ '-' :: right ∧
        pattern.Matches before left ('-' :: right ++ behind) ∧
        (dashed (other :: patterns)).Matches (before ++ left ++ ['-']) right behind := by
  simp only [dashed, char, Matches]
  constructor
  · rintro ⟨left, _, rfl, here, _, right, rfl, ⟨c, rfl, dash⟩, there⟩
    rw [beq_iff_eq] at dash
    subst dash
    exact ⟨left, right, rfl, here, there⟩
  · rintro ⟨left, right, rfl, here, there⟩
    exact ⟨left, '-' :: right, rfl, here, ['-'], right, rfl, ⟨'-', rfl, rfl⟩, there⟩

theorem matches_either {other : Pattern} : (either pattern other).Matches before piece behind ↔
    pattern.Matches before piece behind ∨ other.Matches before piece behind :=
  Iff.rfl

/-- Two characters, each of a class. -/
theorem matches_pair {other : Char → Bool} :
    (both (one test) (one other)).Matches before piece behind ↔
      ∃ c d, piece = [c, d] ∧ test c = true ∧ other d = true := by
  constructor
  · rintro ⟨_, _, rfl, ⟨c, rfl, holds⟩, d, rfl, holdsToo⟩
    exact ⟨c, d, rfl, holds, holdsToo⟩
  · rintro ⟨c, d, rfl, holds, holdsToo⟩
    exact ⟨[c], [d], rfl, ⟨c, rfl, holds⟩, d, rfl, holdsToo⟩

/-- A count of characters of a class. -/
theorem matches_times_one (count : Nat) : ((one test).times count).Matches before piece behind ↔
    piece.length = count ∧ ∀ c ∈ piece, test c = true := by
  induction count generalizing before piece with
  | zero =>
      rw [times, Matches, List.length_eq_zero_iff]
      exact ⟨fun none => ⟨none, by simp [none]⟩, And.left⟩
  | succ count ih =>
      simp only [times, Matches, ih]
      constructor
      · rintro ⟨_, rest, rfl, ⟨c, rfl, holds⟩, length, all⟩
        exact ⟨by simp [length], by simpa [holds] using all⟩
      · rintro ⟨length, all⟩
        obtain ⟨c, rest, rfl⟩ := List.exists_cons_of_length_eq_add_one length
        rw [List.forall_mem_cons] at all
        exact ⟨[c], rest, rfl, ⟨c, rfl, all.1⟩, Nat.succ.inj length, all.2⟩

/-- Any number of characters of a class. -/
theorem matches_many_one : (many (one test)).Matches before piece behind ↔
    ∀ c ∈ piece, test c = true := by
  constructor
  · intro matched
    rw [Matches] at matched
    induction matched with
    | none before behind => exact fun c mem => absurd mem List.not_mem_nil
    | more head tail ih =>
        obtain ⟨c, rfl, holds⟩ := head
        exact List.forall_mem_cons.mpr ⟨holds, ih⟩
  · intro all
    induction piece generalizing before with
    | nil => exact .none before behind
    | cons c rest ih =>
        rw [List.forall_mem_cons] at all
        exact .more ⟨c, rfl, all.1⟩ (ih all.2)

end Pattern

end Mixfix.Shape
