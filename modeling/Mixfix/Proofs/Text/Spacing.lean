/-!
# Words with spaces between them

Joining words with single spaces, and getting them back. A scan divides a text at the spaces that
stand neither between parentheses nor between single quotes. A piece of text is solid if the scan
passes over it and is behind it in the state it was in before (`Solid`): words that are solid are
found again (`topWords_spaced`), and so is any text that is made of solid pieces.
-/

set_option autoImplicit false

namespace Mixfix

/-- Words with one space between them. -/
def spaced (words : List (List Char)) : List Char := [' '].intercalate words

theorem spaced_cons_cons (word other : List Char) (words : List (List Char)) :
    spaced (word :: other :: words) = word ++ ' ' :: spaced (other :: words) := by
  simp [spaced, List.intercalate_cons_cons]

theorem spaced_append {words more : List (List Char)} (nonempty : words ≠ [])
    (nonempty' : more ≠ []) : spaced (words ++ more) = spaced words ++ ' ' :: spaced more := by
  induction words with
  | nil => exact absurd rfl nonempty
  | cons word words ih =>
      cases words with
      | nil =>
          obtain ⟨first, more, rfl⟩ := List.exists_cons_of_ne_nil nonempty'
          simp [spaced, List.intercalate_cons_cons]
      | cons other words =>
          rw [List.cons_append, List.cons_append, spaced_cons_cons, spaced_cons_cons,
            ← List.cons_append, ih (by simp), List.append_assoc, List.cons_append]

/-- Groups of words with a word between them are the groups' texts with the word between them. -/
theorem spaced_intercalate (mark : List Char) {groups : List (List (List Char))}
    (nonempty : ∀ group ∈ groups, group ≠ []) :
    spaced ([mark].intercalate groups) =
      (' ' :: mark ++ [' ']).intercalate (groups.map spaced) := by
  induction groups with
  | nil => rfl
  | cons group groups ih =>
      have rest := ih fun other mem => nonempty other (List.mem_cons_of_mem _ mem)
      have first := nonempty group List.mem_cons_self
      cases groups with
      | nil => simp
      | cons other groups =>
          have later : [mark].intercalate (other :: groups) ≠ [] := by
            have second := nonempty other (by simp)
            cases groups with
            | nil => simpa using second
            | cons another groups => simp [List.intercalate_cons_cons, second]
          rw [List.intercalate_cons_cons, List.append_assoc, spaced_append first (by simp),
            List.singleton_append]
          obtain ⟨word, words, same⟩ := List.exists_cons_of_ne_nil later
          rw [same, spaced_cons_cons, ← same, rest]
          simp [List.intercalate_cons_cons]

/-! ## Dividing a text at its spaces -/

/-- Where a scan stands: outside of quotes, between quotes, or behind a backslash between quotes. -/
inductive QuoteState where
  | outside
  | inside
  | escaped
deriving DecidableEq

/-- The state behind a character. -/
def QuoteState.next : QuoteState → Char → QuoteState
  | .outside, c => if c = '\'' then .inside else .outside
  | .inside, c => if c = '\\' then .escaped else if c = '\'' then .outside else .inside
  | .escaped, _ => .inside

/-- The depth of parentheses behind a character. -/
def nextDepth (state : QuoteState) (depth : Nat) (c : Char) : Nat :=
  if state = .outside then
    if c = '(' then depth + 1 else if c = ')' then depth - 1 else depth
  else depth

/-- Puts text before the first word. -/
def prepend (text : List Char) : List (List Char) → List (List Char)
  | [] => [text]
  | word :: words => (text ++ word) :: words

/-- The words of a text, divided at the spaces outside of parentheses and quotes. -/
def topWords (depth : Nat) (state : QuoteState) : List Char → List (List Char)
  | [] => [[]]
  | c :: rest =>
    if c = ' ' ∧ depth = 0 ∧ state = .outside then [] :: topWords 0 .outside rest
    else prepend [c] (topWords (nextDepth state depth c) (state.next c) rest)

theorem prepend_append (text more : List Char) (words : List (List Char)) :
    prepend (text ++ more) words = prepend text (prepend more words) := by
  cases words <;> simp [prepend]

/-- The scan passes over a text and is behind it in the state it was in before. -/
def Solid (depth : Nat) (text : List Char) : Prop :=
  ∀ rest, topWords depth .outside (text ++ rest) = prepend text (topWords depth .outside rest)

variable {depth : Nat}

theorem topWords_ne_nil (state : QuoteState) (text : List Char) : topWords depth state text ≠ [] := by
  cases text with
  | nil => simp [topWords]
  | cons c rest =>
      simp only [topWords]
      split
      · simp
      · cases topWords (nextDepth state depth c) (state.next c) rest <;> simp [prepend]

theorem solid_nil : Solid depth [] := by
  intro rest
  obtain ⟨word, words, same⟩ := List.exists_cons_of_ne_nil (topWords_ne_nil .outside rest)
  rw [List.nil_append, same, prepend, List.nil_append]

theorem Solid.append {text more : List Char} (first : Solid depth text)
    (second : Solid depth more) : Solid depth (text ++ more) := by
  intro rest
  rw [List.append_assoc, first, second, prepend_append]

/-- Whether a character neither divides words nor opens or closes anything. -/
def isPlainChar (c : Char) : Bool :=
  c != ' ' && c != '(' && c != ')' && c != '\''

theorem solid_of_plain {text : List Char} (plain : ∀ c ∈ text, isPlainChar c = true) :
    Solid depth text := by
  induction text with
  | nil => exact solid_nil
  | cons c text ih =>
      have later := ih fun other mem => plain other (List.mem_cons_of_mem _ mem)
      have first : Solid depth [c] := by
        intro rest
        have marks := plain c List.mem_cons_self
        simp only [isPlainChar, Bool.and_eq_true, bne_iff_ne] at marks
        obtain ⟨⟨⟨notSpace, notOpen⟩, notClose⟩, notQuote⟩ := marks
        simp [topWords, nextDepth, QuoteState.next, notSpace, notOpen, notClose, notQuote]
      exact first.append later

/-- A closed text is solid if all of its characters are seen to be plain. -/
theorem solid_of_all {text : List Char} (plain : text.all isPlainChar = true) : Solid depth text :=
  solid_of_plain (List.all_eq_true.mp plain)

/-- A space between parentheses divides nothing. -/
theorem solid_space : Solid (depth + 1) [' '] := by
  intro rest
  simp [topWords, nextDepth, QuoteState.next]

theorem solid_parens {text : List Char} (inside : Solid (depth + 1) text) :
    Solid depth ('(' :: text ++ [')']) := by
  intro rest
  have opens : topWords depth .outside ('(' :: text ++ [')'] ++ rest) =
      prepend ['('] (topWords (depth + 1) .outside (text ++ (')' :: rest))) := by
    simp [topWords, nextDepth, QuoteState.next]
  have closes : topWords (depth + 1) .outside (')' :: rest) =
      prepend [')'] (topWords depth .outside rest) := by
    simp [topWords, nextDepth, QuoteState.next]
  rw [opens, inside, closes, ← prepend_append, ← prepend_append]
  simp

theorem Solid.spaced {words : List (List Char)} (solid : ∀ word ∈ words, Solid (depth + 1) word) :
    Solid (depth + 1) (spaced words) := by
  induction words with
  | nil => exact solid_nil
  | cons word words ih =>
      have later := ih fun other mem => solid other (List.mem_cons_of_mem _ mem)
      have first := solid word List.mem_cons_self
      cases words with
      | nil => simpa [Mixfix.spaced] using first
      | cons other words =>
          rw [spaced_cons_cons]
          exact first.append (solid_space.append later)

/-- Solid words with spaces between them are found again. -/
theorem topWords_spaced {words : List (List Char)} (nonempty : words ≠ [])
    (solid : ∀ word ∈ words, Solid 0 word) : topWords 0 .outside (spaced words) = words := by
  induction words with
  | nil => exact absurd rfl nonempty
  | cons word words ih =>
      have first := solid word List.mem_cons_self
      cases words with
      | nil =>
          have whole := first []
          rw [List.append_nil] at whole
          simp [spaced, whole, topWords, prepend]
      | cons other words =>
          have later := ih (by simp) fun other mem => solid other (List.mem_cons_of_mem _ mem)
          rw [spaced_cons_cons, first]
          have divides : topWords 0 .outside (' ' :: spaced (other :: words)) =
              [] :: topWords 0 .outside (spaced (other :: words)) := by
            simp [topWords]
          rw [divides, later, prepend, List.append_nil]

end Mixfix
