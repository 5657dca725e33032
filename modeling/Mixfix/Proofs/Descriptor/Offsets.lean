import Mixfix.Descriptor.Reader
import Mixfix.Proofs.Tree.Spans

/-!
# Where descriptors stop

The readers of the descriptor language keep to their text: what a reader gives has a cursor in the
text behind it, and where it stops is a boundary of a character (`Stays`). A reader made of two stays
in the text if both do, so the readers are followed in their own order, and the depth of the
parentheses carries the induction (`stays_readUnion`). The error of a whole text is placed in it
(`ParseError.LiesIn`, `liesIn_of_parse`).
-/

set_option autoImplicit false

namespace Mixfix.Descriptor

/-- An error names a text, and a boundary of a character of this text. -/
structure ParseError.LiesIn (source : String) (error : ParseError) : Prop where
  text : error.text = source
  boundary : IsBoundary source error.offset

variable {α β : Type} {text : String} {cursor : Cursor}

/-! ## Steps and readers -/

/-- A step comes to a result as described, or stops at a boundary of a character. -/
def Lands (text : String) (After : α → Prop) : Except Stop α → Prop
  | .ok result => After result
  | .error stop => IsBoundary text stop.offset

/-- A reader that starts in a text stays in it. -/
def Stays (text : String) (reader : Reader α) : Prop :=
  ∀ cursor, cursor.LiesIn text → Lands text (fun read => read.2.LiesIn text) (reader cursor)

theorem Lands.bind {After : α → Prop} {Last : β → Prop} {first : Except Stop α}
    {next : α → Except Stop β} (start : Lands text After first)
    (further : ∀ result, After result → Lands text Last (next result)) :
    Lands text Last (first >>= next) := by
  cases first with
  | error stop => exact start
  | ok result => exact further result start

theorem lands_stop {After : α → Prop} (inside : cursor.LiesIn text) (reason : Reason) :
    Lands text After (stop cursor reason) :=
  inside.isBoundary

theorem lands_placed (inside : cursor.LiesIn text) (step : Except Reason α) :
    Lands text (fun _ => True) (placed cursor step) := by
  cases step with
  | error reason => exact lands_stop inside reason
  | ok result => exact trivial

/-! ## Spaces and marks -/

theorem liesIn_skipSpace (inside : cursor.LiesIn text) : (skipSpace cursor).LiesIn text :=
  inside.advance _

theorem liesIn_of_strip? {mark : List Char} {next : Cursor} (inside : cursor.LiesIn text)
    (found : cursor.strip? mark = some next) : next.LiesIn text := by
  unfold Cursor.strip? at found
  split at found
  · cases found
    exact inside.advance _
  · cases found

theorem liesIn_of_eat? {mark : List Char} {next : Cursor} (inside : cursor.LiesIn text)
    (found : eat? mark cursor = some next) : next.LiesIn text :=
  liesIn_of_strip? (liesIn_skipSpace inside) found

theorem liesIn_of_readMark? {mark : Mark} {next : Cursor} (inside : cursor.LiesIn text)
    (found : readMark? cursor = some (mark, next)) : next.LiesIn text := by
  obtain ⟨⟨written, sign⟩, _, here⟩ := List.exists_of_findSome?_eq_some found
  obtain ⟨behind, stripped, same⟩ := Option.map_eq_some_iff.mp here
  cases same
  exact liesIn_of_strip? inside stripped

/-! ## Bases -/

theorem stays_readNumber : Stays text readNumber := by
  intro cursor inside
  unfold readNumber
  dsimp only
  split
  · exact inside.advance _
  · exact lands_stop inside _

theorem stays_readQuoted (quote : Char) : Stays text (readQuoted quote) := by
  intro cursor inside
  unfold readQuoted
  split
  · exact inside.advance _
  · exact lands_stop inside _

theorem stays_readWord : Stays text readWord := by
  intro cursor inside
  refine (lands_placed inside _).bind fun descriptor _ => ?_
  exact inside.advance _

theorem liesIn_readArrayMarks (steps : Nat) (base : Descriptor) (inside : cursor.LiesIn text) :
    (readArrayMarks steps base cursor).2.LiesIn text := by
  induction steps generalizing base cursor with
  | zero => exact liesIn_skipSpace inside
  | succ steps ih =>
      rw [readArrayMarks]
      split
      · next found => exact ih _ (liesIn_of_eat? inside found)
      · exact liesIn_skipSpace inside

section Inner

variable {inner : Reader Descriptor} (within : Stays text inner)
include within

theorem stays_readPrimary : Stays text (readPrimary inner) := by
  intro cursor inside
  have start := liesIn_skipSpace inside
  unfold readPrimary
  dsimp only
  split
  · exact lands_stop start _
  · split
    · refine (within _ (start.advance 1)).bind ?_
      rintro ⟨descriptor, behind⟩ there
      dsimp only
      split
      · next closed => exact liesIn_of_eat? there closed
      · exact lands_stop (liesIn_skipSpace there) _
    · split
      · exact stays_readQuoted _ _ start
      · split
        · exact stays_readWord _ start
        · split
          · exact (stays_readNumber _ start).bind fun _ there => there
          · exact lands_stop start _

theorem stays_readBase : Stays text (readBase inner) := by
  intro cursor inside
  refine (stays_readPrimary within _ inside).bind ?_
  rintro ⟨base, behind⟩ there
  exact liesIn_readArrayMarks _ base there

/-! ## Terms and unions -/

theorem stays_readRange (lower : Bound) : Stays text (readRange inner lower) := by
  intro cursor inside
  refine (stays_readBase within _ inside).bind ?_
  rintro ⟨base, behind⟩ there
  refine (lands_placed there _).bind fun limited _ => ?_
  dsimp only
  split
  · exact liesIn_skipSpace there
  · next marked =>
      have next := liesIn_of_readMark? (liesIn_skipSpace there) marked
      split
      · refine (stays_readNumber _ (liesIn_skipSpace next)).bind ?_
        rintro ⟨number, last⟩ further
        exact (lands_placed further _).bind fun _ _ => further
      · exact lands_stop next _

theorem stays_readTerm : Stays text (readTerm inner) := by
  intro cursor inside
  have start := liesIn_skipSpace inside
  unfold readTerm
  dsimp only
  split
  · refine (stays_readNumber _ start).bind ?_
    rintro ⟨number, behind⟩ there
    dsimp only
    split
    · exact liesIn_skipSpace there
    · next marked =>
        have next := liesIn_of_readMark? (liesIn_skipSpace there) marked
        split
        · exact stays_readRange within _ _ next
        · exact lands_stop next _
  · refine (stays_readBase within _ start).bind ?_
    rintro ⟨base, behind⟩ there
    dsimp only
    split
    · exact liesIn_skipSpace there
    · next marked =>
        have next := liesIn_of_readMark? (liesIn_skipSpace there) marked
        refine (stays_readNumber _ (liesIn_skipSpace next)).bind ?_
        rintro ⟨number, last⟩ further
        exact (lands_placed further _).bind fun _ _ => further

theorem stays_readMembers (steps : Nat) : Stays text (readMembers inner steps) := by
  induction steps with
  | zero => exact fun _ inside => liesIn_skipSpace inside
  | succ steps ih =>
      intro cursor inside
      rw [readMembers]
      dsimp only
      split
      · exact liesIn_skipSpace inside
      · next found =>
          refine (stays_readTerm within _ (liesIn_of_eat? inside found)).bind ?_
          rintro ⟨member, behind⟩ there
          exact (ih _ there).bind fun _ further => further

end Inner

theorem stays_readUnion (depth : Nat) : Stays text (readUnion depth) := by
  induction depth with
  | zero => exact fun _ inside => lands_stop inside _
  | succ depth ih =>
      intro cursor inside
      refine (stays_readTerm ih _ inside).bind ?_
      rintro ⟨member, behind⟩ there
      exact (stays_readMembers ih _ _ there).bind fun _ further => further

/-- The error of a text that is no descriptor is placed in this text. -/
theorem liesIn_of_parse {error : ParseError} (failed : parse text = .error error) :
    error.LiesIn text := by
  simp only [parse] at failed
  split at failed
  · cases failed
  · next offset reason stopped =>
      cases failed
      refine ⟨rfl, ?_⟩
      show Lands text (fun _ : Descriptor => True) (.error ⟨offset, reason⟩)
      rw [← stopped]
      refine (stays_readUnion _ _ (Cursor.liesIn_start text)).bind ?_
      rintro ⟨descriptor, behind⟩ there
      dsimp only
      split
      · exact trivial
      · exact lands_stop (liesIn_skipSpace there) _

end Mixfix.Descriptor
