import Mathlib.Data.List.TakeWhile
import Mathlib.Order.Bounds.Basic
import Mixfix.Proofs.Text.Sessions

/-!
# Carets

A location is computed twice over: its line is clipped around the column when it is made, and the
caret is moved to the left by the same radius when it is drawn. That both agree is a fact about
characters, while the location was asked for by a byte offset, which may lie inside of a character or
behind the end of the text.

So a located offset is the last boundary that is not behind the offset asked for
(`isGreatest_offset_locate`). The text is divided there into the lines above, what stands before and
behind the offset in its own line, and the lines below (`Divides`). Line and column count the former
two, and no two offsets of a text share both (`offset_eq_of_line_column`). What is shown of the line
has the character at the offset under the caret (`shows_locate`, `caret_points`).
-/

set_option autoImplicit false

namespace Mixfix

variable {source : String}

/-! ## The boundary before an offset -/

namespace Cursor

/-- A walk up to an offset takes the characters that end there or before it. -/
theorem walk_spec {offset position : Nat} (text : List Char) (start : position ≤ offset) :
    ∃ taken, text = taken ++ (atOffset.walk offset position text).rest ∧
      (atOffset.walk offset position text).offset = position + byteLength taken ∧
      (atOffset.walk offset position text).offset ≤ offset ∧
      ∀ c ∈ (atOffset.walk offset position text).rest.head?,
        offset < (atOffset.walk offset position text).offset + c.utf8Size := by
  induction text generalizing position with
  | nil => exact ⟨[], rfl, rfl, start, nofun⟩
  | cons c text ih =>
      rw [atOffset.walk]
      split
      · next fits =>
          obtain ⟨taken, whole, counted, before, stops⟩ := ih fits
          refine ⟨c :: taken, congrArg (List.cons c) whole, ?_, before, stops⟩
          rw [counted, byteLength_cons, Nat.add_assoc]
      · next passed =>
          refine ⟨[], rfl, rfl, start, ?_⟩
          rintro _ ⟨⟩
          exact Nat.lt_of_not_le passed

theorem liesIn_atOffset (source : String) (offset : Nat) : (atOffset source offset).LiesIn source := by
  obtain ⟨taken, whole, counted, _⟩ := walk_spec source.toList (Nat.zero_le offset)
  exact ⟨taken, whole, counted.trans (Nat.zero_add _)⟩

/-- The cursor at an offset stands at the last boundary that is not behind it. -/
theorem isGreatest_atOffset (source : String) (offset : Nat) :
    IsGreatest {place | IsBoundary source place ∧ place ≤ min offset source.utf8ByteSize}
      (atOffset source offset).offset := by
  have inside := liesIn_atOffset source offset
  obtain ⟨_, _, _, before, stops⟩ := walk_spec source.toList (Nat.zero_le offset)
  refine ⟨⟨inside.isBoundary, Nat.le_min.mpr ⟨before, inside.isBoundary.le⟩⟩, ?_⟩
  rintro place ⟨⟨front, after, whole, rfl⟩, within⟩
  have near : byteLength front ≤ offset := within.trans (Nat.min_le_left _ _)
  obtain ⟨taken, whole', counted⟩ := inside
  rw [counted]
  rcases List.append_eq_append_iff.mp (whole.symm.trans whole') with
    ⟨more, rfl, _⟩ | ⟨more, rfl, ahead⟩
  · rw [byteLength_append]
    exact Nat.le_add_right _ _
  · cases more with
    | nil => rw [List.append_nil]
    | cons c more =>
        -- one character further the offset would be passed
        have passed : offset < (atOffset source offset).offset + c.utf8Size :=
          stops c (congrArg List.head? ahead)
        rw [byteLength_append, byteLength_cons] at near
        omega

end Cursor

namespace Location

/-! ## Lines -/

/-- An offset divides a text into the lines above its own, what stands before and behind it in its
line, and what follows on the line. -/
structure Divides (source : String) (offset : Nat) (above left right below : List Char) :
    Prop where
  whole : source.toList = above ++ left ++ (right ++ below)
  counted : byteLength (above ++ left) = offset
  starts : above = [] ∨ above.getLast? = some '\n'
  single : '\n' ∉ left ++ right
  ends : below = [] ∨ below.head? = some '\n'

theorem not_mem_takeWhile_feed (text : List Char) : '\n' ∉ text.takeWhile (· != '\n') := by
  intro mem
  exact absurd (List.mem_takeWhile_imp mem) (by decide)

/-- A text goes on behind its first line with a line feed, if it does. -/
theorem head?_dropWhile_feed (text : List Char) :
    text.dropWhile (· != '\n') = [] ∨ (text.dropWhile (· != '\n')).head? = some '\n' := by
  have stops := List.head?_dropWhile_not (· != '\n') text
  cases ahead : text.dropWhile (· != '\n') with
  | nil => exact .inl rfl
  | cons c rest =>
      rw [ahead] at stops
      have feed : c = '\n' := by simpa using stops
      exact .inr (congrArg some feed)

/-- The current line is what stands behind the last line feed. -/
theorem currentLine_spec (text : List Char) :
    ∃ above, text = above ++ currentLine text ∧ '\n' ∉ currentLine text ∧
      (above = [] ∨ above.getLast? = some '\n') := by
  refine ⟨(text.reverse.dropWhile (· != '\n')).reverse, ?_, ?_, ?_⟩
  · rw [currentLine, ← List.reverse_append, List.takeWhile_append_dropWhile, List.reverse_reverse]
  · rw [currentLine, List.mem_reverse]
    exact not_mem_takeWhile_feed _
  · rw [List.reverse_eq_nil_iff, List.getLast?_reverse]
    exact head?_dropWhile_feed _

/-- More of the same line is behind the current line. -/
theorem currentLine_append {text more : List Char} (single : '\n' ∉ more) :
    currentLine (text ++ more) = currentLine text ++ more := by
  have passes : ∀ c ∈ more.reverse, (c != '\n') = true := by
    intro c mem
    rw [bne_iff_ne]
    rintro rfl
    exact single (List.mem_reverse.mp mem)
  rw [currentLine, List.reverse_append, List.takeWhile_append_of_pos passes, List.reverse_append,
    List.reverse_reverse, currentLine]

theorem before_of_liesIn {cursor : Cursor} {front : List Char}
    (whole : source.toList = front ++ cursor.rest) : before source cursor = front := by
  rw [before, whole, List.length_append, Nat.add_sub_cancel, List.take_left']
  rfl

/-- The cursor at an offset divides the text, and the location is made of the parts. -/
theorem exists_divides (source : String) (offset radius : Nat) :
    ∃ above left right below,
      Divides source (locate source offset radius).offset above left right below ∧
      (locate source offset radius).line = (above ++ left).count '\n' + 1 ∧
      (locate source offset radius).column = left.length + 1 ∧
      left = currentLine (above ++ left) ∧
      (locate source offset radius).snippet = String.ofList
        (((left ++ right).drop (left.length - radius)).take (radius * 2 + 1)) := by
  obtain ⟨front, whole, counted⟩ := Cursor.liesIn_atOffset source offset
  obtain ⟨above, split, singleLeft, starts⟩ := currentLine_spec front
  have same := before_of_liesIn whole
  let ahead := (Cursor.atOffset source offset).rest
  refine ⟨above, currentLine front, ahead.takeWhile (· != '\n'), ahead.dropWhile (· != '\n'),
    ⟨?_, ?_, starts, ?_, ?_⟩, ?_, ?_, ?_, ?_⟩
  · rw [← split, List.takeWhile_append_dropWhile]
    exact whole
  · rw [← split]
    exact counted.symm
  · intro mem
    exact (List.mem_append.mp mem).elim singleLeft (not_mem_takeWhile_feed ahead)
  · exact head?_dropWhile_feed ahead
  · rw [← split, locate, same]
  · rw [locate, same]
  · rw [← split]
  · rw [locate, same]

/-! ## Line and column -/

/-- Of two beginnings of a text, the one that goes on in the same line is longer by what it goes on
with. -/
theorem eq_nil_of_same_place {front more : List Char}
    (line : front.count '\n' = (front ++ more).count '\n')
    (column : (currentLine front).length = (currentLine (front ++ more)).length) : more = [] := by
  have none : more.count '\n' = 0 := by
    rw [List.count_append] at line
    omega
  rw [currentLine_append (List.count_eq_zero.mp none), List.length_append] at column
  exact List.eq_nil_of_length_eq_zero (by omega)

/-- Line and column determine the place in a text. -/
theorem offset_eq_of_line_column {offset other radius radius' : Nat}
    (line : (locate source offset radius).line = (locate source other radius').line)
    (column : (locate source offset radius).column = (locate source other radius').column) :
    (locate source offset radius).offset = (locate source other radius').offset := by
  obtain ⟨above, left, right, below, divides, lines, columns, own, _⟩ :=
    exists_divides source offset radius
  obtain ⟨above', left', right', below', divides', lines', columns', own', _⟩ :=
    exists_divides source other radius'
  have sameLine : (above ++ left).count '\n' = (above' ++ left').count '\n' := by omega
  have sameColumn : (currentLine (above ++ left)).length = (currentLine (above' ++ left')).length := by
    rw [← own, ← own']
    omega
  rw [← divides.counted, ← divides'.counted]
  rcases List.append_eq_append_iff.mp (divides.whole.symm.trans divides'.whole) with
    ⟨more, longer, _⟩ | ⟨more, longer, _⟩
  · rw [longer] at sameLine sameColumn ⊢
    rw [eq_nil_of_same_place sameLine sameColumn, List.append_nil]
  · rw [longer] at sameLine sameColumn ⊢
    rw [eq_nil_of_same_place sameLine.symm sameColumn.symm, List.append_nil]

/-! ## Snippets -/

/-- The count of characters in front of the caret when a location is drawn. -/
def caret (location : Location) (radius : Nat) : Nat := min (location.column - 1) radius

/-- What is shown of a line, and the caret under the character behind an offset in it. -/
structure Shows (location : Location) (radius : Nat) (left right : List Char) : Prop where
  piece : location.snippet.toList <:+: left ++ right
  narrow : location.snippet.length ≤ 2 * radius + 1
  pointed : location.snippet.toList[location.caret radius]? = right.head?
  behind : location.caret radius = location.snippet.length ↔ right = []

/-- A line that is clipped around a column has the character of the column as far behind its start as
the column is, or as the radius is. -/
theorem getElem?_clipped (left right : List Char) (radius : Nat) :
    (((left ++ right).drop (left.length - radius)).take (radius * 2 + 1))[min left.length radius]? =
      right.head? := by
  have within : min left.length radius < radius * 2 + 1 := by omega
  have place : left.length - radius + min left.length radius = left.length := by omega
  rw [List.getElem?_take_of_lt within, List.getElem?_drop, place,
    List.getElem?_append_right (Nat.le_refl _), Nat.sub_self, List.head?_eq_getElem?]

theorem length_clipped (left : List Char) (radius : Nat) :
    ((left.drop (left.length - radius)).take (radius * 2 + 1)).length = min left.length radius := by
  rw [List.length_take, List.length_drop]
  omega

theorem shows_of_clipped {location : Location} {radius : Nat} {left right : List Char}
    (column : location.column = left.length + 1)
    (clipped : location.snippet = String.ofList
      (((left ++ right).drop (left.length - radius)).take (radius * 2 + 1))) :
    location.Shows radius left right := by
  have caret : location.caret radius = min left.length radius := by
    rw [Location.caret, column, Nat.add_sub_cancel]
  have pointed : location.snippet.toList[location.caret radius]? = right.head? := by
    rw [clipped, String.toList_ofList, caret, getElem?_clipped]
  refine ⟨?_, ?_, pointed, ?_, ?_⟩
  · rw [clipped, String.toList_ofList]
    exact (List.take_prefix _ _).isInfix.trans (List.drop_suffix _ _).isInfix
  · rw [clipped, String.length_ofList, Nat.mul_comm 2 radius]
    exact List.length_take_le _ _
  · intro atEnd
    rw [atEnd, List.getElem?_eq_none (Nat.le_of_eq String.length_toList)] at pointed
    exact List.head?_eq_none_iff.mp pointed.symm
  · rintro rfl
    rw [caret, clipped, String.length_ofList, List.append_nil, length_clipped]

/-- A location that shows something is drawn with the snippet and, in a line below that is indented
alike, the caret. -/
theorem render_of_nonempty (kind message : String) {location : Location} (radius : Nat)
    (shown : location.snippet.isEmpty = false) :
    ∃ head, location.render kind message radius =
      head ++ "   | " ++ location.snippet ++ "\n   | " ++
        String.ofList (List.replicate (location.caret radius) ' ') ++ "^\n" := by
  refine ⟨"error[" ++ kind ++ "]: " ++ message ++ "\n  --> line " ++ toString location.line ++
    ", column " ++ toString location.column ++ "\n" ++ "   |\n", ?_⟩
  simp [render, shown, caret, String.append_assoc]

/-- **The caret points at the character.** An offset is located at the last boundary of the text that
is not behind it. This divides the text; the line counts the line feeds before it, the column the
characters before it in its line, and both together determine it. The snippet is a piece of the line,
and the caret stands under the character at the located offset, or directly behind the snippet if the
line ends there; so it is drawn, if there is anything to draw it under. -/
theorem caret_points (source : String) (offset radius : Nat) :
    IsGreatest {place | IsBoundary source place ∧ place ≤ min offset source.utf8ByteSize}
      (locate source offset radius).offset ∧
    (∃ above left right below,
      Divides source (locate source offset radius).offset above left right below ∧
      (locate source offset radius).line = 1 + (above ++ left).count '\n' ∧
      (locate source offset radius).column = 1 + left.length ∧
      (locate source offset radius).Shows radius left right) ∧
    (∀ other radius', (locate source other radius').line = (locate source offset radius).line →
      (locate source other radius').column = (locate source offset radius).column →
      (locate source other radius').offset = (locate source offset radius).offset) ∧
    ∀ kind message, (locate source offset radius).snippet.isEmpty = false →
      ∃ head, (locate source offset radius).render kind message radius =
        head ++ "   | " ++ (locate source offset radius).snippet ++ "\n   | " ++
          String.ofList (List.replicate ((locate source offset radius).caret radius) ' ') ++
          "^\n" := by
  obtain ⟨above, left, right, below, divides, line, column, _, clipped⟩ :=
    exists_divides source offset radius
  refine ⟨Cursor.isGreatest_atOffset source offset, ⟨above, left, right, below, divides, ?_, ?_, ?_⟩,
    ?_, ?_⟩
  · rw [line, Nat.add_comm]
  · rw [column, Nat.add_comm]
  · exact shows_of_clipped column clipped
  · intro other radius' sameLine sameColumn
    exact offset_eq_of_line_column sameLine sameColumn
  · intro kind message shown
    exact render_of_nonempty kind message radius shown

/-- An offset inside of the last character of a second line is located at the start of the character,
like the offset before it, and with a radius of one this character is the second of two that are
shown. -/
theorem caret_points_second :
    locate "ab\nxyé" 6 1 = ⟨5, 2, 3, "yé"⟩ ∧ (locate "ab\nxyé" 5 7).offset = 5 ∧
      ∃ head, (locate "ab\nxyé" 6 1).render "k" "m" 1 = head ++ "   | yé\n   |  ^\n" := by
  have located : locate "ab\nxyé" 6 1 = ⟨5, 2, 3, "yé"⟩ := by decide +kernel
  have wider : locate "ab\nxyé" 5 7 = ⟨5, 2, 3, "xyé"⟩ := by decide +kernel
  obtain ⟨_, _, same, drawn⟩ := caret_points "ab\nxyé" 6 1
  refine ⟨located, ?_, ?_⟩
  · rw [same 5 7 (by rw [located, wider]) (by rw [located, wider]), located]
  · obtain ⟨head, drawn⟩ := drawn "k" "m" (by rw [located]; rfl)
    rw [located] at drawn ⊢
    exact ⟨head, drawn.trans (by simp [caret, String.append_assoc])⟩

end Location

end Mixfix
