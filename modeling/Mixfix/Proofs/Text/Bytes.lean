import Mixfix.Proofs.Text.Slices
import Mixfix.Text.Location

/-!
# Reading by byte offsets

A cursor carries what lies ahead of it, so it cannot stand inside of a character. A scanner is the
lower-level view: all it has is the source text and a byte offset, which it changes by adding and
storing numbers. What lies ahead of it is found by dividing the text at the offset, and this has a
result only where a character starts or the text ends (`splitAtByte`). A scanner stops without an
answer where it divides a text anywhere else, and also where the rounds that a loop of it is given
run out.

A scanner follows cursors if it answers at the offset of the one and leaves the offset of the other
(`Follows`), both in the source text. Scanners that follow cursors one after the other do so together
(`Follows.bind`), so a reader made of them never divides a text off a boundary.
-/

set_option autoImplicit false

namespace Mixfix

variable {α β : Type}

/-! ## Dividing at bytes -/

/-- Divides a text at a byte offset, if a character starts there or the text ends there. -/
def splitAtByte : Nat → List Char → Option (List Char × List Char)
  | 0, text => some ([], text)
  | _ + 1, [] => none
  | offset + 1, c :: text =>
    if c.utf8Size ≤ offset + 1 then
      (splitAtByte (offset + 1 - c.utf8Size) text).map fun parts => (c :: parts.1, parts.2)
    else none

/-- A text is divided behind any of its beginnings. -/
theorem splitAtByte_byteLength (before after : List Char) :
    splitAtByte (byteLength before) (before ++ after) = some (before, after) := by
  induction before with
  | nil => cases after <;> rfl
  | cons c before ih =>
      obtain ⟨size, same⟩ := Nat.exists_eq_add_one.mpr
        (Nat.add_pos_left c.utf8Size_pos (byteLength before))
      have behind : size + 1 - c.utf8Size = byteLength before := by omega
      rw [byteLength_cons, same, List.cons_append, splitAtByte, if_pos (by omega), behind, ih]
      rfl

/-- Only there a text is divided. -/
theorem eq_of_splitAtByte {offset : Nat} {text before after : List Char}
    (divided : splitAtByte offset text = some (before, after)) :
    text = before ++ after ∧ byteLength before = offset := by
  induction text generalizing offset before with
  | nil =>
      cases offset with
      | zero =>
          cases divided
          exact ⟨rfl, rfl⟩
      | succ offset => cases divided
  | cons c text ih =>
      cases offset with
      | zero =>
          cases divided
          exact ⟨rfl, rfl⟩
      | succ offset =>
          rw [splitAtByte] at divided
          split at divided
          · next fits =>
              obtain ⟨⟨front, rest⟩, inner, same⟩ := Option.map_eq_some_iff.mp divided
              cases same
              obtain ⟨rfl, counted⟩ := ih inner
              rw [byteLength_cons, counted]
              exact ⟨rfl, by omega⟩
          · cases divided

/-! ## Offsets of cursors -/

namespace Cursor

variable {source : String} {cursor next : Cursor}

/-- Dividing a text at the offset of a cursor gives what lies ahead of it. -/
theorem LiesIn.splitAtByte (inside : cursor.LiesIn source) :
    ∃ before, Mixfix.splitAtByte cursor.offset source.toList = some (before, cursor.rest) ∧
      cursor.offset = byteLength before := by
  obtain ⟨before, whole, counted⟩ := inside
  exact ⟨before, by rw [counted, whole, splitAtByte_byteLength], counted⟩

/-- Walking up to a boundary stops at it. -/
theorem walk_byteLength (before after : List Char) (position : Nat) :
    atOffset.walk (position + byteLength before) position (before ++ after) =
      ⟨position + byteLength before, after⟩ := by
  induction before generalizing position with
  | nil =>
      cases after with
      | nil => rfl
      | cons c after =>
          have positive := c.utf8Size_pos
          rw [List.nil_append, atOffset.walk, if_neg]
          · rfl
          · simp only [byteLength, List.foldr_nil]
            omega
  | cons c before ih =>
      rw [byteLength_cons, List.cons_append, atOffset.walk, if_pos (by omega), ← Nat.add_assoc]
      exact ih (position + c.utf8Size)

/-- The cursor at the offset of a cursor in a text is this one. -/
theorem LiesIn.atOffset (inside : cursor.LiesIn source) : atOffset source cursor.offset = cursor := by
  obtain ⟨before, whole, counted⟩ := inside
  have walked := walk_byteLength before cursor.rest 0
  rw [Nat.zero_add, ← counted, ← whole] at walked
  exact walked

/-- Nothing lies ahead of a cursor exactly where the bytes of the text end. -/
theorem LiesIn.isEmpty_rest (inside : cursor.LiesIn source) :
    cursor.rest.isEmpty = decide (source.utf8ByteSize ≤ cursor.offset) := by
  have counted := (inside.advance cursor.rest.length).offset_eq (List.drop_length)
  rw [Cursor.advance, List.take_length] at counted
  have bytes := length_le_byteLength cursor.rest
  cases ahead : cursor.rest with
  | nil =>
      rw [ahead] at counted
      exact (decide_eq_true (Nat.le_of_eq counted.symm)).symm
  | cons c rest =>
      rw [ahead, List.length_cons] at bytes
      rw [ahead] at counted
      simp only at counted
      exact (decide_eq_false (by omega)).symm

/-- The cursor before a tail of what lies ahead. -/
def upTo (cursor : Cursor) (behind : List Char) : Cursor :=
  cursor.advance (cursor.rest.length - behind.length)

theorem rest_upTo {behind : List Char} (tail : behind <:+ cursor.rest) :
    (cursor.upTo behind).rest = behind := by
  obtain ⟨before, whole⟩ := tail
  have count : cursor.rest.length - behind.length = before.length := by
    rw [← whole, List.length_append, Nat.add_sub_cancel]
  rw [upTo, advance, count, ← whole, List.drop_left]

theorem upTo_upTo {middle behind : List Char} (tail : middle <:+ cursor.rest)
    (tail' : behind <:+ middle) : (cursor.upTo middle).upTo behind = cursor.upTo behind := by
  have le := tail.length_le
  have le' := tail'.length_le
  rw [upTo, rest_upTo tail, upTo, advance_advance, upTo]
  congr 1
  omega

theorem spells_upTo {text behind : List Char} (whole : cursor.rest = text ++ behind) :
    cursor.Spells text (cursor.upTo behind) := by
  have count : cursor.rest.length - behind.length = text.length := by
    rw [whole, List.length_append, Nat.add_sub_cancel]
  rw [upTo, count]
  exact spells_of_prefix ⟨behind, whole.symm⟩

/-- Before what lies behind the character ahead. -/
theorem upTo_tail {c : Char} {rest : List Char} (ahead : cursor.rest = c :: rest) :
    cursor.upTo rest = cursor.advance 1 := by
  rw [upTo, ahead, List.length_cons, Nat.add_sub_cancel_left]

@[simp]
theorem upTo_rest (cursor : Cursor) : cursor.upTo cursor.rest = cursor := by
  rw [upTo, Nat.sub_self, advance_zero]

theorem skipWhile_eq_upTo (test : Char → Bool) (cursor : Cursor) :
    cursor.skipWhile test = cursor.upTo (cursor.rest.dropWhile test) := by
  have whole := congrArg List.length (cursor.rest.takeWhile_append_dropWhile (p := test))
  rw [List.length_append] at whole
  rw [skipWhile, upTo]
  congr 1
  omega

end Cursor

/-! ## Scanners -/

/-- A way of reading a text that has a byte offset for its only state. -/
abbrev Scanner (α : Type) := StateT Nat Option α

namespace Scanner

section Primitives

variable (source : String)

/-- Divides a text at a byte offset, or stops. -/
def divide (offset : Nat) (text : List Char) : Scanner (List Char × List Char) := fun position =>
  (splitAtByte offset text).map fun parts => (parts, position)

/-- What lies ahead. -/
def rest : Scanner (List Char) := do
  let parts ← divide (← get) source.toList
  return parts.2

/-- The text from an offset up to the one of the scanner. -/
def since (start : Nat) : Scanner (List Char) := do
  let parts ← divide (← get) source.toList
  let inner ← divide start parts.1
  return inner.2

/-- The character ahead. -/
def current : Scanner (Option Char) := return (← rest source).head?

/-- The character ahead behind the given count of others. -/
def peek (count : Nat) : Scanner (Option Char) := return (← rest source)[count]?

/-- Adds a count of bytes to the offset. -/
def jump (bytes : Nat) : Scanner Unit := modify (· + bytes)

/-- Moves past the character ahead, if there is one. -/
def advance : Scanner Unit := do
  match ← current source with
  | some c => jump c.utf8Size
  | none => pure ()

/-- Moves past characters that satisfy a test and counts them, in as many rounds as are given. -/
def skipRounds (test : Char → Bool) : Nat → Scanner Nat
  | 0 => failure
  | rounds + 1 => do
    if (← current source).any test then do
      advance source
      return (← skipRounds test rounds) + 1
    else return 0

/-- Moves past characters that satisfy a test and counts them. -/
def skip (test : Char → Bool) : Scanner Nat := skipRounds source test (source.toList.length + 1)

end Primitives

/-! ## Following cursors -/

/-- At the offset of a cursor in the source text the scanner answers, and leaves the offset of
another cursor in it. -/
def Follows (source : String) (scanner : Scanner α) (cursor : Cursor) (answer : α)
    (next : Cursor) : Prop :=
  cursor.LiesIn source →
    next.LiesIn source ∧ scanner.run cursor.offset = some (answer, next.offset)

namespace Follows

variable {source : String} {cursor middle next : Cursor} {first : Scanner α} {then' : α → Scanner β}
  {a : α} {b : β}

theorem of_pure (a : α) : Follows source (pure a) cursor a cursor := fun inside => ⟨inside, rfl⟩

/-- Scanners that follow cursors one after the other. -/
theorem bind (start : Follows source first cursor a middle)
    (further : Follows source (then' a) middle b next) :
    Follows source (first >>= then') cursor b next := by
  intro inside
  obtain ⟨insideMiddle, ran⟩ := start inside
  obtain ⟨insideNext, ran'⟩ := further insideMiddle
  refine ⟨insideNext, ?_⟩
  rw [StateT.run_bind, ran]
  exact ran'

/-- A condition that holds leaves the first of two scanners. -/
theorem yes {condition : Prop} [Decidable condition] (holds : condition) {scanner other : Scanner α}
    (follows : Follows source scanner cursor a next) :
    Follows source (if condition then scanner else other) cursor a next := by
  rwa [if_pos holds]

theorem no {condition : Prop} [Decidable condition] (fails : ¬ condition) {scanner other : Scanner α}
    (follows : Follows source other cursor a next) :
    Follows source (if condition then scanner else other) cursor a next := by
  rwa [if_neg fails]

/-- The offset of the scanner is the one of the cursor. -/
theorem get : Follows source (MonadState.get : Scanner Nat) cursor cursor.offset cursor :=
  fun inside => ⟨inside, rfl⟩

/-- Storing the offset of a cursor in the text goes to the cursor. -/
theorem set (inside : next.LiesIn source) :
    Follows source (MonadStateOf.set next.offset : Scanner PUnit) cursor ⟨⟩ next :=
  fun _ => ⟨inside, rfl⟩

theorem divide {offset : Nat} {text : List Char} {parts : List Char × List Char}
    (divided : splitAtByte offset text = some parts) :
    Follows source (Scanner.divide offset text) cursor parts cursor := by
  intro inside
  refine ⟨inside, ?_⟩
  show (splitAtByte offset text).map _ = _
  rw [divided]
  rfl

theorem rest : Follows source (Scanner.rest source) cursor cursor.rest cursor := by
  intro inside
  obtain ⟨before, divided, _⟩ := inside.splitAtByte
  exact get.bind ((divide divided).bind (of_pure _)) inside

/-- The text from a cursor up to one behind it. -/
theorem since {text : List Char} (inside : cursor.LiesIn source) (spells : cursor.Spells text next) :
    Follows source (Scanner.since source cursor.offset) next text next := by
  obtain ⟨before, whole, counted⟩ := inside
  have divided : splitAtByte next.offset source.toList = some (before ++ text, next.rest) := by
    rw [spells.2, counted, ← byteLength_append, whole, spells.1, ← List.append_assoc,
      splitAtByte_byteLength]
  have inner : splitAtByte cursor.offset (before ++ text) = some (before, text) := by
    rw [counted, splitAtByte_byteLength]
  exact get.bind ((divide divided).bind ((divide inner).bind (of_pure _)))

theorem current : Follows source (Scanner.current source) cursor cursor.rest.head? cursor :=
  rest.bind (of_pure _)

theorem peek (count : Nat) : Follows source (Scanner.peek source count) cursor cursor.rest[count]?
    cursor :=
  rest.bind (of_pure _)

/-- Adding the bytes of a text that stands ahead moves past it. -/
theorem jump {text : List Char} (spells : cursor.Spells text next) :
    Follows source (Scanner.jump (byteLength text)) cursor () next := by
  intro inside
  refine ⟨inside.spells spells, ?_⟩
  show some ((), cursor.offset + byteLength text) = _
  rw [spells.2]

theorem advance : Follows source (Scanner.advance source) cursor () (cursor.advance 1) := by
  refine current.bind ?_
  obtain ⟨offset, rest⟩ := cursor
  cases rest with
  | nil => exact of_pure ()
  | cons c rest =>
      have spells : Cursor.Spells ⟨offset, c :: rest⟩ [c] (Cursor.advance ⟨offset, c :: rest⟩ 1) :=
        ⟨rfl, rfl⟩
      exact jump spells

theorem skipRounds (test : Char → Bool) {rounds : Nat} (enough : cursor.rest.length < rounds) :
    Follows source (Scanner.skipRounds source test rounds) cursor
      (cursor.rest.takeWhile test).length (cursor.skipWhile test) := by
  induction rounds generalizing cursor with
  | zero => exact absurd enough (Nat.not_lt_zero _)
  | succ rounds ih =>
      obtain ⟨offset, _ | ⟨c, rest⟩⟩ := cursor
      · exact current.bind (of_pure 0)
      · by_cases holds : test c = true
        · have later := @ih ((⟨offset, c :: rest⟩ : Cursor).advance 1) (Nat.lt_of_succ_lt_succ enough)
          rw [Cursor.skipWhile, Cursor.advance_advance, Nat.add_comm] at later
          rw [Cursor.skipWhile, List.takeWhile_cons_of_pos holds, List.length_cons]
          exact current.bind (yes holds (advance.bind (later.bind (of_pure _))))
        · rw [Cursor.skipWhile, List.takeWhile_cons_of_neg holds, List.length_nil,
            Cursor.advance_zero]
          exact current.bind (no holds (of_pure 0))

/-- The rounds of a scanner are enough to come to the end of the text. -/
theorem skip (test : Char → Bool) :
    Follows source (Scanner.skip source test) cursor (cursor.rest.takeWhile test).length
      (cursor.skipWhile test) := by
  intro inside
  refine skipRounds test ?_ inside
  obtain ⟨before, whole, _⟩ := inside
  rw [whole, List.length_append]
  omega

end Follows

end Scanner

end Mixfix
