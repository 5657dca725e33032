import Mixfix.Proofs.Text.Bytes
import Mixfix.Proofs.Text.Clipping

/-!
# Readers as scanners

Every reader of lexemes once more as a scanner: with the steps from character to character, the
slices that it takes from the source text, the counts of bytes that it adds, and the offsets that it
stores to go back. A scanner that finds nothing goes back by itself, while the reader leaves this to
whoever asks; and a scanner takes the text of a number or a word from the source by its offsets,
while the reader divides what lies ahead.

Each of them follows its reader from every cursor in the source text (`FollowsReader`). It gives the
same content and the same span, it leaves the offset behind the lexeme or else behind the blanks,
and, above all, it has an answer: nothing in it divides a text off a boundary.
-/

set_option autoImplicit false

namespace Mixfix.Scanner

variable {α : Type}

/-! ## Blanks -/

section Definitions

variable (source : String)

/-- Moves past characters that satisfy a test. -/
def skipAll (test : Char → Bool) : Scanner Unit := do
  let _ ← skip source test
  return ()

/-- Moves past blanks. -/
def skipBlanks : Scanner Unit := skipAll source Cursor.isBlank

/-- Whether only blanks lie ahead. -/
def atEnd : Scanner Bool := do
  skipBlanks source
  return decide (source.utf8ByteSize ≤ (← get))

/-- What lies ahead after blanks, for messages. -/
def describe : Scanner String := do
  skipBlanks source
  match ← rest source with
  | [] => return "end of input"
  | ahead =>
    let word := (ahead.takeWhile fun c => !Unicode.isWhiteSpace c).take 12
    return "`" ++ String.ofList word ++ "`"

/-! ## Numbers -/

/-- Moves past a minus. -/
def minus : Scanner Unit := do
  if (← current source) = some '-' then advance source else return ()

/-- Moves past a sign. -/
def sign : Scanner Unit := do
  let mark ← current source
  if mark = some '+' || mark = some '-' then advance source else return ()

/-- Moves past digits and counts them. -/
def digits : Scanner Nat := skip source Unicode.isAsciiDigit

/-- Moves past a point with digits behind it. -/
def fraction : Scanner Unit := do
  let point ← current source
  let digit ← peek source 1
  if point = some '.' && digit.any Unicode.isAsciiDigit then do
    advance source
    let _ ← digits source
    return ()
  else return ()

/-- Moves past the mark of an exponent with digits behind it, or goes back before the mark. -/
def exponent : Scanner Unit := do
  let mark ← current source
  if mark = some 'e' || mark = some 'E' then do
    let start ← get
    advance source
    sign source
    if (← digits source) = 0 then set start else return ()
  else return ()

/-- The value of the text since an offset, if it is a number, or back to this offset. -/
def measured (start : Nat) : Scanner (Option (Value × Span)) := do
  match Lexeme.splitNumber (← since source start) with
  | some (parts, []) => return some (parts.value, ⟨start, ← get⟩)
  | _ => do
    set start
    return none

/-- The number ahead, after blanks. -/
def number : Scanner (Option (Value × Span)) := do
  skipBlanks source
  let start ← get
  minus source
  if (← digits source) = 0 then do
    set start
    return none
  else do
    fraction source
    exponent source
    measured source start

/-! ## Words -/

/-- The text since an offset with a span from another offset. -/
def word (textStart start : Nat) : Scanner (Option (String × Span)) := do
  return some (String.ofList (← since source textStart), ⟨start, ← get⟩)

/-- The identifier ahead, after blanks. -/
def identifier : Scanner (Option (String × Span)) := do
  skipBlanks source
  let start ← get
  if (← current source).any Unicode.isAlphabetic then do
    skipAll source Lexeme.isWordChar
    word source start start
  else return none

/-- The segment of a dotted path directly ahead. -/
def segment : Scanner (Option (String × Span)) := do
  let start ← get
  let point ← current source
  let letter ← peek source 1
  if point = some '.' && letter.any Unicode.isAlphabetic then do
    advance source
    let textStart ← get
    skipAll source Lexeme.isWordChar
    word source textStart start
  else return none

/-! ## Exact texts -/

/-- Whether a text that stands ahead may end there. -/
def endsAhead (text : List Char) : Scanner Bool := do
  let parts ← divide (byteLength text) (← rest source)
  return Lexeme.endsAt text parts.2

/-- Whether a text stands directly ahead as a word or mark of its own. -/
def standsAhead (text : List Char) : Scanner Bool := do
  if text.isPrefixOf (← rest source) then endsAhead source text else return false

/-- Whether one of the given texts extends a text and stands ahead as well. -/
def isShadowed (text : List Char) : List String → Scanner Bool
  | [] => return false
  | token :: tokens => do
    let longer := token.toList
    if byteLength text < byteLength longer && text.isPrefixOf longer then do
      if ← standsAhead source longer then return true else isShadowed text tokens
    else isShadowed text tokens

/-- Moves past the bytes of a text. -/
def taken (content : α) (text : List Char) : Scanner (Option (α × Span)) := do
  let start ← get
  jump (byteLength text)
  return some (content, ⟨start, ← get⟩)

/-- The keyword ahead, after blanks. -/
def keyword (keyword : Keyword) : Scanner (Option (Keyword × Span)) := do
  skipBlanks source
  if ← standsAhead source keyword.text.toList then taken keyword keyword.text.toList
  else return none

/-- The exact text ahead, after blanks, unless a longer registered text stands there. -/
def token (tokens : List String) (text : String) : Scanner (Option (String × Span)) := do
  skipBlanks source
  if ← standsAhead source text.toList then do
    if ← isShadowed source text.toList tokens then return none
    else taken text text.toList
  else return none

end Definitions

/-! ## Following readers -/

/-- The scanner tells the content and the span of the lexeme that was found from a cursor, and leaves
the offset behind it, or that of another cursor where none was found. -/
def FollowsReader (source : String) (scanner : Scanner (Option (α × Span))) (cursor missed : Cursor)
    (found : Option (Lexeme α)) : Prop :=
  Follows source scanner cursor (found.map fun lexeme => (lexeme.content, lexeme.span))
    ((found.map Lexeme.next).getD missed)

variable {source : String} {cursor next : Cursor}

theorem follows_skipAll (test : Char → Bool) :
    Follows source (skipAll source test) cursor () (cursor.skipWhile test) :=
  (Follows.skip test).bind (.of_pure ())

theorem follows_skipBlanks : Follows source (skipBlanks source) cursor () cursor.skipBlanks :=
  follows_skipAll Cursor.isBlank

theorem follows_atEnd : Follows source (atEnd source) cursor cursor.atEnd cursor.skipBlanks := by
  intro inside
  have ended := (inside.reaches cursor.reaches_skipBlanks).isEmpty_rest
  refine follows_skipBlanks.bind (Follows.get.bind ?_) inside
  rw [← ended]
  exact .of_pure _

theorem follows_describe :
    Follows source (describe source) cursor cursor.upcoming cursor.skipBlanks := by
  refine follows_skipBlanks.bind (Follows.rest.bind ?_)
  rw [Cursor.upcoming]
  cases cursor.skipBlanks.rest with
  | nil => exact .of_pure _
  | cons c rest => exact .of_pure _

/-! ### Numbers -/

section Numbers

open Lexeme Unicode

theorem suffix_splitMinus (text : List Char) : (splitMinus text).2 <:+ text := by
  unfold splitMinus
  split
  · exact List.suffix_cons _ _
  · exact List.suffix_rfl

theorem suffix_splitSign (text : List Char) : (splitSign text).2 <:+ text := by
  unfold splitSign
  split
  · exact List.suffix_cons _ _
  · exact List.suffix_cons _ _
  · exact List.suffix_rfl

theorem suffix_splitDigits (text : List Char) : (splitDigits text).2 <:+ text :=
  List.dropWhile_suffix _

/-- A scanner that moves up to a tail of what lies ahead, wherever it stands, does so from any place
between a cursor and the end of the text. -/
theorem Follows.upTo {scanner : Scanner α} (answer : List Char → α) {split : List Char → List Char}
    (follows : ∀ cursor, Follows source scanner cursor (answer cursor.rest)
      (cursor.upTo (split cursor.rest)))
    (suffix : ∀ text, split text <:+ text) {middle : List Char} (tail : middle <:+ cursor.rest) :
    Follows source scanner (cursor.upTo middle) (answer middle) (cursor.upTo (split middle)) := by
  have here := follows (cursor.upTo middle)
  rwa [Cursor.rest_upTo tail, Cursor.upTo_upTo tail (suffix middle)] at here

theorem follows_advance {c : Char} {rest : List Char} (ahead : cursor.rest = c :: rest) :
    Follows source (advance source) cursor () (cursor.upTo rest) := by
  rw [Cursor.upTo_tail ahead]
  exact .advance

/-- Nothing to do moves up to all that lies ahead. -/
theorem follows_stay {text : List Char} (ahead : cursor.rest = text) :
    Follows source (pure ()) cursor () (cursor.upTo text) := by
  rw [← ahead, Cursor.upTo_rest]
  exact .of_pure ()

/-- Digits lie ahead exactly if the first character is one. -/
theorem head_of_splitDigits {text : List Char} :
    (splitDigits text).1 = [] ↔ text.head?.any isAsciiDigit = false := by
  cases text with
  | nil => exact iff_of_true rfl rfl
  | cons c text => cases digit : isAsciiDigit c <;> simp [splitDigits, digit]

theorem follows_minus (cursor : Cursor) :
    Follows source (minus source) cursor () (cursor.upTo (splitMinus cursor.rest).2) := by
  refine Follows.current.bind ?_
  cases ahead : cursor.rest with
  | nil => exact .no nofun (follows_stay ahead)
  | cons c rest =>
      by_cases dash : c = '-'
      · subst dash
        exact .yes rfl (follows_advance ahead)
      · rw [splitMinus_of_ne dash]
        exact .no (by simpa using dash) (follows_stay ahead)

variable {middle : List Char}

theorem follows_digits (tail : middle <:+ cursor.rest) :
    Follows source (digits source) (cursor.upTo middle) (splitDigits middle).1.length
      (cursor.upTo (splitDigits middle).2) := by
  refine Follows.upTo (fun text => (splitDigits text).1.length) (fun cursor => ?_)
    suffix_splitDigits tail
  rw [splitDigits, ← Cursor.skipWhile_eq_upTo]
  exact .skip isAsciiDigit

theorem follows_sign (tail : middle <:+ cursor.rest) :
    Follows source (sign source) (cursor.upTo middle) () (cursor.upTo (splitSign middle).2) := by
  refine Follows.upTo (fun _ => ()) (fun cursor => Follows.current.bind ?_) suffix_splitSign tail
  cases ahead : cursor.rest with
  | nil => exact .no nofun (follows_stay ahead)
  | cons c rest =>
      by_cases plus : c = '+'
      · subst plus
        exact .yes rfl (follows_advance ahead)
      · by_cases dash : c = '-'
        · subst dash
          exact .yes rfl (follows_advance ahead)
        · rw [splitSign_of_ne plus dash]
          exact .no (by simp [plus, dash]) (follows_stay ahead)

theorem suffix_splitFraction (text : List Char) : (splitFraction text).2 <:+ text := by
  unfold splitFraction
  split
  · next rest =>
      split
      · exact List.suffix_rfl
      · next behind _ divided =>
          have tail := suffix_splitDigits rest
          rw [divided] at tail
          exact tail.trans (List.suffix_cons _ _)
  · exact List.suffix_rfl

theorem follows_fraction (tail : middle <:+ cursor.rest) :
    Follows source (fraction source) (cursor.upTo middle) ()
      (cursor.upTo (splitFraction middle).2) := by
  refine Follows.upTo (fun _ => ()) (fun cursor => ?_) suffix_splitFraction tail
  refine Follows.current.bind ((Follows.peek 1).bind ?_)
  cases ahead : cursor.rest with
  | nil => exact .no nofun (follows_stay ahead)
  | cons c rest =>
      by_cases point : c = '.'
      · subst point
        have skipped := @follows_digits source cursor rest (ahead ▸ List.suffix_cons '.' rest)
        rcases divided : splitDigits rest with ⟨_ | ⟨digit, more⟩, behind⟩
        · have none : rest.head?.any isAsciiDigit = false := head_of_splitDigits.mp (by rw [divided])
          simp only [splitFraction, divided]
          exact .no (by cases rest <;> simp_all) (follows_stay ahead)
        · have one : rest.head?.any isAsciiDigit = true := by
            rw [← Bool.not_eq_false, ← head_of_splitDigits, divided]
            exact List.cons_ne_nil _ _
          rw [divided] at skipped
          simp only [splitFraction, divided]
          refine .yes (by cases rest <;> simp_all) ((follows_advance ahead).bind ?_)
          exact skipped.bind (.of_pure ())
      · rw [splitFraction_of_ne point]
        exact .no (by simp [point]) (follows_stay ahead)

theorem suffix_splitExponent (text : List Char) : (splitExponent text).2 <:+ text := by
  unfold splitExponent
  split
  · exact List.suffix_rfl
  · next mark rest =>
      split
      · have tail := (suffix_splitDigits (splitSign rest).2).trans (suffix_splitSign rest)
        dsimp only
        split
        · exact List.suffix_rfl
        · next behind _ divided =>
            rw [divided] at tail
            exact tail.trans (List.suffix_cons _ _)
      · exact List.suffix_rfl

theorem follows_exponent (tail : middle <:+ cursor.rest) :
    Follows source (exponent source) (cursor.upTo middle) ()
      (cursor.upTo (splitExponent middle).2) := by
  refine Follows.upTo (fun _ => ()) (fun cursor inside => ?_) suffix_splitExponent tail
  refine Follows.current.bind ?_ inside
  cases ahead : cursor.rest with
  | nil => exact .no nofun (follows_stay ahead)
  | cons mark rest =>
      by_cases marked : (mark = 'e' || mark = 'E') = true
      · have tail : rest <:+ cursor.rest := ahead ▸ List.suffix_cons _ _
        have skipped := @follows_digits source cursor _ ((suffix_splitSign rest).trans tail)
        refine .yes (by simpa using marked) (Follows.get.bind ((follows_advance ahead).bind ?_))
        refine (follows_sign tail).bind (skipped.bind ?_)
        simp only [splitExponent, if_pos marked]
        rcases divided : splitDigits (splitSign rest).2 with ⟨_ | ⟨digit, more⟩, behind⟩
        · rw [← ahead, Cursor.upTo_rest]
          exact .yes rfl (.set inside)
        · refine .no (Nat.succ_ne_zero _) ?_
          exact .of_pure ()
      · rw [splitExponent, if_neg marked]
        exact .no (by simpa using marked) (follows_stay ahead)

/-- The text up to what is left behind a number is this number and nothing else. -/
theorem follows_measured {parts : NumberParts} {behind : List Char} (inside : cursor.LiesIn source)
    (divided : splitNumber cursor.rest = some (parts, behind)) (tail : behind <:+ cursor.rest) :
    Follows source (measured source cursor.offset) (cursor.upTo behind)
      (some (parts.value, ⟨cursor.offset, (cursor.upTo behind).offset⟩)) (cursor.upTo behind) := by
  obtain ⟨text, whole⟩ := tail
  rw [← whole] at divided
  refine (Follows.since inside (Cursor.spells_upTo whole.symm)).bind ?_
  rw [splitNumber_own divided]
  exact Follows.get.bind (.of_pure _)

theorem follows_number :
    FollowsReader source (number source) cursor cursor.skipBlanks (number? cursor) := by
  intro inside
  have insideStart := inside.reaches cursor.reaches_skipBlanks
  refine follows_skipBlanks.bind (Follows.get.bind ?_) inside
  rw [number?]
  generalize cursor.skipBlanks = start at insideStart ⊢
  refine (follows_minus start).bind ((follows_digits (suffix_splitMinus _)).bind ?_)
  have tail := (suffix_splitDigits (splitMinus start.rest).2).trans (suffix_splitMinus start.rest)
  rcases digits : splitDigits (splitMinus start.rest).2 with ⟨_ | ⟨digit, more⟩, afterWhole⟩
  · have missed : splitNumber start.rest = none := by simp only [splitNumber, digits]
    rw [missed]
    exact .yes rfl ((Follows.set insideStart).bind (.of_pure none))
  · rw [digits] at tail
    have tail' := (suffix_splitFraction afterWhole).trans tail
    obtain ⟨parts, found⟩ : ∃ parts, splitNumber start.rest =
        some (parts, (splitExponent (splitFraction afterWhole).2).2) :=
      ⟨_, by simp only [splitNumber, digits]; rfl⟩
    rw [found]
    refine .no (Nat.succ_ne_zero _) ((follows_fraction tail).bind ((follows_exponent tail').bind ?_))
    exact follows_measured insideStart found ((suffix_splitExponent _).trans tail')

end Numbers

/-! ### Words -/

section Words

open Lexeme

/-- The characters that satisfy a test are the text up to the first one that does not. -/
theorem spells_skipWhile (test : Char → Bool) (cursor : Cursor) :
    cursor.Spells (cursor.rest.takeWhile test) (cursor.skipWhile test) :=
  Cursor.spells_of_prefix (List.takeWhile_prefix test)

theorem follows_word {text : List Char} {start : Nat} (inside : cursor.LiesIn source)
    (spells : cursor.Spells text next) :
    Follows source (word source cursor.offset start) next
      (some (String.ofList text, ⟨start, next.offset⟩)) next :=
  (Follows.since inside spells).bind (Follows.get.bind (.of_pure _))

theorem follows_identifier :
    FollowsReader source (identifier source) cursor cursor.skipBlanks (identifier? cursor) := by
  intro inside
  have insideStart := inside.reaches cursor.reaches_skipBlanks
  refine follows_skipBlanks.bind (Follows.get.bind (Follows.current.bind ?_)) inside
  cases found : identifier? cursor with
  | some lexeme =>
      obtain ⟨⟨c, rest, ahead, letter⟩, rfl⟩ := identifier?_eq_some_iff.mp found
      refine .yes (by rw [ahead]; exact letter) ((follows_skipAll isWordChar).bind ?_)
      exact follows_word insideStart (spells_skipWhile isWordChar _)
  | none =>
      refine .no (fun letter => ?_) (.of_pure none)
      rcases ahead : cursor.skipBlanks.rest with _ | ⟨c, rest⟩
      · simp [ahead] at letter
      · rw [ahead] at letter
        cases found.symm.trans (identifier?_eq_some_iff.mpr ⟨⟨c, rest, ahead, letter⟩, rfl⟩)

theorem follows_segment : FollowsReader source (segment source) cursor cursor (segment? cursor) := by
  intro inside
  refine Follows.get.bind (Follows.current.bind ((Follows.peek 1).bind ?_)) inside
  cases found : segment? cursor with
  | some lexeme =>
      obtain ⟨c, rest, ahead, letter, rfl⟩ := segment?_eq_some_iff.mp found
      have moved : (cursor.advance 1).rest = c :: rest := by rw [Cursor.advance, ahead]; rfl
      have spells := spells_skipWhile isWordChar (cursor.advance 1)
      have behind : (cursor.advance 1).skipWhile isWordChar =
          cursor.advance (((c :: rest).takeWhile isWordChar).length + 1) := by
        rw [Cursor.skipWhile, moved, Cursor.advance_advance, Nat.add_comm]
      rw [moved, behind] at spells
      refine .yes (by simp [ahead, letter]) (Follows.advance.bind (Follows.get.bind
        ((follows_skipAll isWordChar).bind ?_)))
      rw [behind]
      exact follows_word (inside.advance 1) spells
  | none =>
      refine .no (fun both => ?_) (.of_pure none)
      rcases ahead : cursor.rest with _ | ⟨point, _ | ⟨c, rest⟩⟩
      · simp [ahead] at both
      · simp [ahead] at both
      · simp only [ahead, List.head?_cons, Option.some.injEq, Bool.and_eq_true,
          decide_eq_true_eq] at both
        obtain ⟨rfl, letter⟩ := both
        cases found.symm.trans (segment?_eq_some_iff.mpr ⟨c, rest, ahead, letter, rfl⟩)

/-! ### Exact texts -/

theorem follows_endsAhead {text : List Char} (stands : text <+: cursor.rest) :
    Follows source (endsAhead source text) cursor
      (endsAt text (cursor.rest.drop text.length)) cursor := by
  obtain ⟨behind, whole⟩ := stands
  have divided : splitAtByte (byteLength text) cursor.rest = some (text, behind) := by
    rw [← whole, splitAtByte_byteLength]
  refine Follows.rest.bind ((Follows.divide divided).bind ?_)
  rw [← whole, List.drop_left]
  exact .of_pure _

theorem follows_standsAhead (text : List Char) :
    Follows source (standsAhead source text) cursor (standsAt text cursor) cursor := by
  refine Follows.rest.bind ?_
  rw [standsAt]
  cases stands : text.isPrefixOf cursor.rest with
  | true =>
      rw [Bool.true_and]
      exact .yes rfl (follows_endsAhead (List.isPrefixOf_iff_prefix.mp stands))
  | false => exact .no Bool.false_ne_true (.of_pure false)

theorem isShadowed_cons (token : String) (tokens : List String) (text : List Char)
    (cursor : Cursor) :
    Lexeme.isShadowed (token :: tokens) text cursor =
      (decide (text.length < token.toList.length) && text.isPrefixOf token.toList &&
        standsAt token.toList cursor || Lexeme.isShadowed tokens text cursor) :=
  rfl

theorem follows_isShadowed (text : List Char) (tokens : List String) :
    Follows source (isShadowed source text tokens) cursor (Lexeme.isShadowed tokens text cursor)
      cursor := by
  induction tokens with
  | nil => exact .of_pure false
  | cons token tokens ih =>
      have measured : (decide (byteLength text < byteLength token.toList) &&
          text.isPrefixOf token.toList) =
          (decide (text.length < token.toList.length) && text.isPrefixOf token.toList) := by
        cases extended : text.isPrefixOf token.toList with
        | false => rw [Bool.and_false, Bool.and_false]
        | true =>
            have begins := List.isPrefixOf_iff_prefix.mp extended
            rw [decide_eq_decide.mpr (Cursor.byteLength_lt_iff begins)]
      rw [isShadowed, measured, isShadowed_cons]
      cases decide (text.length < token.toList.length) && text.isPrefixOf token.toList with
      | false => exact .no Bool.false_ne_true ih
      | true =>
          refine .yes rfl ((follows_standsAhead token.toList).bind ?_)
          cases standsAt token.toList cursor with
          | false => exact .no Bool.false_ne_true ih
          | true => exact .yes rfl (.of_pure true)

theorem follows_taken {text : List Char} (content : α) (stands : text <+: cursor.rest) :
    Follows source (taken content text) cursor
      (some (content, ⟨cursor.offset, (cursor.advance text.length).offset⟩))
      (cursor.advance text.length) :=
  Follows.get.bind ((Follows.jump (Cursor.spells_of_prefix stands)).bind
    (Follows.get.bind (.of_pure _)))

theorem follows_keyword (keyword : Keyword) :
    FollowsReader source (Scanner.keyword source keyword) cursor cursor.skipBlanks
      (keyword? keyword cursor) := by
  refine follows_skipBlanks.bind ((follows_standsAhead _).bind ?_)
  rw [keyword?]
  cases stands : standsAt keyword.text.toList cursor.skipBlanks with
  | false => exact .no Bool.false_ne_true (.of_pure none)
  | true => exact .yes rfl (follows_taken keyword (prefix_of_standsAt stands))

theorem follows_token (tokens : List String) (text : String) :
    FollowsReader source (token source tokens text) cursor cursor.skipBlanks
      (token? tokens text cursor) := by
  refine follows_skipBlanks.bind ((follows_standsAhead _).bind ?_)
  rw [token?]
  cases stands : standsAt text.toList cursor.skipBlanks with
  | false => exact .no Bool.false_ne_true (.of_pure none)
  | true =>
      refine .yes rfl ((follows_isShadowed text.toList tokens).bind ?_)
      cases Lexeme.isShadowed tokens text.toList cursor.skipBlanks with
      | true => exact .yes rfl (.of_pure none)
      | false => exact .no Bool.false_ne_true (follows_taken text (prefix_of_standsAt stands))

end Words

end Mixfix.Scanner
