import Mathlib
import Mixfix.Descriptor.Reader
import Mixfix.Descriptor.Text
import Mixfix.Proofs.Binary64.Positional

/-!
# Numbers of descriptors are read back

The text of a finite number is read as a number equal to it: as a limit it is the number itself, up
to the sign of a zero, and as a value it has the same text again (`numberOf?_limitText`). The text of
an integer is read as the integer (`numberOf?_toString`), also where it is the text of another
number; so what is read is settled (`IsSettled`). Both are texts that the reader takes as a whole,
where no character of a number follows (`readNumber_written`).
-/

set_option autoImplicit false

namespace Mixfix.Descriptor

open Unicode (isAsciiDigit)
open Binary64 (infinityRank IsNearest)

/-! ## Texts of numbers -/

/-- A text of a number in a descriptor: a positional text, perhaps behind a minus. -/
def IsNumberText (text : List Char) : Prop :=
  ∃ (negative : Bool) (size : List Char),
    text = (if negative then '-' :: size else size) ∧ IsPositional size

theorem isNumberText_toString (n : Int) : IsNumberText (toString n).toList := by
  refine ⟨decide (n < 0), Nat.toDigits 10 n.natAbs, ?_, .whole _⟩
  rw [Numeral.toList_toString]
  by_cases below : n < 0 <;> simp [below]

theorem isNumberText_limitText {x : Binary64} (finite : x.isFinite = true) :
    IsNumberText x.limitText.toList := by
  cases x with
  | nan => cases finite
  | signed negative rank bounded =>
      have less : rank ≠ infinityRank := Nat.ne_of_lt (of_decide_eq_true finite)
      obtain ⟨size, text, positional, -⟩ :=
        @Binary64.positional_limitText negative rank bounded less
      exact ⟨_, size, text, positional⟩

variable {text behind : List Char}

theorem isNumberChar_digit {c : Char} (digit : isAsciiDigit c = true) : isNumberChar c = true := by
  simp [isNumberChar, digit]

theorem isNumberChar_of_positional (positional : IsPositional text) :
    ∀ c ∈ text, isNumberChar c = true := by
  intro c mem
  cases positional with
  | whole n => exact isNumberChar_digit (Numeral.digits_toDigits n c mem)
  | point nonempty isDigits =>
      rw [List.mem_append, List.mem_cons] at mem
      rcases mem with whole | rfl | fraction
      · exact isNumberChar_digit (isDigits c (List.mem_append_left _ whole))
      · rfl
      · exact isNumberChar_digit (isDigits c (List.mem_append_right _ fraction))

/-- A text of a number starts with a digit, or with a minus and a digit. -/
theorem IsNumberText.startsNumber {cursor : Cursor} (number : IsNumberText text)
    (written : cursor.rest = text ++ behind) : startsNumber cursor = true := by
  obtain ⟨negative, size, rfl, positional⟩ := number
  obtain ⟨c, rest, rfl, digit⟩ := positional.exists_digit
  rw [Descriptor.startsNumber, written]
  cases negative with
  | true => exact digit
  | false =>
      have notMinus : c ≠ '-' := by
        rintro rfl
        exact absurd digit (by decide)
      simp only [Bool.false_eq_true, if_false, List.cons_append]
      split
      · next same => exact absurd (List.cons.inj same).1 notMinus
      · next same => exact (List.cons.inj same).1 ▸ digit
      · next same => cases same

/-- The reader takes a text of a number as a whole. -/
theorem numberText_append (number : IsNumberText text)
    (ends : behind.head?.all (fun c => !isNumberChar c) = true) :
    numberText (text ++ behind) = text := by
  have stops : behind.takeWhile isNumberChar = [] := by
    cases behind with
    | nil => rfl
    | cons c behind =>
        have outside : isNumberChar c = false := by simpa using ends
        simp [outside]
  obtain ⟨negative, size, rfl, positional⟩ := number
  have chars := isNumberChar_of_positional positional
  have whole : (size ++ behind).takeWhile isNumberChar = size := by
    rw [List.takeWhile_append_of_pos chars, stops, List.append_nil]
  cases negative with
  | true =>
      simp only [if_true, List.cons_append, numberText, decide_true, Bool.true_or, whole]
  | false =>
      obtain ⟨c, rest, rfl, -⟩ := positional.exists_digit
      have first := chars c List.mem_cons_self
      rw [List.cons_append, List.takeWhile_cons_of_pos first] at whole
      simp only [Bool.false_eq_true, if_false, List.cons_append, numberText, first, Bool.or_true,
        if_true, whole]

theorem readNumber_written {cursor : Cursor} {number : Number} (isNumber : IsNumberText text)
    (found : numberOf? text = some number) (written : cursor.rest = text ++ behind)
    (ends : behind.head?.all (fun c => !isNumberChar c) = true) :
    ∃ next, readNumber cursor = .ok (number, next) ∧ next.rest = behind := by
  refine ⟨cursor.advance text.length, ?_, ?_⟩
  · simp only [readNumber, written, numberText_append isNumber ends, found]
  · rw [Cursor.advance, written, List.drop_left]

/-! ## Values of numbers -/

section Parts

variable (negative : Bool) {c : Char} {rest : List Char}

theorem head?_signed (digit : isAsciiDigit c = true) :
    ((if negative then '-' :: c :: rest else c :: rest).head? == some '-') = negative := by
  have notMinus : c ≠ '-' := by
    rintro rfl
    exact absurd digit (by decide)
  cases negative <;> simp [notMinus]

theorem numberOf?_whole (n : Nat) :
    numberOf? (if negative then '-' :: Nat.toDigits 10 n else Nat.toDigits 10 n) =
      some ⟨Numeral.nearest negative (Nat.toDigits 10 n) [] 0,
        ((Numeral.toInt64? (withSign negative n)).map Value.integer).getD
          (.float (Numeral.nearest negative (Nat.toDigits 10 n) [] 0))⟩ := by
  have isDigits := Numeral.digits_toDigits n
  have value := Numeral.value_toDigits n
  obtain ⟨c, rest, same, digit⟩ := Numeral.exists_toDigits n
  generalize Nat.toDigits 10 n = digits at isDigits value same ⊢
  subst same
  have unsigned : (if negative = true then
      (if negative then '-' :: c :: rest else c :: rest).drop 1
      else if negative then '-' :: c :: rest else c :: rest) = c :: rest := by
    cases negative <;> rfl
  simp only [numberOf?, head?_signed negative digit, unsigned,
    List.takeWhile_eq_self_iff.mpr isDigits, List.dropWhile_eq_nil_iff.mpr isDigits,
    List.isEmpty_cons, Bool.false_eq_true, if_false, value]
  cases Numeral.toInt64? (withSign negative n) <;> rfl

theorem numberOf?_point {whole fraction : List Char} (nonempty : whole ≠ [])
    (isDigits : ∀ c ∈ whole ++ fraction, isAsciiDigit c = true) :
    numberOf? (if negative then '-' :: (whole ++ '.' :: fraction) else whole ++ '.' :: fraction) =
      some ⟨Numeral.nearest negative whole fraction 0,
        .float (Numeral.nearest negative whole fraction 0)⟩ := by
  obtain ⟨c, rest, rfl⟩ := List.exists_cons_of_ne_nil nonempty
  have before : ∀ d ∈ c :: rest, isAsciiDigit d = true :=
    fun d mem => isDigits d (List.mem_append_left _ mem)
  have after : fraction.all isAsciiDigit = true :=
    List.all_eq_true.mpr fun d mem => isDigits d (List.mem_append_right _ mem)
  have digit := before c List.mem_cons_self
  have unsigned : (if negative = true then
      (if negative then '-' :: c :: (rest ++ '.' :: fraction)
        else c :: (rest ++ '.' :: fraction)).drop 1
      else if negative then '-' :: c :: (rest ++ '.' :: fraction)
        else c :: (rest ++ '.' :: fraction)) = c :: rest ++ '.' :: fraction := by
    cases negative <;> rfl
  have point : isAsciiDigit '.' = false := by decide
  simp only [numberOf?, List.cons_append, head?_signed negative digit, unsigned]
  rw [← List.cons_append, List.takeWhile_append_of_pos before, List.dropWhile_append_of_pos before,
    List.takeWhile_cons_of_neg (by simp [point]), List.dropWhile_cons_of_neg (by simp [point])]
  simp [after]

end Parts

/-- A number that is read stands for another one: as a limit it is equal to it, and as a value it has
its text. -/
structure Number.StandsFor (number : Number) (x : Binary64) : Prop where
  limit : number.limit.eq x = true
  text : unitText number.value = x.limitText

/-- The text of a finite number is read as a number that stands for it. -/
theorem numberOf?_limitText {x : Binary64} (finite : x.isFinite = true) :
    ∃ number, numberOf? x.limitText.toList = some number ∧ number.StandsFor x := by
  cases x with
  | nan => cases finite
  | signed negative rank bounded =>
      have less : rank ≠ infinityRank := Nat.ne_of_lt (of_decide_eq_true finite)
      obtain ⟨size, text, positional, nearest⟩ :=
        @Binary64.positional_limitText negative rank bounded less
      have same : (Binary64.signed (negative && rank != 0) rank bounded).eq
          (.signed negative rank bounded) = true := by
        rw [Binary64.eq_signed_iff]
        by_cases zero : rank = 0 <;> simp [zero]
      rw [text]
      cases positional with
      | whole n =>
          rw [Numeral.spelled_toDigits] at nearest
          have limit : Numeral.nearest (negative && rank != 0) (Nat.toDigits 10 n) [] 0 =
              .signed (negative && rank != 0) rank bounded := by
            rw [Numeral.nearest, List.append_nil, Numeral.value_toDigits]
            exact Binary64.ofDecimal_eq bounded (by simpa using nearest) (by decide) _
          refine ⟨_, numberOf?_whole _ n, ?_, ?_⟩
          · rw [limit]
            exact same
          · cases fits : Numeral.toInt64? (withSign (negative && rank != 0) n) with
            | none =>
                rw [limit]
                exact Binary64.limitText_eq_of_eq same
            | some m =>
                have integer := Numeral.toInt_of_toInt64? fits
                apply String.toList_injective
                rw [text]
                show (toString m.toInt).toList = _
                rw [Numeral.toList_toString, integer, withSign]
                by_cases below : (negative && rank != 0) = true
                · have positive : n ≠ 0 := by
                    rintro rfl
                    have zero := Binary64.eq_zero_of_isNearest_of_lt nearest (by simp)
                    simp [zero] at below
                  rw [if_pos below, if_pos below, if_pos (by omega)]
                  simp
                · rw [if_neg below, if_neg below, if_neg (by omega)]
                  simp
      | @point whole fraction nonempty isDigits =>
          rw [Numeral.spelled_point fraction fun c mem => isDigits c (List.mem_append_left _ mem)]
            at nearest
          have limit : Numeral.nearest (negative && rank != 0) whole fraction 0 =
              .signed (negative && rank != 0) rank bounded := by
            rw [Numeral.nearest]
            exact Binary64.ofDecimal_eq bounded (by simpa using nearest) (by omega) _
          refine ⟨_, numberOf?_point _ nonempty isDigits, ?_, ?_⟩
          · rw [limit]
            exact same
          · rw [limit]
            exact Binary64.limitText_eq_of_eq same

/-- The text of an integer is read as the integer. -/
theorem numberOf?_toString (n : Int64) :
    ∃ number, numberOf? (toString n.toInt).toList = some number ∧ number.value = .integer n := by
  have written : (toString n.toInt).toList =
      if decide (n.toInt < 0) then '-' :: Nat.toDigits 10 n.toInt.natAbs
      else Nat.toDigits 10 n.toInt.natAbs := by
    rw [Numeral.toList_toString]
    by_cases below : n.toInt < 0 <;> simp [below]
  refine ⟨_, written ▸ numberOf?_whole _ _, ?_⟩
  simp [Numeral.withSign_natAbs, Numeral.toInt64?_toInt]

/-! ## Integers first -/

/-- A descriptor that is not a single number with the text of an integer, which would be read as the
integer. -/
def IsSettled : Descriptor → Prop
  | .unit (.float x) => ∀ n : Int64, toString n.toInt ≠ x.limitText
  | _ => True

/-- A number that was read from its own text is not read as another value. -/
theorem isSettled_of_numberOf? {text : String} {number : Number}
    (found : numberOf? text.toList = some number) (shown : unitText number.value = text) :
    IsSettled (.unit number.value) := by
  cases value : number.value with
  | float x =>
      rintro n same
      have written : text = toString n.toInt := by rw [← shown, value, same, unitText]
      obtain ⟨integer, found', isInteger⟩ := numberOf?_toString n
      rw [written, found'] at found
      cases found
      rw [value] at isInteger
      cases isInteger
  | _ => trivial

end Mixfix.Descriptor
