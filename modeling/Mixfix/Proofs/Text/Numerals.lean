import Mixfix.Lexeme.Number
import Mixfix.Text.Numeral

/-!
# Decimal digits

The digits of a natural number are digits of ASCII and stand for the number (`value_toDigits`).
Zeros before them change nothing (`value_zeros_append`). The text of an integer determines it
(`toString_injective`). An integer of 64 bits is found for every integer that is one, and for no
other (`toInt64?_toInt`, `toInt_of_toInt64?`).
-/

set_option autoImplicit false

namespace Mixfix.Numeral

open Unicode (isAsciiDigit)

theorem isAsciiDigit_of_isDigit {c : Char} (digit : c.isDigit = true) : isAsciiDigit c = true := by
  simp only [Char.isDigit, Bool.and_eq_true, decide_eq_true_eq] at digit
  simp only [isAsciiDigit, Bool.and_eq_true, decide_eq_true_eq]
  exact digit

theorem digits_toDigits (n : Nat) : ∀ c ∈ Nat.toDigits 10 n, isAsciiDigit c = true :=
  fun _ mem => isAsciiDigit_of_isDigit
    (Nat.isDigit_of_mem_toDigits (by decide) (by decide) mem)

/-- The value of digits is a fold that goes on from a value. -/
theorem foldl_eq_ofDigitChars {digits : List Char} (isDigits : ∀ c ∈ digits, isAsciiDigit c = true)
    (start : Nat) :
    digits.foldl (fun value c => value * 10 + digitValue c) start =
      Nat.ofDigitChars 10 digits start := by
  induction digits generalizing start with
  | nil => rfl
  | cons c digits ih =>
      have digit := isDigits c List.mem_cons_self
      rw [List.foldl_cons, ih fun other mem => isDigits other (List.mem_cons_of_mem _ mem),
        Nat.ofDigitChars_cons, digitValue, if_pos digit, Nat.mul_comm]

theorem value_eq_ofDigitChars {digits : List Char}
    (isDigits : ∀ c ∈ digits, isAsciiDigit c = true) :
    value digits = Nat.ofDigitChars 10 digits 0 :=
  foldl_eq_ofDigitChars isDigits 0

/-- The digits of a number stand for it. -/
theorem value_toDigits (n : Nat) : value (Nat.toDigits 10 n) = n := by
  rw [value_eq_ofDigitChars (digits_toDigits n), Nat.ofDigitChars_ten_toDigits]

theorem toDigits_ne_nil (n : Nat) : Nat.toDigits 10 n ≠ [] := by
  intro empty
  have value := value_toDigits n
  rw [empty] at value
  have zero : n = 0 := value.symm
  rw [zero] at empty
  simp at empty

/-- The digits of a number start with one. -/
theorem exists_toDigits (n : Nat) :
    ∃ c rest, Nat.toDigits 10 n = c :: rest ∧ isAsciiDigit c = true := by
  obtain ⟨c, rest, first⟩ := List.exists_cons_of_ne_nil (toDigits_ne_nil n)
  exact ⟨c, rest, first, digits_toDigits n c (by simp [first])⟩

/-- The text of an integer is a minus, if it is negative, and the digits of its size. -/
theorem toList_toString (n : Int) :
    (toString n).toList = (if n < 0 then ['-'] else []) ++ Nat.toDigits 10 n.natAbs := by
  cases n with
  | ofNat m =>
      have positive : ¬ (Int.ofNat m < 0) := by simp
      rw [if_neg positive]
      exact String.toList_ofList
  | negSucc m =>
      rw [if_pos (Int.negSucc_lt_zero m)]
      have text : (toString (Int.negSucc m)) = "-" ++ Nat.repr (m + 1) := rfl
      rw [text, String.toList_append]
      congr 1
      exact String.toList_ofList

/-- Integers of one text are equal. -/
theorem toString_injective {n m : Int} (same : toString n = toString m) : n = m := by
  have texts := congrArg String.toList same
  rw [toList_toString, toList_toString] at texts
  have noMinus : ∀ n : Nat, (Nat.toDigits 10 n).head? ≠ some '-' := by
    intro n
    obtain ⟨c, rest, first, digit⟩ := exists_toDigits n
    rw [first]
    rintro ⟨⟩
    exact absurd digit (by decide)
  have sizes : n.natAbs = m.natAbs ∧ (n < 0 ↔ m < 0) := by
    have values : ∀ {a b : Nat}, Nat.toDigits 10 a = Nat.toDigits 10 b → a = b := by
      intro a b same
      rw [← value_toDigits a, same, value_toDigits]
    split at texts <;> split at texts
    · next below below' =>
        exact ⟨values (List.append_cancel_left texts), iff_of_true below below'⟩
    · exact absurd (congrArg List.head? texts).symm (noMinus _)
    · exact absurd (congrArg List.head? texts) (noMinus _)
    · next above above' => exact ⟨values texts, iff_of_false above above'⟩
  omega

theorem value_zeros_append (digits : List Char) (count : Nat) :
    value (List.replicate count '0' ++ digits) = value digits := by
  induction count with
  | zero => rfl
  | succ count ih =>
      rw [List.replicate_succ, List.cons_append, ← ih]
      rfl

/-- An integer is its size with its sign. -/
theorem withSign_natAbs (n : Int) : withSign (decide (n < 0)) n.natAbs = n := by
  by_cases negative : n < 0
  · simp only [withSign, negative, decide_true, if_true]
    omega
  · simp only [withSign, negative, decide_false, Bool.false_eq_true, if_false]
    omega

/-! ## Integers of 64 bits -/

theorem toInt64?_toInt (n : Int64) : toInt64? n.toInt = some n := by
  have lower := n.le_toInt
  have upper := n.toInt_lt
  have inside : inRange n.toInt = true := by
    rw [inRange, Bool.and_eq_true, decide_eq_true_eq, decide_eq_true_eq]
    exact ⟨lower, upper⟩
  rw [toInt64?, if_pos inside, Int64.ofInt_toInt]

theorem toInt_of_toInt64? {n : Int} {m : Int64} (fits : toInt64? n = some m) : m.toInt = n := by
  simp only [toInt64?] at fits
  split at fits
  · next inside =>
      cases fits
      rw [inRange, Bool.and_eq_true, decide_eq_true_eq, decide_eq_true_eq] at inside
      exact Int64.toInt_ofInt_of_le inside.1 inside.2
  · cases fits

end Mixfix.Numeral

namespace Mixfix.Lexeme

open Unicode (isAsciiDigit)

/-- Digits are divided from what follows them, if no digit follows. -/
theorem splitDigits_append_of_all {digits behind : List Char}
    (isDigits : ∀ c ∈ digits, isAsciiDigit c = true)
    (ends : behind.head?.all (fun c => !isAsciiDigit c) = true) :
    splitDigits (digits ++ behind) = (digits, behind) := by
  simp only [splitDigits, List.takeWhile_append_of_pos isDigits,
    List.dropWhile_append_of_pos isDigits]
  cases behind with
  | nil => simp
  | cons c behind =>
      have notDigit : isAsciiDigit c = false := by simpa using ends
      simp [notDigit]

/-- Digits behind which neither a digit, a fraction nor an exponent stands are a whole number. -/
theorem splitNumber_whole {digits behind : List Char} (negative : Bool) (nonempty : digits ≠ [])
    (isDigits : ∀ c ∈ digits, isAsciiDigit c = true)
    (noDigit : behind.head?.all (fun c => !isAsciiDigit c) = true)
    (noFraction : splitFraction behind = ([], behind))
    (noExponent : splitExponent behind = (none, behind)) :
    splitNumber ((if negative then ['-'] else []) ++ digits ++ behind) =
      some (⟨negative, digits, [], none⟩, behind) := by
  have minus : splitMinus ((if negative then ['-'] else []) ++ digits ++ behind) =
      (negative, digits ++ behind) := by
    cases negative with
    | true => rfl
    | false =>
        obtain ⟨c, rest, rfl⟩ := List.exists_cons_of_ne_nil nonempty
        have digit := isDigits c List.mem_cons_self
        have notMinus : c ≠ '-' := by
          rintro rfl
          exact absurd digit (by decide)
        simp only [Bool.false_eq_true, if_false, List.nil_append, List.cons_append, splitMinus]
        split
        · next same =>
            cases same
            exact absurd rfl notMinus
        · rfl
  simp only [splitNumber, minus, splitDigits_append_of_all isDigits noDigit, noFraction, noExponent]

/-- Digits that neither a digit, a point nor an exponent mark follows are a whole number. -/
theorem splitNumber_digits {digits behind : List Char} (negative : Bool) (nonempty : digits ≠ [])
    (isDigits : ∀ c ∈ digits, isAsciiDigit c = true)
    (ends : behind.head?.all
      (fun c => !isAsciiDigit c && c != '.' && c != 'e' && c != 'E') = true) :
    splitNumber ((if negative then ['-'] else []) ++ digits ++ behind) =
      some (⟨negative, digits, [], none⟩, behind) := by
  have noDigit : behind.head?.all (fun c => !isAsciiDigit c) = true := by
    cases behind with
    | nil => rfl
    | cons c behind =>
        simp only [List.head?_cons, Option.all_some, Bool.and_eq_true] at ends ⊢
        exact ends.1.1.1
  have noFraction : splitFraction behind = ([], behind) := by
    unfold splitFraction
    split
    · simp at ends
    · rfl
  have noExponent : splitExponent behind = (none, behind) := by
    cases behind with
    | nil => rfl
    | cons c behind =>
        simp only [List.head?_cons, Option.all_some, Bool.and_eq_true, bne_iff_ne] at ends
        simp [splitExponent, ends.1.2, ends.2]
  exact splitNumber_whole negative nonempty isDigits noDigit noFraction noExponent

end Mixfix.Lexeme
