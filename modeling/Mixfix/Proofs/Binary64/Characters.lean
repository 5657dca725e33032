import Mixfix.Binary64.Text
import Mixfix.Proofs.Text.Numerals

/-!
# The characters of numbers

The text of a number in a descriptor is made of digits, points and minus signs, or is a word for an
infinity or a NaN. It is never empty, and its first character already tells it from all other texts
that descriptors are made of. Equal numbers have one text (`limitText_eq_of_eq`).
-/

set_option autoImplicit false

namespace Mixfix

open Unicode (isAsciiDigit)

/-- The characters that a number can start with. -/
def startsNumeral (c : Char) : Bool := isAsciiDigit c || ['-', 'i', 'N'].contains c

/-- The characters of numbers. -/
def isNumeralChar (c : Char) : Bool := startsNumeral c || ['.', 'n', 'f', 'a'].contains c

/-- A text that is made of the characters of numbers and starts like one. -/
def IsNumeral (text : List Char) : Prop :=
  (∃ c rest, text = c :: rest ∧ startsNumeral c = true) ∧ ∀ c ∈ text, isNumeralChar c = true

theorem startsNumeral_digit {c : Char} (digit : isAsciiDigit c = true) : startsNumeral c = true := by
  simp [startsNumeral, digit]

theorem isNumeralChar_digit {c : Char} (digit : isAsciiDigit c = true) : isNumeralChar c = true := by
  simp [isNumeralChar, startsNumeral_digit digit]

theorem isNumeral_toDigits (n : Nat) : IsNumeral (Nat.toDigits 10 n) := by
  have digits := Numeral.digits_toDigits n
  obtain ⟨c, rest, same, digit⟩ := Numeral.exists_toDigits n
  exact ⟨⟨c, rest, same, startsNumeral_digit digit⟩, fun d mem => isNumeralChar_digit (digits d mem)⟩

theorem IsNumeral.append {text more : List Char} (numeral : IsNumeral text)
    (chars : ∀ c ∈ more, isNumeralChar c = true) : IsNumeral (text ++ more) := by
  obtain ⟨⟨c, rest, rfl, starts⟩, inside⟩ := numeral
  refine ⟨⟨c, rest ++ more, rfl, starts⟩, fun d mem => ?_⟩
  rcases List.mem_append.mp mem with first | second
  · exact inside d first
  · exact chars d second

theorem IsNumeral.minus {text : List Char} (numeral : IsNumeral text) : IsNumeral ('-' :: text) := by
  refine ⟨⟨'-', text, rfl, rfl⟩, fun c mem => ?_⟩
  rcases List.mem_cons.mp mem with rfl | later
  · rfl
  · exact numeral.2 c later

theorem isNumeralChar_zeros {count : Nat} : ∀ c ∈ List.replicate count '0', isNumeralChar c = true := by
  intro c mem
  rw [(List.mem_replicate.mp mem).2]
  decide

theorem isNumeral_decimals (decimals : Decimals) :
    IsNumeral (Layout.plain.decimals decimals).toList := by
  have digits := isNumeral_toDigits decimals.count
  have positive : 0 < (Nat.toDigits 10 decimals.count).length :=
    List.length_pos_iff.mpr (Numeral.toDigits_ne_nil _)
  simp only [Layout.decimals, Layout.plain, if_true]
  split
  · rw [String.toList_append, String.toList_ofList]
    exact (digits.append isNumeralChar_zeros).append (List.all_eq_true.mp (by decide))
  · split
    · next leading =>
        rw [String.toList_ofList]
        refine ⟨?_, fun c mem => ?_⟩
        · obtain ⟨⟨c, rest, same, starts⟩, _⟩ := digits
          obtain ⟨point, more⟩ : ∃ point, (decimals.exponent +
              (Nat.toDigits 10 decimals.count).length - 1 + 1).toNat = point + 1 :=
            ⟨_, (Nat.succ_pred_eq_of_pos (by omega)).symm⟩
          rw [same] at more ⊢
          rw [more]
          exact ⟨c, _, rfl, starts⟩
        · rcases List.mem_append.mp mem with before | behind
          · exact digits.2 c (List.mem_of_mem_take before)
          · rcases List.mem_cons.mp behind with rfl | later
            · decide
            · exact digits.2 c (List.mem_of_mem_drop later)
    · rw [String.toList_ofList]
      refine ⟨⟨'0', _, rfl, by decide⟩, fun c mem => ?_⟩
      simp only [List.cons_append, List.mem_cons, List.mem_append] at mem
      rcases mem with rfl | rfl | zeros | later
      · decide
      · decide
      · exact isNumeralChar_zeros c zeros
      · exact digits.2 c later

theorem isNumeral_toString (n : Int) : IsNumeral (toString n).toList := by
  rw [Numeral.toList_toString]
  split
  · exact (isNumeral_toDigits _).minus
  · exact isNumeral_toDigits _

/-- The text of a number in a descriptor is made of the characters of numbers. -/
theorem Binary64.isNumeral_limitText (x : Binary64) : IsNumeral x.limitText.toList := by
  have plain : IsNumeral (x.text .plain).toList := by
    cases x with
    | nan => exact ⟨⟨'N', _, rfl, by decide⟩, List.all_eq_true.mp (by decide)⟩
    | signed negative rank bounded =>
        have size : IsNumeral (if rank = infinityRank then "inf"
            else if rank = 0 then "0" ++ Layout.plain.whole
            else Layout.plain.decimals (shortest Layout.plain.tie rank)).toList := by
          split
          · exact ⟨⟨'i', _, rfl, by decide⟩, List.all_eq_true.mp (by decide)⟩
          · split
            · exact ⟨⟨'0', _, rfl, by decide⟩, List.all_eq_true.mp (by decide)⟩
            · exact isNumeral_decimals _
        simp only [text]
        split
        · rw [String.toList_append]
          exact size.minus
        · exact size
  unfold limitText
  split
  · split
    · exact isNumeral_toString _
    · exact plain
  · exact plain

namespace Binary64

theorem limitText_zero (negative : Bool) (bounded : 0 ≤ 0x7FF0000000000000) :
    (signed negative 0 bounded).limitText = "0" := by
  revert bounded
  cases negative <;> decide +kernel

theorem limitText_infinity (negative : Bool) (bounded : infinityRank ≤ 0x7FF0000000000000) :
    (signed negative infinityRank bounded).limitText = if negative then "-inf" else "inf" := by
  revert bounded
  cases negative <;> decide +kernel

/-- An infinity is written as a word. -/
theorem limitText_of_infinite {x : Binary64} (placed : x ≠ .nan) (infinite : x.isFinite = false) :
    x.limitText = "inf" ∨ x.limitText = "-inf" := by
  cases x with
  | nan => exact absurd rfl placed
  | signed negative rank bounded =>
      obtain rfl : rank = infinityRank :=
        Nat.le_antisymm bounded (Nat.le_of_not_lt (of_decide_eq_false infinite))
      rw [limitText_infinity]
      cases negative
      · exact .inl rfl
      · exact .inr rfl

/-- Numbers are equal if they have one magnitude, and one sign unless they are zero. -/
theorem eq_signed_iff {negative negative' : Bool} {rank rank' : Nat}
    {bounded : rank ≤ 0x7FF0000000000000} {bounded' : rank' ≤ 0x7FF0000000000000} :
    (signed negative rank bounded).eq (signed negative' rank' bounded') = true ↔
      rank = rank' ∧ (rank = 0 ∨ negative = negative') := by
  simp only [eq, place?, beq_iff_eq]
  cases negative <;> cases negative' <;> simp <;> omega

/-- Numbers that are equal have one text, zeros of either sign too. -/
theorem limitText_eq_of_eq {x y : Binary64} (same : x.eq y = true) :
    x.limitText = y.limitText := by
  cases x with
  | nan => cases same
  | signed negative rank bounded =>
      cases y with
      | nan => cases same
      | signed negative' rank' bounded' =>
          obtain ⟨rfl, zero | rfl⟩ := eq_signed_iff.mp same
          · subst zero
            rw [limitText_zero, limitText_zero]
          · rfl

end Binary64

end Mixfix
