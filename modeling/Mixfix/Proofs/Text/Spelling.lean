import Mixfix.Proofs.Parse.Atoms
import Mixfix.Proofs.Parse.References
import Mixfix.Proofs.Text.Numerals

/-!
# Literals as they are written

How integers, strings and keywords are written in an expression (`spelled`), and what is no literal:
a word that is no keyword, and the marks of operators (`constant?_word`, `constant?_sign`).
-/

set_option autoImplicit false

namespace Mixfix.Parse

open Lexeme Unicode
open Cursor (isBlank)

/-! ## Spellings -/

/-- How a character is written in a string. -/
def spelledChar (c : Char) : List Char :=
  if c = '"' || c = '\\' then ['\\', c] else [c]

/-- How a literal is written: a string between double quotes with a backslash before quotes and
backslashes, all other values by their text. -/
def spelled : Value → List Char
  | .string s => '"' :: s.toList.flatMap spelledChar ++ ['"']
  | value => (Tree.valueText value).toList

/-- The values that are written as literals: integers, strings and what keywords stand for. -/
inductive IsConstant : Value → Prop
  | integer (n : Int64) : IsConstant (.integer n)
  | string (s : String) : IsConstant (.string s)
  | keyword (keyword : Keyword) : IsConstant keyword.value

theorem spelled_keyword (keyword : Keyword) : spelled keyword.value = keyword.text.toList := by
  cases keyword <;> rfl

variable {cursor : Cursor} {behind : List Char}

/-! ## Strings -/

/-- The spelling of a text up to a closing quote is scanned as the text. -/
theorem scan_spelled (text : List Char) (place : Nat) :
    scan '"' place 0 (text.flatMap spelledChar ++ '"' :: behind) =
      .closed text (place + (text.flatMap spelledChar).length) := by
  induction text generalizing place with
  | nil => rfl
  | cons c text ih =>
      rw [List.flatMap_cons, List.append_assoc, List.length_append]
      by_cases marked : c = '"' ∨ c = '\\'
      · have escaped : spelledChar c = ['\\', c] := by
          simp only [spelledChar, Bool.or_eq_true, decide_eq_true_eq, if_pos marked]
        have decoded : simpleEscape? c = some c := by rcases marked with rfl | rfl <;> rfl
        rw [escaped]
        simp only [List.cons_append, List.nil_append, scan, escape, decoded, ih]
        simp only [List.length_cons, List.length_nil, if_true, Scan.cons]
        rw [if_neg (by decide)]
        congr 1
        omega
      · have plain : spelledChar c = [c] := by
          simp only [spelledChar, Bool.or_eq_true, decide_eq_true_eq, if_neg marked]
        obtain ⟨notQuote, notBackslash⟩ := not_or.mp marked
        rw [plain]
        simp only [List.cons_append, List.nil_append, scan, if_neg notQuote, if_neg notBackslash,
          ih, Scan.cons, List.length_cons, List.length_nil]
        congr 1
        omega

/-! ## What is no literal -/

theorem number?_eq_none {c : Char} {rest : List Char} (written : cursor.skipBlanks.rest = c :: rest)
    (notDigit : isAsciiDigit c = false)
    (noMinus : c = '-' → rest.head?.all (fun c => !isAsciiDigit c) = true) :
    number? cursor = none := by
  have noDigits : (splitDigits (splitMinus (c :: rest)).2).1 = [] := by
    by_cases minus : c = '-'
    · subst minus
      have outside := noMinus rfl
      simp only [splitMinus, splitDigits]
      cases rest with
      | nil => rfl
      | cons d rest =>
          have notDigit : isAsciiDigit d = false := by simpa using outside
          simp [notDigit]
    · have same : splitMinus (c :: rest) = (false, c :: rest) := by
        unfold splitMinus
        split
        · next same => exact absurd (List.cons.inj same).1 minus
        · rfl
      simp [same, splitDigits, notDigit]
  have nothing : splitNumber (c :: rest) = none := by
    simp only [splitNumber]
    split
    · rfl
    · next whole afterWhole notEmpty split =>
        rw [split] at noDigits
        exact absurd noDigits notEmpty
  simp only [number?, written, nothing]

theorem stringValue?_eq_none {c : Char} {rest : List Char}
    (written : cursor.skipBlanks.rest = c :: rest) (double : c ≠ '"') (single : c ≠ '\'') :
    stringValue? cursor = .ok none := by
  simp only [stringValue?, string?, written, Bool.or_eq_true, decide_eq_true_eq, double, single,
    or_self, if_false]

theorem keyword?_eq_none {c : Char} {rest : List Char} {keyword : Keyword}
    (written : cursor.skipBlanks.rest = c :: rest) (differs : keyword.text.toList.head? ≠ some c) :
    keyword? keyword cursor = none := by
  have missing : standsAt keyword.text.toList cursor.skipBlanks = false := by
    rw [Bool.eq_false_iff]
    intro stands
    obtain ⟨behind, same⟩ := prefix_of_standsAt stands
    rw [written] at same
    cases letters : keyword.text.toList with
    | nil => cases keyword <;> exact absurd letters (by decide)
    | cons d word =>
        rw [letters] at same differs
        exact differs (congrArg some (List.cons.inj same).1)
  simp [keyword?, missing]

theorem constant?_eq_none (noNumber : number? cursor = none)
    (noString : stringValue? cursor = .ok none)
    (noKeyword : ∀ keyword, keyword? keyword cursor = none) : constant? cursor = .ok none := by
  simp only [constant?, noNumber, noString]
  congr 1
  rw [keywordValue?, List.findSome?_eq_none_iff]
  intro keyword _
  rw [noKeyword keyword]
  rfl

/-- The mark of an operator before its operand is no literal, unless it is the minus of a number. -/
theorem constant?_sign {c : Char} {rest : List Char} (mark : c = '-' ∨ c = '!')
    (written : cursor.skipBlanks.rest = c :: rest)
    (noDigit : c = '-' → rest.head?.all (fun c => !isAsciiDigit c) = true) :
    constant? cursor = .ok none := by
  refine constant?_eq_none (number?_eq_none written ?_ noDigit)
    (stringValue?_eq_none written ?_ ?_) fun keyword => keyword?_eq_none written ?_
  · rcases mark with rfl | rfl <;> decide
  · rcases mark with rfl | rfl <;> decide
  · rcases mark with rfl | rfl <;> decide
  · rcases mark with rfl | rfl <;> cases keyword <;> decide

/-- The mark of an operator before its operand is no literal where a blank stands behind it. -/
theorem constant?_mark {c : Char} {rest : List Char} (mark : c = '-' ∨ c = '!')
    (written : cursor.skipBlanks.rest = c :: rest) (spaced : rest.head?.all isBlank = true) :
    constant? cursor = .ok none := by
  refine constant?_sign mark written fun _ => ?_
  cases rest with
  | nil => rfl
  | cons d rest =>
      simp only [List.head?_cons, Option.all_some, isBlank, Bool.or_eq_true, beq_iff_eq] at spaced ⊢
      rcases spaced with ((rfl | rfl) | rfl) | rfl <;> decide

/-! ## Words -/

/-- A keyword stands ahead of a word only if it is the word. -/
theorem keyword?_word {name : String} {keyword : Keyword}
    (written : cursor.skipBlanks.rest = name.toList ++ behind) (word : isWord name = true)
    (ends : behind.head?.all (fun c => !isWordChar c) = true) (differs : name ≠ keyword.text) :
    keyword? keyword cursor = none := by
  have missing : standsAt keyword.text.toList cursor.skipBlanks = false := by
    rw [Bool.eq_false_iff]
    intro stands
    have taken := standsAt_keyword_iff.mp stands
    rw [written, takeWhile_append_of_all (wordChars_of_isWord word) ends] at taken
    exact differs (String.toList_inj.mp taken)
  simp [keyword?, missing]

theorem notDigit_of_isAlphabetic {c : Char} (letter : isAlphabetic c = true) :
    isAsciiDigit c = false := by
  rw [Bool.eq_false_iff]
  intro digit
  simp only [isAsciiDigit, Bool.and_eq_true, decide_eq_true_eq] at digit
  have small : c.toNat < 0x80 := Nat.lt_of_le_of_lt digit.2 (by decide)
  rw [isAlphabetic, if_pos small] at letter
  simp only [isAsciiLetter, Bool.or_eq_true, Bool.and_eq_true, decide_eq_true_eq] at letter
  rcases letter with ⟨lower, _⟩ | ⟨lower, _⟩
  · exact absurd (Char.le_trans lower digit.2) (by decide)
  · exact absurd (Char.le_trans lower digit.2) (by decide)

/-- A path whose first word is no keyword is no literal. -/
theorem constant?_word {name : String} {segments : List String}
    (written : cursor.skipBlanks.rest = pathText (name :: segments) ++ behind)
    (word : isWord name = true) (ends : endsPath behind = true)
    (differs : ∀ keyword : Keyword, name ≠ keyword.text) : constant? cursor = .ok none := by
  obtain ⟨c, rest, same, letter, _⟩ := isWord_iff.mp word
  have first : cursor.skipBlanks.rest = c :: (rest ++ (dotted segments ++ behind)) := by
    rw [written, pathText, same]
    simp
  have other : ∀ d : Char, isAlphabetic d = false → c ≠ d := by
    rintro d notLetter rfl
    rw [letter] at notLetter
    cases notLetter
  refine constant?_eq_none (number?_eq_none first (notDigit_of_isAlphabetic letter) ?_)
    (stringValue?_eq_none first (other _ (by decide)) (other _ (by decide))) fun keyword => ?_
  · exact fun minus => absurd minus (other _ (by decide))
  · refine keyword?_word ?_ word (endsPath_dotted segments ends) (differs keyword)
    rw [written, pathText, List.append_assoc]

end Mixfix.Parse
