import Mathlib.Data.List.Basic
import Mixfix.Descriptor.Admission
import Mixfix.Descriptor.Reader
import Mixfix.Proofs.Descriptor.Patterns

/-!
# What the shapes of strings allow

The shapes of a fixed form are those of UUIDs, of dates, of letters and of letters and digits. Each
is given by a pattern for the whole text (`pattern?`), and the tests on characters find what the
pattern describes (`fits_iff_occurs`): nothing may stand before or behind it, no line feed either.

Three of the four shapes are of ASCII alone. The pattern of dates has the class of the decimal digits
of all scripts for the year and for the second digit of a day from the tenth to the twenty-ninth, and
digits of ASCII elsewhere. So it allows more than plain dates (`isDate_iff_ofScripts`), and of the
texts in ASCII exactly these (`isDate_iff_ascii`).
-/

set_option autoImplicit false

namespace Mixfix.Shape

open Unicode (isAsciiDigit isAsciiLetter isDecimalDigit isHexDigit)
open Pattern (char range)

variable {text before piece behind : List Char} {tens ones : Char}

/-! ## Patterns of the shapes -/

/-- Hexadecimal digits in groups of eight, four, four, four and twelve, joined by dashes. -/
def uuidPattern : Pattern :=
  let group := (Pattern.one isHexDigit).times
  .dashed [group 8, group 4, group 4, group 4, group 12]

/-- A month from `01` to `12`. -/
def monthPattern : Pattern :=
  .either (.both (char '0') (range '1' '9')) (.both (char '1') (range '0' '2'))

/-- A day from `01` to `31`. -/
def dayPattern : Pattern :=
  .either (.both (char '0') (range '1' '9'))
    (.either (.both (.one fun c => c == '1' || c == '2') (.one isDecimalDigit))
      (.both (char '3') (.one fun c => c == '0' || c == '1')))

/-- A year, a month and a day, joined by dashes. -/
def datePattern : Pattern :=
  .dashed [(Pattern.one isDecimalDigit).times 4, monthPattern, dayPattern]

/-- The pattern of a shape of a fixed form. -/
def pattern? : Subtype → Option Pattern
  | .uuid => some uuidPattern.whole
  | .date => some datePattern.whole
  | .alpha => some (Pattern.many (.one isAsciiLetter)).whole
  | .alphanumeric => some (Pattern.many (.one fun c => isAsciiLetter c || isAsciiDigit c)).whole
  | _ => none

/-! ## UUIDs -/

/-- Groups of hexadecimal digits of given lengths, joined by dashes. -/
def HasGroups (lengths : List Nat) (text : List Char) : Prop :=
  ∃ groups : List (List Char), groups.map List.length = lengths ∧
    (∀ group ∈ groups, ∀ c ∈ group, isHexDigit c = true) ∧ text = ['-'].intercalate groups

theorem hasGroups_single {length : Nat} :
    HasGroups [length] text ↔ text.length = length ∧ ∀ c ∈ text, isHexDigit c = true := by
  constructor
  · rintro ⟨groups, lengths, digits, rfl⟩
    obtain ⟨group, _, rfl, rfl, none⟩ := List.map_eq_cons_iff.mp lengths
    rw [List.map_eq_nil_iff] at none
    subst none
    rw [List.intercalate_singleton]
    exact ⟨rfl, digits group List.mem_cons_self⟩
  · rintro ⟨rfl, digits⟩
    exact ⟨[text], rfl, by simpa using digits, List.intercalate_singleton.symm⟩

theorem hasGroups_cons {length other : Nat} {lengths : List Nat} :
    HasGroups (length :: other :: lengths) text ↔
      ∃ group rest, text = group ++ '-' :: rest ∧
        (group.length = length ∧ ∀ c ∈ group, isHexDigit c = true) ∧
        HasGroups (other :: lengths) rest := by
  constructor
  · rintro ⟨groups, sizes, digits, rfl⟩
    obtain ⟨group, later, rfl, rfl, sizes'⟩ := List.map_eq_cons_iff.mp sizes
    obtain ⟨second, others, rfl, _, _⟩ := List.map_eq_cons_iff.mp sizes'
    rw [List.forall_mem_cons] at digits
    refine ⟨group, _, ?_, ⟨rfl, digits.1⟩, second :: others, sizes', digits.2, rfl⟩
    rw [List.intercalate_cons_cons, List.append_assoc]
    rfl
  · rintro ⟨group, _, rfl, ⟨rfl, first⟩, groups, sizes, digits, rfl⟩
    obtain ⟨second, others, rfl, _, _⟩ := List.map_eq_cons_iff.mp sizes
    refine ⟨group :: second :: others, congrArg (group.length :: ·) sizes,
      List.forall_mem_cons.mpr ⟨first, digits⟩, ?_⟩
    rw [List.intercalate_cons_cons, List.append_assoc]
    rfl

theorem each_replicate {test : Char → Bool} {count : Nat} :
    each (List.replicate count test) text = true ↔
      text.length = count ∧ ∀ c ∈ text, test c = true := by
  induction count generalizing text with
  | zero => cases text <;> simp [each]
  | succ count ih =>
      cases text with
      | nil => simp [List.replicate_succ, each]
      | cons c text =>
          rw [List.replicate_succ, each, Bool.and_eq_true, ih, List.length_cons, Nat.succ_inj,
            List.forall_mem_cons]
          exact and_left_comm

/-- Tests of a count of characters, of a dash and of what is behind it. -/
theorem each_dashed {test : Char → Bool} {count : Nat} {tests : List (Char → Bool)} :
    each (List.replicate count test ++ (· == '-') :: tests) text = true ↔
      ∃ group rest, text = group ++ '-' :: rest ∧
        (group.length = count ∧ ∀ c ∈ group, test c = true) ∧ each tests rest = true := by
  induction count generalizing text with
  | zero =>
      cases text with
      | nil => simp [each]
      | cons c text =>
          rw [List.replicate_zero, List.nil_append, each, Bool.and_eq_true, beq_iff_eq]
          constructor
          · rintro ⟨rfl, behind⟩
            exact ⟨[], text, rfl, ⟨rfl, nofun⟩, behind⟩
          · rintro ⟨group, rest, same, ⟨length, -⟩, behind⟩
            rw [List.length_eq_zero_iff] at length
            subst length
            cases same
            exact ⟨rfl, behind⟩
  | succ count ih =>
      cases text with
      | nil => simp [List.replicate_succ, each]
      | cons c text =>
          rw [List.replicate_succ, List.cons_append, each, Bool.and_eq_true, ih]
          constructor
          · rintro ⟨holds, group, rest, rfl, ⟨rfl, all⟩, behind⟩
            exact ⟨c :: group, rest, rfl, ⟨rfl, List.forall_mem_cons.mpr ⟨holds, all⟩⟩, behind⟩
          · rintro ⟨group, rest, same, ⟨length, all⟩, behind⟩
            obtain ⟨d, group, rfl⟩ := List.exists_cons_of_length_eq_add_one length
            cases same
            rw [List.forall_mem_cons] at all
            exact ⟨all.1, group, rest, rfl, ⟨Nat.succ.inj length, all.2⟩, behind⟩

theorem isUuid_iff : isUuid text = true ↔ HasGroups [8, 4, 4, 4, 12] text := by
  simp only [isUuid, List.append_assoc, List.cons_append, List.nil_append, each_dashed,
    each_replicate, hasGroups_cons, hasGroups_single]

theorem matches_uuid :
    uuidPattern.Matches before text behind ↔ HasGroups [8, 4, 4, 4, 12] text := by
  simp only [uuidPattern, Pattern.matches_dashed, Pattern.dashed_single, Pattern.matches_times_one,
    hasGroups_cons, hasGroups_single]

/-! ## Dates -/

/-- Two digits of ASCII for a number within limits. -/
def IsNumeral (least most : Nat) (text : List Char) : Prop :=
  text.length = 2 ∧ (∀ c ∈ text, isAsciiDigit c = true) ∧
    least ≤ Numeral.value text ∧ Numeral.value text ≤ most

/-- A year of four digits of ASCII, a month from `01` to `12` and a day from `01` to `31`, joined by
dashes. -/
def IsDate (text : List Char) : Prop :=
  ∃ year month day, text = ['-'].intercalate [year, month, day] ∧
    (year.length = 4 ∧ ∀ c ∈ year, isAsciiDigit c = true) ∧ IsNumeral 1 12 month ∧
      IsNumeral 1 31 day

/-- A day from `01` to `31` in ASCII, or a one or a two and a digit of any script behind it. -/
def IsDayOfScripts (text : List Char) : Prop :=
  IsNumeral 1 31 text ∨
    ∃ tens ones, text = [tens, ones] ∧ (tens = '1' ∨ tens = '2') ∧ isDecimalDigit ones = true

/-- A date whose year may have digits of any script, and so may a day from `10` to `29` behind its
first digit. -/
def IsDateOfScripts (text : List Char) : Prop :=
  ∃ year month day, text = ['-'].intercalate [year, month, day] ∧
    (year.length = 4 ∧ ∀ c ∈ year, isDecimalDigit c = true) ∧ IsNumeral 1 12 month ∧
      IsDayOfScripts day

theorem between_iff {first last c : Char} : (decide (first ≤ c) && decide (c ≤ last)) = true ↔
    first.toNat ≤ c.toNat ∧ c.toNat ≤ last.toNat := by
  rw [Bool.and_eq_true, decide_eq_true_eq, decide_eq_true_eq]
  rfl

theorem isAsciiDigit_iff {c : Char} : isAsciiDigit c = true ↔ 48 ≤ c.toNat ∧ c.toNat ≤ 57 :=
  between_iff

theorem beq_iff_toNat {c d : Char} : (c == d) = true ↔ c.toNat = d.toNat := by
  rw [beq_iff_eq, Char.toNat_inj]

/-- A digit of ASCII is the only kind of decimal digit in ASCII. -/
theorem isDecimalDigit_ascii {c : Char} (ascii : c.toNat < 128) :
    isDecimalDigit c = isAsciiDigit c := by
  rw [isDecimalDigit, if_pos ascii]

theorem toNat_lt_of_isAsciiDigit {c : Char} (digit : isAsciiDigit c = true) : c.toNat < 128 := by
  have codes := isAsciiDigit_iff.mp digit
  omega

theorem isDecimalDigit_of_isAsciiDigit {c : Char} (digit : isAsciiDigit c = true) :
    isDecimalDigit c = true := by
  rw [isDecimalDigit_ascii (toNat_lt_of_isAsciiDigit digit), digit]

theorem isNumeral_pair {least most : Nat} : IsNumeral least most [tens, ones] ↔
    (48 ≤ tens.toNat ∧ tens.toNat ≤ 57) ∧ (48 ≤ ones.toNat ∧ ones.toNat ≤ 57) ∧
      least ≤ (tens.toNat - 48) * 10 + (ones.toNat - 48) ∧
      (tens.toNat - 48) * 10 + (ones.toNat - 48) ≤ most := by
  rw [← isAsciiDigit_iff, ← isAsciiDigit_iff, IsNumeral, List.forall_mem_cons,
    List.forall_mem_singleton]
  have value (first : isAsciiDigit tens = true) (second : isAsciiDigit ones = true) :
      Numeral.value [tens, ones] = (tens.toNat - 48) * 10 + (ones.toNat - 48) := by
    simp only [Numeral.value, Numeral.valueIn, Numeral.digitValue, List.foldl_cons, List.foldl_nil,
      first, second, if_pos, Nat.zero_mul, Nat.zero_add]
    rfl
  constructor
  · rintro ⟨-, ⟨first, second⟩, limits⟩
    rw [value first second] at limits
    exact ⟨first, second, limits⟩
  · rintro ⟨first, second, limits⟩
    rw [value first second]
    exact ⟨rfl, ⟨first, second⟩, limits⟩

theorem isMonth_iff : isMonth tens ones = true ↔ IsNumeral 1 12 [tens, ones] := by
  rw [isNumeral_pair, isMonth]
  simp only [Bool.or_eq_true, Bool.and_assoc, Bool.and_eq_true (_ == _), between_iff, beq_iff_toNat]
  change (tens.toNat = 48 ∧ 49 ≤ ones.toNat ∧ ones.toNat ≤ 57) ∨
    (tens.toNat = 49 ∧ 48 ≤ ones.toNat ∧ ones.toNat ≤ 50) ↔ _
  omega

theorem isDay_iff : isDay tens ones = true ↔ IsDayOfScripts [tens, ones] := by
  have day : isDay tens ones = true ↔ (tens.toNat = 48 ∧ 49 ≤ ones.toNat ∧ ones.toNat ≤ 57) ∨
      ((tens.toNat = 49 ∨ tens.toNat = 50) ∧ isDecimalDigit ones = true) ∨
      tens.toNat = 51 ∧ (ones.toNat = 48 ∨ ones.toNat = 49) := by
    simp only [isDay, Bool.or_eq_true, Bool.and_assoc, Bool.and_eq_true (_ == _),
      Bool.and_eq_true (_ || _), between_iff, beq_iff_toNat, or_assoc]
    rfl
  have digit : 48 ≤ ones.toNat ∧ ones.toNat ≤ 57 → isDecimalDigit ones = true :=
    fun codes => isDecimalDigit_of_isAsciiDigit (isAsciiDigit_iff.mpr codes)
  have scripts : (∃ t o, [tens, ones] = [t, o] ∧ (t = '1' ∨ t = '2') ∧ isDecimalDigit o = true) ↔
      (tens.toNat = 49 ∨ tens.toNat = 50) ∧ isDecimalDigit ones = true := by
    constructor
    · rintro ⟨_, _, same, ten, holds⟩
      cases same
      exact ⟨ten.imp (congrArg Char.toNat) (congrArg Char.toNat), holds⟩
    · rintro ⟨ten, holds⟩
      exact ⟨tens, ones, rfl, ten.imp (Char.toNat_inj.mp ·) (Char.toNat_inj.mp ·), holds⟩
  rw [day, IsDayOfScripts, isNumeral_pair, scripts]
  constructor
  · rintro (low | middle | high)
    · exact .inl (by omega)
    · exact .inr middle
    · exact .inl (by omega)
  · rintro (numeral | middle)
    · by_cases second : tens.toNat = 49 ∨ tens.toNat = 50
      · exact .inr (.inl ⟨second, digit numeral.2.1⟩)
      · omega
    · exact .inr (.inl middle)

theorem IsNumeral.exists_pair {least most : Nat} (numeral : IsNumeral least most text) :
    ∃ tens ones, text = [tens, ones] :=
  List.length_eq_two.mp numeral.1

theorem IsDayOfScripts.exists_pair (day : IsDayOfScripts text) :
    ∃ tens ones, text = [tens, ones] := by
  obtain numeral | ⟨tens, ones, rfl, -⟩ := day
  · exact numeral.exists_pair
  · exact ⟨tens, ones, rfl⟩

theorem matches_month : monthPattern.Matches before piece behind ↔ IsNumeral 1 12 piece := by
  have pair : monthPattern.Matches before piece behind ↔
      ∃ tens ones, piece = [tens, ones] ∧ isMonth tens ones = true := by
    simp only [monthPattern, char, range, Pattern.matches_either, Pattern.matches_pair, isMonth,
      Bool.or_eq_true, Bool.and_assoc, Bool.and_eq_true (_ == _), and_or_left, exists_or]
  rw [pair]
  constructor
  · rintro ⟨tens, ones, rfl, month⟩
    exact isMonth_iff.mp month
  · intro numeral
    obtain ⟨tens, ones, rfl⟩ := numeral.exists_pair
    exact ⟨tens, ones, rfl, isMonth_iff.mpr numeral⟩

theorem matches_day : dayPattern.Matches before piece behind ↔ IsDayOfScripts piece := by
  have pair : dayPattern.Matches before piece behind ↔
      ∃ tens ones, piece = [tens, ones] ∧ isDay tens ones = true := by
    simp only [dayPattern, char, range, Pattern.matches_either, Pattern.matches_pair, isDay,
      Bool.or_eq_true, Bool.and_assoc, Bool.and_eq_true (_ == _), Bool.and_eq_true (_ || _),
      and_or_left, exists_or, or_assoc]
  rw [pair]
  constructor
  · rintro ⟨tens, ones, rfl, day⟩
    exact isDay_iff.mp day
  · intro day
    obtain ⟨tens, ones, rfl⟩ := day.exists_pair
    exact ⟨tens, ones, rfl, isDay_iff.mpr day⟩

theorem intercalate_dashes {year month day : List Char} :
    ['-'].intercalate [year, month, day] = year ++ '-' :: (month ++ '-' :: day) := by
  simp [List.intercalate_cons_cons]

theorem matches_date : datePattern.Matches before text behind ↔ IsDateOfScripts text := by
  simp only [datePattern, Pattern.matches_dashed, Pattern.dashed_single, Pattern.matches_times_one,
    matches_month, matches_day, IsDateOfScripts, intercalate_dashes]
  constructor
  · rintro ⟨year, _, rfl, digits, month, day, rfl, isMonth, isDay⟩
    exact ⟨year, month, day, rfl, digits, isMonth, isDay⟩
  · rintro ⟨year, month, day, rfl, digits, isMonth, isDay⟩
    exact ⟨year, _, rfl, digits, month, day, rfl, isMonth, isDay⟩

theorem isDate_iff_ofScripts : isDate text = true ↔ IsDateOfScripts text := by
  constructor
  · intro date
    unfold isDate at date
    split at date
    · simp only [Bool.and_eq_true, List.all_eq_true, beq_iff_eq, isMonth_iff, isDay_iff] at date
      obtain ⟨⟨⟨⟨year, rfl⟩, month⟩, rfl⟩, day⟩ := date
      exact ⟨_, _, _, rfl, ⟨rfl, year⟩, month, day⟩
    · cases date
  · rintro ⟨year, month, day, rfl, ⟨length, digits⟩, isMonth, isDay⟩
    obtain ⟨m₁, m₂, rfl⟩ := isMonth.exists_pair
    obtain ⟨d₁, d₂, rfl⟩ := isDay.exists_pair
    obtain ⟨y₁, y₂, y₃, y₄, rfl⟩ : ∃ y₁ y₂ y₃ y₄, year = [y₁, y₂, y₃, y₄] := by
      match year, length with
      | [y₁, y₂, y₃, y₄], _ => exact ⟨y₁, y₂, y₃, y₄, rfl⟩
    simp only [intercalate_dashes, List.cons_append, List.nil_append, isDate, Bool.and_eq_true,
      List.all_eq_true, beq_iff_eq, isMonth_iff, isDay_iff]
    exact ⟨⟨⟨⟨digits, trivial⟩, isMonth⟩, trivial⟩, isDay⟩

/-- In ASCII a day has digits of ASCII. -/
theorem IsDayOfScripts.isNumeral (day : IsDayOfScripts text) (ascii : ∀ c ∈ text, c.toNat < 128) :
    IsNumeral 1 31 text := by
  obtain numeral | ⟨tens, ones, rfl, ten, digit⟩ := day
  · exact numeral
  · rw [isDecimalDigit_ascii (ascii ones (by simp)), isAsciiDigit_iff] at digit
    have place : tens.toNat = 49 ∨ tens.toNat = 50 :=
      ten.imp (congrArg Char.toNat) (congrArg Char.toNat)
    rw [isNumeral_pair]
    omega

/-- In ASCII the dates are the plain dates. -/
theorem isDate_iff_ascii :
    isDate text = true ∧ (∀ c ∈ text, c.toNat < 128) ↔ IsDate text := by
  rw [isDate_iff_ofScripts]
  constructor
  · rintro ⟨⟨year, month, day, rfl, ⟨length, digits⟩, isMonth, isDay⟩, ascii⟩
    rw [intercalate_dashes] at ascii
    simp only [List.forall_mem_append, List.forall_mem_cons] at ascii
    refine ⟨year, month, day, rfl, ⟨length, fun c mem => ?_⟩, isMonth,
      isDay.isNumeral ascii.2.2.2.2⟩
    rw [← isDecimalDigit_ascii (ascii.1 c mem), digits c mem]
  · rintro ⟨year, month, day, rfl, ⟨length, digits⟩, isMonth, isDay⟩
    refine ⟨⟨year, month, day, rfl, ⟨length, fun c mem => ?_⟩, isMonth, .inl isDay⟩, ?_⟩
    · exact isDecimalDigit_of_isAsciiDigit (digits c mem)
    · rw [intercalate_dashes]
      simp only [List.forall_mem_append, List.forall_mem_cons]
      exact ⟨fun c mem => toNat_lt_of_isAsciiDigit (digits c mem), by decide,
        fun c mem => toNat_lt_of_isAsciiDigit (isMonth.2.1 c mem), by decide,
        fun c mem => toNat_lt_of_isAsciiDigit (isDay.2.1 c mem)⟩

/-! ## The shapes -/

/-- A text has a shape exactly if the pattern of the shape occurs in it. -/
theorem fits_iff_occurs {subtype : Subtype} {pattern : Pattern}
    (named : pattern? subtype = some pattern) :
    fits subtype text = true ↔ pattern.Occurs text := by
  cases subtype <;> cases named
  case uuid => rw [Pattern.occurs_whole, matches_uuid, ← isUuid_iff, fits]
  case date => rw [Pattern.occurs_whole, matches_date, ← isDate_iff_ofScripts, fits]
  case alpha => rw [Pattern.occurs_whole, Pattern.matches_many_one, fits, List.all_eq_true]
  case alphanumeric => rw [Pattern.occurs_whole, Pattern.matches_many_one, fits, List.all_eq_true]

/-- Whether the text of a descriptor is one that admits a string. -/
def Admits (type string : String) : Prop :=
  ∃ descriptor, Descriptor.parse type = .ok descriptor ∧ descriptor.admits (.string string) = true

/-- A refinement of strings without limits admits the texts of its shape. -/
theorem admits_iff_fits {subtype : Subtype} (refines : subtype.kind = .string) (string : String) :
    Admits ("string." ++ subtype.keyword) string ↔ fits subtype string.toList = true := by
  have parsed : Descriptor.parse ("string." ++ subtype.keyword) =
      .ok (.primitive .string (some subtype) .none) := by
    cases subtype <;> first | rfl | cases refines
  have admitted : Descriptor.admits (.primitive .string (some subtype) .none) (.string string) =
      fits subtype string.toList := by
    rw [Descriptor.admits, Descriptor.admitsPrimitive, Descriptor.admitsString, Option.all_some]
    exact Bool.and_true _
  rw [← admitted]
  exact ⟨fun ⟨_, found, admits⟩ => Except.ok.inj (parsed.symm.trans found) ▸ admits,
    fun admits => ⟨_, parsed, admits⟩⟩

/-- **The shapes of a fixed form.** Of all strings exactly those are admitted in which the pattern of
the shape occurs. These are UUIDs, letters, and letters and digits of ASCII. In ASCII the dates are the
plain dates, and beyond it they have decimal digits of other scripts in the year, or behind a one or a
two in the day. -/
theorem admits_of_fixed_shapes (string : String) :
    (Admits "string.date" string ↔ IsDateOfScripts string.toList) ∧
      (Admits "string.date" string ∧ (∀ c ∈ string.toList, c.toNat < 128) ↔ IsDate string.toList) ∧
      (Admits "string.uuid" string ↔ HasGroups [8, 4, 4, 4, 12] string.toList) ∧
      (Admits "string.alpha" string ↔ ∀ c ∈ string.toList, isAsciiLetter c = true) ∧
      (Admits "string.alphanumeric" string ↔
        ∀ c ∈ string.toList, (isAsciiLetter c || isAsciiDigit c) = true) ∧
      ∀ subtype pattern, pattern? subtype = some pattern →
        (Admits ("string." ++ subtype.keyword) string ↔ pattern.Occurs string.toList) := by
  have date := @admits_iff_fits .date rfl string
  have uuid := @admits_iff_fits .uuid rfl string
  have alpha := @admits_iff_fits .alpha rfl string
  have alphanumeric := @admits_iff_fits .alphanumeric rfl string
  refine ⟨date.trans isDate_iff_ofScripts, (and_congr_left' date).trans isDate_iff_ascii,
    uuid.trans isUuid_iff, alpha.trans List.all_eq_true, alphanumeric.trans List.all_eq_true,
    fun subtype pattern named => ?_⟩
  have refines : subtype.kind = .string := by
    cases subtype <;> first | rfl | cases named
  exact (admits_iff_fits refines string).trans (fits_iff_occurs named)

/-- A plain date, in which the pattern of dates occurs. -/
theorem admits_of_fixed_shapes_plain :
    Admits "string.date" "2024-01-13" ∧ datePattern.whole.Occurs "2024-01-13".toList := by
  have admitted : Admits "string.date" "2024-01-13" := ⟨_, rfl, by decide⟩
  have ⟨_, _, _, _, _, occurs⟩ := admits_of_fixed_shapes "2024-01-13"
  exact ⟨admitted, (occurs .date _ rfl).mp admitted⟩

/-- A date with an Arabic digit at its end is admitted, and no plain date. -/
theorem not_isDate_of_admits : ¬ ∀ string, Admits "string.date" string ↔ IsDate string.toList := by
  intro plain
  have admitted : Admits "string.date" "2024-01-1٣" := ⟨_, rfl, by decide⟩
  have ascii := (isDate_iff_ascii.mpr ((plain _).mp admitted)).2
  exact absurd (ascii '٣' (by decide)) (by decide)

end Mixfix.Shape
