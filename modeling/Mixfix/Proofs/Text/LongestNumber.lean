import Mathlib.Computability.Language
import Mixfix.Proofs.Text.Clipping
import Mixfix.Proofs.Text.Numerals
import Mixfix.Proofs.Text.Slices

/-!
# The longest number

Numbers are a language: an optional minus, digits, an optional fraction and an optional exponent
(`numbers`). A reader that goes from part to part and takes as much as it can of each could miss the
longest number, or any number, where one part takes what belongs to the next. This does not happen
if no word of the next part starts with a character that the part before it goes on with (`Takes`,
`Takes.followedBy`, `takes_numbers`).

So a number is read exactly if one stands ahead, and then it is the longest one
(`number?_longest`). Its value, which is made of its parts, is also the one that its whole text has
for readers that may refuse a text: one of integers with any sign, and one of floating-point numbers
with digits on either side of the point or with names (`valueOf?`).
-/

set_option autoImplicit false

namespace Mixfix.Lexeme

open Unicode (isAsciiDigit)

/-! ## The language of numbers -/

/-- The words of one character that passes a test. -/
def character (test : Char → Bool) : Language Char := {word | ∃ c, test c = true ∧ word = [c]}

/-- Digits, at least one. -/
def digits : Language Char := {word | word ≠ [] ∧ ∀ c ∈ word, isAsciiDigit c = true}

/-- A point and digits. -/
def fractions : Language Char := character (· = '.') * digits

/-- The mark of an exponent, an optional sign and digits. -/
def exponents : Language Char :=
  character (fun c => c = 'e' || c = 'E') * (1 + character fun c => c = '+' || c = '-') * digits

/-- An optional minus and digits. -/
def wholes : Language Char := (1 + character (· = '-')) * digits

/-- A whole part, an optional fraction and an optional exponent. -/
def numbers : Language Char := wholes * (1 + fractions) * (1 + exponents)

/-! ## Taking the longest word -/

/-- Takes a word off a text and leaves the rest, if there is a word. -/
abbrev Taker := List Char → Option (List Char)

/-- Takes a word for one taker and then one for another. -/
def Taker.followedBy (take? next? : Taker) : Taker := fun text => (take? text).bind next?

/-- Takes a word or nothing. -/
def Taker.orNothing (take? : Taker) : Taker := fun text => some ((take? text).getD text)

/-- A taker takes a word of a language, and it takes every word of it that the text starts with. It
goes on behind such a word only if one of certain characters stands there. -/
structure Takes (take? : Taker) (language : Language Char) (more : Char → Prop) : Prop where
  sound : ∀ {text behind}, take? text = some behind → ∃ word ∈ language, text = word ++ behind
  longest : ∀ {word}, word ∈ language → ∀ behind, ∃ left, take? (word ++ behind) = some left ∧
    (left = behind ∨ left <:+ behind ∧ ∃ c ∈ behind.head?, more c)

namespace Takes

variable {take? next? : Taker} {language later : Language Char} {more more' starts : Char → Prop}

theorem mono (takes : Takes take? language more) (wider : ∀ c, more c → more' c) :
    Takes take? language more' where
  sound := takes.sound
  longest mem behind := by
    obtain ⟨left, taken, rest⟩ := takes.longest mem behind
    refine ⟨left, taken, rest.imp_right ?_⟩
    rintro ⟨tail, c, head, goesOn⟩
    exact ⟨tail, c, head, wider c goesOn⟩

theorem absent (takes : Takes take? language more) {text : List Char}
    (missed : take? text = none) : ∀ word ∈ language, ¬ word <+: text := by
  rintro word mem ⟨behind, rfl⟩
  obtain ⟨left, taken, _⟩ := takes.longest mem behind
  rw [missed] at taken
  cases taken

/-- Words of two languages one after the other, if no word of the second goes on with the first. -/
theorem followedBy (takes : Takes take? language more) (takes' : Takes next? later more')
    (apart : ∀ word ∈ later, ∀ c ∈ word.head?, ¬ more c) :
    Takes (take?.followedBy next?) (language * later) (fun c => more c ∨ more' c) where
  sound {text behind} taken := by
    obtain ⟨middle, first, second⟩ := Option.bind_eq_some_iff.mp taken
    obtain ⟨word, mem, rfl⟩ := takes.sound first
    obtain ⟨word', mem', rfl⟩ := takes'.sound second
    exact ⟨word ++ word', Language.append_mem_mul mem mem', by rw [List.append_assoc]⟩
  longest {word} mem behind := by
    obtain ⟨first, memFirst, second, memSecond, rfl⟩ := Language.mem_mul.mp mem
    obtain ⟨middle, taken, rest⟩ := takes.longest memFirst (second ++ behind)
    rw [List.append_assoc, Taker.followedBy, taken, Option.bind_some]
    rcases rest with rfl | ⟨tail, c, head, goesOn⟩
    · exact (takes'.mono fun _ => Or.inr).longest memSecond behind
    · cases second with
      | cons d second =>
          cases head
          exact absurd goesOn (apart _ memSecond c rfl)
      | nil =>
          obtain ⟨left, taken', rest⟩ := takes'.longest memSecond middle
          refine ⟨left, taken', .inr ⟨?_, c, head, .inl goesOn⟩⟩
          rcases rest with rfl | ⟨tail', _⟩
          · exact tail
          · exact tail'.trans tail

theorem orNothing (takes : Takes take? language more)
    (heads : ∀ word ∈ language, ∃ c ∈ word.head?, starts c) :
    Takes take?.orNothing (1 + language) (fun c => more c ∨ starts c) where
  sound {text behind} taken := by
    rw [Taker.orNothing] at taken
    cases found : take? text with
    | none =>
        rw [found] at taken
        cases taken
        exact ⟨[], .inl rfl, rfl⟩
    | some left =>
        rw [found] at taken
        cases taken
        obtain ⟨word, mem, same⟩ := takes.sound found
        exact ⟨word, .inr mem, same⟩
  longest {word} mem behind := by
    refine ⟨_, rfl, ?_⟩
    rcases mem with rfl | mem
    · cases found : take? behind with
      | none => exact .inl (by simp [found])
      | some left =>
          obtain ⟨word, mem, rfl⟩ := takes.sound found
          obtain ⟨c, head, starts⟩ := heads word mem
          refine .inr ⟨by simp [found], c, ?_, .inr starts⟩
          rw [List.head?_append, head]
          rfl
    · obtain ⟨left, taken, rest⟩ := (takes.mono fun _ => Or.inl).longest mem behind
      rw [taken]
      exact rest

end Takes

/-! ## Taking a number -/

/-- Takes one character that passes a test. -/
def takeCharacter? (test : Char → Bool) : Taker
  | [] => none
  | c :: text => if test c then some text else none

/-- Takes digits, as many as there are. -/
def takeDigits? : Taker := fun text =>
  if (splitDigits text).1 = [] then none else some (splitDigits text).2

/-- Takes a minus or nothing. -/
def takeMinus? : Taker := (takeCharacter? (· = '-')).orNothing

/-- Takes a fraction. -/
def takeFraction? : Taker := (takeCharacter? (· = '.')).followedBy takeDigits?

/-- Takes an exponent. -/
def takeExponent? : Taker :=
  ((takeCharacter? fun c => c = 'e' || c = 'E').followedBy
    (takeCharacter? fun c => c = '+' || c = '-').orNothing).followedBy takeDigits?

/-- Takes a number. -/
def takeNumber? : Taker :=
  ((takeMinus?.followedBy takeDigits?).followedBy takeFraction?.orNothing).followedBy
    takeExponent?.orNothing

theorem takes_character (test : Char → Bool) :
    Takes (takeCharacter? test) (character test) fun _ => False where
  sound {text behind} taken := by
    cases text with
    | nil => cases taken
    | cons c text =>
        rw [takeCharacter?] at taken
        split at taken
        · next holds =>
            cases taken
            exact ⟨[c], ⟨c, holds, rfl⟩, rfl⟩
        · cases taken
  longest {word} mem behind := by
    obtain ⟨c, holds, rfl⟩ := mem
    exact ⟨behind, if_pos holds, .inl rfl⟩

theorem takes_digits : Takes takeDigits? digits fun c => isAsciiDigit c = true where
  sound {text behind} taken := by
    rw [takeDigits?] at taken
    split at taken
    · cases taken
    · next nonempty =>
        cases taken
        exact ⟨_, ⟨nonempty, fun c => isAsciiDigit_of_mem_splitDigits⟩,
          (splitDigits_append text).symm⟩
  longest {word} mem behind := by
    obtain ⟨nonempty, isDigits⟩ := mem
    have taken : splitDigits (word ++ behind) =
        (word ++ (splitDigits behind).1, (splitDigits behind).2) := by
      simp only [splitDigits, List.takeWhile_append_of_pos isDigits,
        List.dropWhile_append_of_pos isDigits]
    refine ⟨(splitDigits behind).2, ?_, ?_⟩
    · rw [takeDigits?, taken, if_neg (by simp [nonempty])]
    · cases behind with
      | nil => exact .inl rfl
      | cons c behind =>
          by_cases digit : isAsciiDigit c = true
          · exact .inr ⟨List.dropWhile_suffix _, c, rfl, digit⟩
          · exact .inl (by simp [splitDigits, digit])

theorem head_of_mem_character {test : Char → Bool} {word : List Char}
    (mem : word ∈ character test) : ∃ c ∈ word.head?, test c = true := by
  obtain ⟨c, holds, rfl⟩ := mem
  exact ⟨c, rfl, holds⟩

/-- Words that start with a character go on to start with it. -/
theorem head_of_mem_mul {test : Char → Prop} {language later : Language Char} {word : List Char}
    (heads : ∀ word ∈ language, ∃ c ∈ word.head?, test c) (mem : word ∈ language * later) :
    ∃ c ∈ word.head?, test c := by
  obtain ⟨first, memFirst, rest, _, rfl⟩ := Language.mem_mul.mp mem
  obtain ⟨c, head, holds⟩ := heads first memFirst
  exact ⟨c, by rw [List.head?_append, head]; rfl, holds⟩

theorem head_of_mem_fractions {word : List Char} (mem : word ∈ fractions) :
    ∃ c ∈ word.head?, c = '.' := by
  obtain ⟨c, head, holds⟩ := head_of_mem_mul (fun _ => head_of_mem_character) mem
  exact ⟨c, head, of_decide_eq_true holds⟩

theorem head_of_mem_exponents {word : List Char} (mem : word ∈ exponents) :
    ∃ c ∈ word.head?, c = 'e' ∨ c = 'E' := by
  obtain ⟨c, head, holds⟩ :=
    head_of_mem_mul (fun _ => head_of_mem_mul fun _ => head_of_mem_character) mem
  exact ⟨c, head, by simpa using holds⟩

theorem takes_fractions : Takes takeFraction? fractions fun c => isAsciiDigit c = true :=
  ((takes_character _).followedBy takes_digits fun _ _ _ _ => id).mono fun _ => (·.resolve_left id)

/-- Digits do not start with another character. -/
theorem not_head_of_mem_digits {c : Char} (other : isAsciiDigit c = false) :
    ∀ word ∈ digits, ∀ d ∈ word.head?, d ≠ c := by
  rintro word ⟨_, isDigits⟩ d head rfl
  have digit := isDigits d (List.mem_of_mem_head? head)
  rw [other] at digit
  cases digit

theorem takes_exponents : Takes takeExponent? exponents
    fun c => c = '+' ∨ c = '-' ∨ isAsciiDigit c = true := by
  have sign := (takes_character fun c => c = '+' || c = '-').orNothing
    fun _ => head_of_mem_character
  have marked := (takes_character fun c => c = 'e' || c = 'E').followedBy sign fun _ _ _ _ => id
  refine (marked.followedBy takes_digits ?_).mono ?_
  · intro word mem c head holds
    have plus := not_head_of_mem_digits (by decide : isAsciiDigit '+' = false) word mem c head
    have minus := not_head_of_mem_digits (by decide : isAsciiDigit '-' = false) word mem c head
    simp [plus, minus] at holds
  · intro c holds
    simpa [or_assoc] using holds

theorem takes_wholes : Takes (takeMinus?.followedBy takeDigits?) wholes
    fun c => c = '-' ∨ isAsciiDigit c = true := by
  have minus := (takes_character (· = '-')).orNothing fun _ => head_of_mem_character
  refine (minus.followedBy takes_digits ?_).mono ?_
  · intro word mem c head holds
    have dash := not_head_of_mem_digits (by decide : isAsciiDigit '-' = false) word mem c head
    simp [dash] at holds
  · intro c holds
    simpa using holds

theorem takes_numbers : Takes takeNumber? numbers fun _ => True := by
  have fraction := takes_fractions.orNothing fun _ => head_of_mem_fractions
  have exponent := takes_exponents.orNothing fun _ => head_of_mem_exponents
  refine ((takes_wholes.followedBy fraction ?_).followedBy exponent ?_).mono fun _ _ => trivial
  · rintro word (rfl | mem) c head holds
    · cases head
    · obtain ⟨d, head', rfl⟩ := head_of_mem_fractions mem
      cases Option.mem_unique head head'
      revert holds
      decide
  · rintro word (rfl | mem) c head holds
    · cases head
    · obtain ⟨d, head', mark⟩ := head_of_mem_exponents mem
      cases Option.mem_unique head head'
      revert holds
      rcases mark with rfl | rfl <;> decide

/-! ## The parts of a number -/

theorem takeMinus?_eq (text : List Char) : takeMinus? text = some (splitMinus text).2 := by
  cases text with
  | nil => rfl
  | cons c text =>
      by_cases dash : c = '-'
      · subst dash
        rfl
      · rw [splitMinus_of_ne dash]
        simp [takeMinus?, Taker.orNothing, takeCharacter?, dash]

theorem takeSign?_eq (text : List Char) :
    (takeCharacter? fun c => c = '+' || c = '-').orNothing text = some (splitSign text).2 := by
  cases text with
  | nil => rfl
  | cons c text =>
      by_cases plus : c = '+'
      · subst plus
        rfl
      · by_cases dash : c = '-'
        · subst dash
          rfl
        · rw [splitSign_of_ne plus dash]
          simp [Taker.orNothing, takeCharacter?, plus, dash]

theorem splitFraction_nil {text rest : List Char} (none : splitFraction text = ([], rest)) :
    rest = text := by
  unfold splitFraction at none
  split at none
  · split at none
    · exact (Prod.mk.inj none).2.symm
    · next nonempty _ => exact absurd (Prod.mk.inj none).1 nonempty
  · exact (Prod.mk.inj none).2.symm

theorem splitExponent_none {text rest : List Char} (none : splitExponent text = (.none, rest)) :
    rest = text := by
  unfold splitExponent at none
  split at none
  · exact (Prod.mk.inj none).2.symm
  · split at none
    · dsimp only at none
      split at none
      · exact (Prod.mk.inj none).2.symm
      · cases none
    · exact (Prod.mk.inj none).2.symm

/-- A fraction is taken exactly if one is divided from a text. -/
theorem takeFraction?_eq (text : List Char) : takeFraction? text =
    if (splitFraction text).1 = [] then none else some (splitFraction text).2 := by
  cases text with
  | nil => rfl
  | cons c text =>
      by_cases point : c = '.'
      · subst point
        simp only [takeFraction?, Taker.followedBy, takeCharacter?, decide_true, if_true,
          Option.bind_some, takeDigits?, splitFraction]
        rcases splitDigits text with ⟨_ | ⟨digit, digits⟩, behind⟩ <;> rfl
      · rw [splitFraction_of_ne point]
        simp [takeFraction?, Taker.followedBy, takeCharacter?, point]

theorem splitFraction_of_missed {text : List Char} (missed : takeFraction? text = none) :
    splitFraction text = ([], text) := by
  rw [takeFraction?_eq] at missed
  split at missed
  · next none => exact Prod.ext none (splitFraction_nil (Prod.ext none rfl))
  · cases missed

theorem orNothing_takeFraction? (text : List Char) :
    takeFraction?.orNothing text = some (splitFraction text).2 := by
  rw [Taker.orNothing]
  cases found : takeFraction? text with
  | none => rw [splitFraction_of_missed found, Option.getD_none]
  | some behind =>
      rw [takeFraction?_eq] at found
      split at found
      · cases found
      · exact found.symm

/-- An exponent is taken exactly if one is divided from a text. -/
theorem takeExponent?_eq (text : List Char) :
    takeExponent? text = (splitExponent text).1.map fun _ => (splitExponent text).2 := by
  cases text with
  | nil => rfl
  | cons mark text =>
      simp only [takeExponent?, Taker.followedBy, takeCharacter?, splitExponent]
      split
      · rw [Option.bind_some, takeSign?_eq, Option.bind_some, takeDigits?]
        rcases splitDigits (splitSign text).2 with ⟨_ | ⟨digit, digits⟩, behind⟩ <;> rfl
      · rfl

theorem splitExponent_of_missed {text : List Char} (missed : takeExponent? text = none) :
    splitExponent text = (none, text) := by
  rw [takeExponent?_eq, Option.map_eq_none_iff] at missed
  exact Prod.ext missed (splitExponent_none (Prod.ext missed rfl))

theorem orNothing_takeExponent? (text : List Char) :
    takeExponent?.orNothing text = some (splitExponent text).2 := by
  rw [Taker.orNothing]
  cases found : takeExponent? text with
  | none => rw [splitExponent_of_missed found, Option.getD_none]
  | some behind =>
      rw [takeExponent?_eq] at found
      obtain ⟨_, _, same⟩ := Option.map_eq_some_iff.mp found
      rw [same, Option.getD_some]

/-- Dividing a text after a number takes the number. -/
theorem takeNumber?_eq (text : List Char) :
    takeNumber? text = (splitNumber text).map Prod.snd := by
  simp only [takeNumber?, Taker.followedBy, takeMinus?_eq, Option.bind_some, takeDigits?,
    splitNumber]
  rcases splitDigits (splitMinus text).2 with ⟨_ | ⟨digit, digits⟩, afterWhole⟩
  · rfl
  · rw [if_neg (List.cons_ne_nil _ _), Option.bind_some, orNothing_takeFraction?, Option.bind_some,
      orNothing_takeExponent?]
    rfl

theorem splitMinus_append (text : List Char) :
    (if (splitMinus text).1 then ['-'] else []) ++ (splitMinus text).2 = text := by
  unfold splitMinus
  split <;> rfl

section Parts

variable {text behind : List Char} {parts : NumberParts}

/-- The parts of a number stand one after the other. -/
theorem splitNumber_eq_some (divided : splitNumber text = some (parts, behind)) :
    ∃ afterWhole afterFraction, splitDigits (splitMinus text).2 = (parts.whole, afterWhole) ∧
      splitFraction afterWhole = (parts.fraction, afterFraction) ∧
      splitExponent afterFraction = (parts.exponent, behind) ∧
      (splitMinus text).1 = parts.negative ∧ parts.whole ≠ [] := by
  simp only [splitNumber] at divided
  rcases digits : splitDigits (splitMinus text).2 with ⟨_ | ⟨digit, more⟩, afterWhole⟩
  · rw [digits] at divided
    cases divided
  · rw [digits] at divided
    rcases fraction : splitFraction afterWhole with ⟨fractional, afterFraction⟩
    rcases exponent : splitExponent afterFraction with ⟨power, rest⟩
    simp only [fraction, exponent, Option.some.injEq, Prod.mk.injEq] at divided
    obtain ⟨rfl, rfl⟩ := divided
    exact ⟨afterWhole, afterFraction, rfl, fraction, exponent, rfl, List.cons_ne_nil _ _⟩

theorem whole_mem_digits (divided : splitNumber text = some (parts, behind)) :
    parts.whole ∈ digits := by
  obtain ⟨_, _, whole, _, _, _, nonempty⟩ := splitNumber_eq_some divided
  have isDigits := fun c => @isAsciiDigit_of_mem_splitDigits (splitMinus text).2 c
  rw [whole] at isDigits
  exact ⟨nonempty, isDigits⟩

/-- A number without a fraction and an exponent is its sign and its digits. -/
theorem eq_of_splitNumber (divided : splitNumber text = some (parts, behind))
    (noFraction : parts.fraction = []) (noExponent : parts.exponent = none) :
    text = (if parts.negative then ['-'] else []) ++ parts.whole ++ behind := by
  obtain ⟨_, _, whole, fraction, exponent, minus, _⟩ := splitNumber_eq_some divided
  rw [noFraction] at fraction
  rw [noExponent] at exponent
  have unsigned := splitDigits_append (splitMinus text).2
  rw [whole, ← splitFraction_nil fraction, ← splitExponent_none exponent] at unsigned
  rw [← minus, List.append_assoc, unsigned, splitMinus_append]

end Parts

/-! ## Values -/

/-- A text writes an integer with an optional minus and digits. -/
inductive WritesInteger : List Char → Int → Prop
  | plain {word : List Char} (mem : word ∈ digits) : WritesInteger word (Nat.ofDigitChars 10 word 0)
  | negated {word : List Char} (mem : word ∈ digits) :
      WritesInteger ('-' :: word) (-Nat.ofDigitChars 10 word 0)

/-- The integer of 64 bits that a text writes with an optional sign and digits. -/
def integerOf? (text : List Char) : Option Int64 :=
  let (negative, unsigned) := splitSign text
  match splitDigits unsigned with
  | (digit :: more, []) => Numeral.toInt64? (withSign negative (Numeral.value (digit :: more)))
  | _ => none

/-- The power of ten that an optional exponent stands for. -/
def power (exponent : Option (Bool × List Char)) : Int :=
  exponent.elim 0 fun (negative, digits) => withSign negative (Numeral.value digits)

/-- Divides a text after a leading point and the digits behind it, which may be missing. -/
def splitPoint : List Char → List Char × List Char
  | '.' :: rest => splitDigits rest
  | text => ([], text)

/-- The floating-point number that has a name. -/
def named? (negative : Bool) (text : List Char) : Option Binary64 :=
  let name := text.map Char.toLower
  if name = "inf".toList || name = "infinity".toList then some (.infinity negative)
  else if name = "nan".toList then some .nan
  else none

/-- The floating-point number that a text writes with an optional sign, and either with digits, of
which some must stand before or behind an optional point, and an optional exponent, or by name. -/
def binaryOf? (text : List Char) : Option Binary64 :=
  let (negative, unsigned) := splitSign text
  let (whole, afterWhole) := splitDigits unsigned
  let (fraction, afterFraction) := splitPoint afterWhole
  match splitExponent afterFraction with
  | (exponent, []) =>
    if whole = [] && fraction = [] then named? negative unsigned
    else some (Numeral.nearest negative whole fraction (power exponent))
  | _ => named? negative unsigned

/-- The value of the text of a number: unless it has a fraction or an exponent, the integer that it
writes, otherwise, or if there is none, the floating-point number, if there is one. -/
def valueOf? (pointed : Bool) (text : List Char) : Option Value :=
  match if pointed then none else integerOf? text with
  | some n => some (.integer n)
  | none => (binaryOf? text).map .float

/-- An integer is written by its sign and its digits. -/
theorem writesInteger_iff {text : List Char} {n : Int} : WritesInteger text n ↔
    ∃ negative, ∃ word ∈ digits, text = (if negative then ['-'] else []) ++ word ∧
      withSign negative (Numeral.value word) = n := by
  constructor
  · intro writes
    cases writes with
    | plain mem => exact ⟨false, _, mem, rfl, congrArg _ (Numeral.value_eq_ofDigitChars mem.2)⟩
    | negated mem =>
        exact ⟨true, _, mem, rfl, congrArg (withSign true) (Numeral.value_eq_ofDigitChars mem.2)⟩
  · rintro ⟨negative, word, mem, rfl, rfl⟩
    rw [Numeral.value_eq_ofDigitChars mem.2]
    cases negative with
    | true => exact .negated mem
    | false => exact .plain mem

section Values

variable {text : List Char} {parts : NumberParts} (divided : splitNumber text = some (parts, []))
include divided

theorem writesInteger_iff_parts {n : Int} : WritesInteger text n ↔
    parts.fraction = [] ∧ parts.exponent = none ∧
      withSign parts.negative (Numeral.value parts.whole) = n := by
  rw [writesInteger_iff]
  constructor
  · rintro ⟨negative, word, mem, rfl, value⟩
    have own := @splitNumber_whole _ [] negative mem.1 mem.2 rfl rfl rfl
    rw [List.append_nil, divided] at own
    cases own
    exact ⟨rfl, rfl, value⟩
  · rintro ⟨noFraction, noExponent, value⟩
    have parts := eq_of_splitNumber divided noFraction noExponent
    rw [List.append_nil] at parts
    exact ⟨_, _, whole_mem_digits divided, parts, value⟩

omit divided in
/-- A number is an integer or it is a floating-point number. -/
theorem value_cases (parts : NumberParts) :
    (∃ n, parts.value = .integer n ∧ parts.fraction = [] ∧ parts.exponent = none ∧
      Numeral.toInt64? (withSign parts.negative (Numeral.value parts.whole)) = some n) ∨
    (parts.fraction = [] → parts.exponent = none →
      Numeral.toInt64? (withSign parts.negative (Numeral.value parts.whole)) = none) ∧
      parts.value = .float
        (Numeral.nearest parts.negative parts.whole parts.fraction (power parts.exponent)) := by
  obtain ⟨negative, whole, fraction, exponent⟩ := parts
  cases exponent with
  | some exponent => exact .inr ⟨fun _ => nofun, by cases fraction <;> rfl⟩
  | none =>
      cases fraction with
      | cons digit more => exact .inr ⟨nofun, rfl⟩
      | nil =>
          dsimp only [NumberParts.value]
          cases fits : Numeral.toInt64? (withSign negative (Numeral.value whole)) with
          | none => exact .inr ⟨fun _ _ => rfl, rfl⟩
          | some n => exact .inl ⟨n, rfl, rfl, rfl, rfl⟩

/-- A number has the integer for its value that it writes, if this has 64 bits. -/
theorem value_eq_integer_iff {n : Int64} :
    parts.value = .integer n ↔ WritesInteger text n.toInt := by
  rw [writesInteger_iff_parts divided]
  constructor
  · intro integer
    rcases value_cases parts with ⟨m, value, noFraction, noExponent, fits⟩ | ⟨_, value⟩
    · rw [integer] at value
      cases value
      exact ⟨noFraction, noExponent, (Numeral.toInt_of_toInt64? fits).symm⟩
    · rw [integer] at value
      cases value
  · rintro ⟨noFraction, noExponent, same⟩
    rcases value_cases parts with ⟨m, value, _, _, fits⟩ | ⟨none, _⟩
    · rw [same, Numeral.toInt64?_toInt] at fits
      cases fits
      exact value
    · have absent := none noFraction noExponent
      rw [same, Numeral.toInt64?_toInt] at absent
      cases absent

theorem mem_wholes_iff : text ∈ wholes ↔ parts.fraction = [] ∧ parts.exponent = none := by
  constructor
  · intro mem
    obtain ⟨minus, sign, word, isDigits, rfl⟩ := Language.mem_mul.mp mem
    rcases sign with rfl | ⟨c, dash, rfl⟩
    · obtain ⟨noFraction, noExponent, _⟩ :=
        (writesInteger_iff_parts divided).mp (.plain isDigits)
      exact ⟨noFraction, noExponent⟩
    · cases of_decide_eq_true dash
      obtain ⟨noFraction, noExponent, _⟩ :=
        (writesInteger_iff_parts divided).mp (.negated isDigits)
      exact ⟨noFraction, noExponent⟩
  · rintro ⟨noFraction, noExponent⟩
    rw [eq_of_splitNumber divided noFraction noExponent, List.append_nil]
    refine Language.append_mem_mul ?_ (whole_mem_digits divided)
    split
    · exact .inr ⟨'-', rfl, rfl⟩
    · exact .inl rfl

/-- A number starts with no other sign than a minus. -/
theorem splitSign_eq : splitSign text = splitMinus text := by
  cases text with
  | nil => rfl
  | cons c text =>
      by_cases plus : c = '+'
      · subst plus
        cases divided
      · by_cases dash : c = '-'
        · subst dash
          rfl
        · rw [splitSign_of_ne plus dash, splitMinus_of_ne dash]

theorem integerOf?_eq (noFraction : parts.fraction = []) (noExponent : parts.exponent = none) :
    integerOf? text = Numeral.toInt64? (withSign parts.negative (Numeral.value parts.whole)) := by
  obtain ⟨_, _, whole, fraction, exponent, minus, nonempty⟩ := splitNumber_eq_some divided
  rw [noFraction] at fraction
  rw [noExponent] at exponent
  rw [← splitFraction_nil fraction, ← splitExponent_none exponent] at whole
  obtain ⟨digit, more, same⟩ := List.exists_cons_of_ne_nil nonempty
  simp only [integerOf?, splitSign_eq divided, whole, same, minus]

omit divided in
/-- A point without digits is not followed by the exponent that ends a text. -/
theorem splitPoint_eq {afterWhole fraction afterFraction : List Char}
    {exponent : Option (Bool × List Char)}
    (divided : splitFraction afterWhole = (fraction, afterFraction))
    (last : splitExponent afterFraction = (exponent, [])) :
    splitPoint afterWhole = (fraction, afterFraction) := by
  unfold splitFraction at divided
  split at divided
  · next rest =>
      split at divided
      · cases divided
        cases last
      · next digits => exact digits.trans divided
  · next other =>
      rw [← divided]
      unfold splitPoint
      split
      · next same => exact absurd rfl (other _)
      · rfl

theorem binaryOf?_eq : binaryOf? text =
    some (Numeral.nearest parts.negative parts.whole parts.fraction (power parts.exponent)) := by
  obtain ⟨_, _, whole, fraction, exponent, minus, nonempty⟩ := splitNumber_eq_some divided
  simp [binaryOf?, splitSign_eq divided, whole, splitPoint_eq fraction exponent, exponent, minus,
    nonempty]

theorem valueOf?_eq {pointed : Bool} (isPointed : pointed = true ↔ text ∉ wholes) :
    valueOf? pointed text = some parts.value := by
  rw [mem_wholes_iff divided] at isPointed
  have binary := binaryOf?_eq divided
  cases pointed with
  | true =>
      rcases value_cases parts with ⟨n, _, noFraction, noExponent, _⟩ | ⟨_, value⟩
      · exact absurd ⟨noFraction, noExponent⟩ (isPointed.mp rfl)
      · rw [valueOf?, if_pos rfl, binary, value]
        rfl
  | false =>
      have plain : parts.fraction = [] ∧ parts.exponent = none := by simpa using isPointed
      have integer := integerOf?_eq divided plain.1 plain.2
      rw [valueOf?, if_neg Bool.false_ne_true, integer, binary]
      rcases value_cases parts with ⟨n, value, _, _, fits⟩ | ⟨none, value⟩
      · rw [fits, value]
      · rw [none plain.1 plain.2, value]
        rfl

end Values

/-! ## Reading -/

variable {cursor : Cursor} {text behind : List Char}

/-- A text is the longest number that another one starts with. -/
def IsLongest (text ahead : List Char) : Prop :=
  text ∈ numbers ∧ text <+: ahead ∧ ∀ other ∈ numbers, other <+: ahead → other.length ≤ text.length

/-- A number is divided from a text exactly if the text starts with one. -/
theorem isSome_splitNumber_iff {ahead : List Char} :
    (splitNumber ahead).isSome ↔ ∃ text ∈ numbers, text <+: ahead := by
  rw [← Option.isSome_map (f := Prod.snd), ← takeNumber?_eq, Option.isSome_iff_exists]
  constructor
  · rintro ⟨behind, taken⟩
    obtain ⟨text, mem, rfl⟩ := takes_numbers.sound taken
    exact ⟨text, mem, List.prefix_append _ _⟩
  · rintro ⟨text, mem, behind, rfl⟩
    obtain ⟨left, taken, _⟩ := takes_numbers.longest mem behind
    exact ⟨left, taken⟩

/-- What is divided from a text is the longest number. -/
theorem exists_isLongest {ahead : List Char} {parts : NumberParts}
    (divided : splitNumber ahead = some (parts, behind)) :
    ∃ text, ahead = text ++ behind ∧ IsLongest text ahead := by
  have taken : takeNumber? ahead = some behind := by rw [takeNumber?_eq, divided]; rfl
  obtain ⟨text, mem, rfl⟩ := takes_numbers.sound taken
  refine ⟨text, rfl, mem, List.prefix_append _ _, ?_⟩
  rintro other mem' ⟨rest, same⟩
  obtain ⟨left, taken', tail⟩ := takes_numbers.longest mem' rest
  rw [same, taken] at taken'
  cases taken'
  have shorter : behind.length ≤ rest.length := by
    rcases tail with rfl | ⟨tail, _⟩
    · exact Nat.le_refl _
    · exact tail.length_le
  have counts := congrArg List.length same
  rw [List.length_append, List.length_append] at counts
  omega

theorem exists_divided {lexeme : Lexeme Value} (found : number? cursor = some lexeme) :
    ∃ parts behind, splitNumber cursor.skipBlanks.rest = some (parts, behind) := by
  simp only [number?] at found
  split at found
  · next parts behind divided => exact ⟨parts, behind, divided⟩
  · cases found

theorem number?_of_splitNumber {parts : NumberParts}
    (ahead : cursor.skipBlanks.rest = text ++ behind)
    (divided : splitNumber cursor.skipBlanks.rest = some (parts, behind)) :
    number? cursor = some (Lexeme.ahead cursor.skipBlanks text.length parts.value) := by
  have count : cursor.skipBlanks.rest.length - behind.length = text.length := by
    rw [ahead, List.length_append, Nat.add_sub_cancel]
  simp only [number?, divided, count]

theorem span_ahead {α : Type} (stands : text <+: cursor.rest) (content : α) :
    (Lexeme.ahead cursor text.length content).span =
      ⟨cursor.offset, cursor.offset + byteLength text⟩ := by
  rw [Lexeme.ahead, (Cursor.spells_of_prefix stands).2]

/-- The text of an integer is divided from what starts with no digit, fraction or exponent. -/
theorem splitNumber_toString (n : Int64)
    (ends : ∀ word ∈ digits + fractions + exponents, ¬ word <+: behind) :
    splitNumber ((toString n.toInt).toList ++ behind) =
      some (⟨decide (n.toInt < 0), Nat.toDigits 10 n.toInt.natAbs, [], none⟩, behind) := by
  have missed {take? : Taker} {language : Language Char} {more : Char → Prop}
      (takes : Takes take? language more) (part : language ≤ digits + fractions + exponents) :
      take? behind = none := by
    cases taken : take? behind with
    | none => rfl
    | some left =>
        obtain ⟨word, mem, same⟩ := takes.sound taken
        exact absurd ⟨left, same.symm⟩ (ends word (part mem))
  have noDigit : behind.head?.all (fun c => !isAsciiDigit c) = true := by
    cases behind with
    | nil => rfl
    | cons c behind =>
        cases digit : isAsciiDigit c with
        | false => simp [digit]
        | true =>
            have word : [c] ∈ digits := ⟨List.cons_ne_nil _ _, by simpa using digit⟩
            exact absurd ⟨behind, rfl⟩ (ends [c] (.inl (.inl word)))
  have fraction := splitFraction_of_missed (missed takes_fractions fun _ mem => .inl (.inr mem))
  have exponent := splitExponent_of_missed (missed takes_exponents fun _ mem => .inr mem)
  rw [Numeral.toList_toString]
  have whole := splitNumber_whole (decide (n.toInt < 0)) (Numeral.toDigits_ne_nil n.toInt.natAbs)
    (Numeral.digits_toDigits _) noDigit fraction exponent
  simpa only [decide_eq_true_eq] using whole

/-- A number is read exactly if a number stands ahead, and then it is the longest one. Its text has
a value, and this is the integer that it writes, if there is one of 64 bits, and otherwise a
floating-point number. The text of an integer is read as this integer, unless it goes on behind. -/
theorem number?_longest (cursor : Cursor) :
    ((number? cursor).isSome ↔ ∃ text ∈ numbers, text <+: cursor.skipBlanks.rest) ∧
    (∀ lexeme, number? cursor = some lexeme → ∃ text, IsLongest text cursor.skipBlanks.rest ∧
      lexeme.span = ⟨cursor.skipBlanks.offset, cursor.skipBlanks.offset + byteLength text⟩ ∧
      lexeme.next = cursor.skipBlanks.advance text.length ∧
      (∀ pointed, (pointed = true ↔ text ∉ wholes) →
        valueOf? pointed text = some lexeme.content) ∧
      (∀ n : Int64, lexeme.content = .integer n ↔ WritesInteger text n.toInt) ∧
      ((∀ n : Int64, ¬ WritesInteger text n.toInt) → ∃ x, lexeme.content = .float x)) ∧
    (∀ (n : Int64) behind, cursor.skipBlanks.rest = (toString n.toInt).toList ++ behind →
      (∀ word ∈ digits + fractions + exponents, ¬ word <+: behind) →
      ∃ lexeme, number? cursor = some lexeme ∧ lexeme.content = .integer n ∧
        lexeme.span = ⟨cursor.skipBlanks.offset,
          cursor.skipBlanks.offset + byteLength (toString n.toInt).toList⟩) := by
  refine ⟨?_, ?_, ?_⟩
  · rw [← isSome_splitNumber_iff]
    simp only [number?]
    cases splitNumber cursor.skipBlanks.rest <;> rfl
  · intro lexeme found
    obtain ⟨parts, behind, divided⟩ := exists_divided found
    obtain ⟨text, ahead, longest⟩ := exists_isLongest divided
    rw [number?_of_splitNumber ahead divided] at found
    cases found
    have own : splitNumber text = some (parts, []) := splitNumber_own (ahead ▸ divided)
    refine ⟨text, longest, span_ahead longest.2.1 _, rfl, fun _ => valueOf?_eq own,
      fun _ => value_eq_integer_iff own, fun none => ?_⟩
    rcases value_cases parts with ⟨n, value, _⟩ | ⟨_, value⟩
    · exact absurd ((value_eq_integer_iff own).mp value) (none n)
    · exact ⟨_, value⟩
  · intro n behind ahead ends
    have divided := splitNumber_toString n ends
    rw [← ahead] at divided
    refine ⟨_, number?_of_splitNumber ahead divided, ?_, span_ahead ⟨behind, ahead.symm⟩ _⟩
    dsimp only [Lexeme.ahead, NumberParts.value]
    rw [Numeral.value_toDigits, Numeral.withSign_natAbs, Numeral.toInt64?_toInt]

/-- The least integer is read in front of two points. -/
theorem number?_longest_least : ∃ lexeme,
    number? (Cursor.start " -9223372036854775808..5") = some lexeme ∧
      lexeme.content = .integer Int64.minValue ∧ lexeme.span = ⟨1, 21⟩ ∧
      ∃ text, IsLongest text "-9223372036854775808..5".toList ∧
        WritesInteger text Int64.minValue.toInt := by
  have ends : ∀ word ∈ digits + fractions + exponents, ¬ word <+: "..5".toList := by
    rintro word ((digit | fraction) | exponent)
    · exact takes_digits.absent rfl word digit
    · exact takes_fractions.absent rfl word fraction
    · exact takes_exponents.absent rfl word exponent
  obtain ⟨_, found, least⟩ := number?_longest (Cursor.start " -9223372036854775808..5")
  obtain ⟨lexeme, read, content, span⟩ := least Int64.minValue "..5".toList (by decide) ends
  obtain ⟨text, longest, _, _, _, integer, _⟩ := found lexeme read
  exact ⟨lexeme, read, content, span, text, longest, (integer _).mp content⟩

end Mixfix.Lexeme
