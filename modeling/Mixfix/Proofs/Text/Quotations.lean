import Mixfix.Parse.Operand
import Mixfix.Proofs.Text.Clipping
import Mixfix.Proofs.Text.StringScanner

/-!
# What stands between quotes

A character can be written between quotes in several ways: as it is, by a letter or a mark behind a
backslash, by its code unit in hexadecimal digits, or by the two surrogates of its code point
(`Escapes`, `SpelledChar`). A text is written by any spellings of its characters, one after the
other (`SpelledText`).

Behind an opening quote there are spellings up to where they stop: at a quote, at a backslash that
starts no escape, or at the end (`exists_spelled`). Up to there the scan takes one spelling after the
other (`scan_spelledText`), so where they stop decides what is read: a string, an invalid escape or an
unterminated string (`string?_reads`).
-/

set_option autoImplicit false

namespace Mixfix.Lexeme

/-! ## Spellings -/

/-- A code unit in four hexadecimal digits, each of either case. -/
def Hexadecimal (unit : Nat) (digits : List Char) : Prop :=
  unit < 0x10000 ∧ digits.map Char.toLower =
    [unit / 0x1000, unit / 0x100 % 16, unit / 0x10 % 16, unit % 16].map Nat.digitChar

/-- The characters that have a letter or a mark of their own, behind this. -/
def marks : List (Char × Char) :=
  [('n', '\n'), ('t', '\t'), ('r', '\r'), ('\\', '\\'), ('"', '"'), ('\'', '\''), ('/', '/')]

/-- What can be written behind a backslash for a character. -/
inductive Escapes (c : Char) : List Char → Prop
  | mark {mark : Char} (listed : (mark, c) ∈ marks) : Escapes c [mark]
  | unit {digits : List Char} (written : Hexadecimal c.toNat digits) : Escapes c ('u' :: digits)
  | pair {leading trailing : List Char} (beyond : 0x10000 ≤ c.toNat)
      (first : Hexadecimal (0xD800 + (c.toNat - 0x10000) / 0x400) leading)
      (second : Hexadecimal (0xDC00 + (c.toNat - 0x10000) % 0x400) trailing) :
      Escapes c ('u' :: leading ++ '\\' :: 'u' :: trailing)

/-- What can be written for a character between quotes. -/
inductive SpelledChar (quote c : Char) : List Char → Prop
  | raw (noQuote : c ≠ quote) (noBackslash : c ≠ '\\') : SpelledChar quote c [c]
  | escaped {word : List Char} (escapes : Escapes c word) : SpelledChar quote c ('\\' :: word)

/-- What can be written for a text between quotes. -/
inductive SpelledText (quote : Char) : List Char → List Char → Prop
  | nil : SpelledText quote [] []
  | cons {c : Char} {word text inner : List Char} (first : SpelledChar quote c word)
      (further : SpelledText quote text inner) : SpelledText quote (c :: text) (word ++ inner)

/-- The quotes. -/
def IsQuote (quote : Char) : Prop := quote = '"' ∨ quote = '\''

/-- What can be written for a string. -/
inductive SpelledString (s : String) : List Char → Prop
  | quoted {quote : Char} {inner : List Char} (isQuote : IsQuote quote)
      (spelled : SpelledText quote s.toList inner) : SpelledString s (quote :: inner ++ [quote])

/-- Behind spellings a backslash stands in front of something that no escape starts. -/
def MalformedBehind (quote : Char) (rest inner : List Char) : Prop :=
  ∃ text behind, SpelledText quote text inner ∧ rest = inner ++ '\\' :: behind ∧ behind ≠ [] ∧
    ∀ c word, Escapes c word → ¬ word <+: behind

/-! ## Hexadecimal digits -/

theorem toLower_eq_digitChar_iff {c : Char} {value : Nat} (small : value < 16) :
    c.toLower = value.digitChar ↔ Unicode.isHexDigit c = true ∧ Numeral.digitValue c = value := by
  by_cases ascii : c.toNat < 128
  · have table : ∀ code < 128, ∀ value < 16, ((Char.ofNat code).toLower = value.digitChar ↔
        Unicode.isHexDigit (Char.ofNat code) = true ∧
          Numeral.digitValue (Char.ofNat code) = value) := by decide +kernel
    have same := table c.toNat ascii value small
    rwa [Char.ofNat_toNat] at same
  · have kept : c.toLower = c := by
      refine dif_neg ?_
      rintro ⟨_, upper⟩
      exact ascii (Nat.lt_of_le_of_lt (UInt32.le_iff_toNat_le.mp upper) (by decide))
    have below : ∀ value < 16, value.digitChar.toNat < 128 := by decide
    constructor
    · intro same
      rw [kept] at same
      exact absurd (same ▸ below value small) ascii
    · exact fun digit => absurd (Scanner.toNat_lt_of_isHexDigit digit.1) ascii

variable {unit : Nat} {digits text behind : List Char}

theorem Hexadecimal.length_eq (written : Hexadecimal unit digits) : digits.length = 4 := by
  have count := congrArg List.length written.2
  rwa [List.length_map] at count

theorem codeUnit?_four {a b c d : Char} : codeUnit? [a, b, c, d] = some unit ↔
    (Unicode.isHexDigit a ∧ Unicode.isHexDigit b ∧ Unicode.isHexDigit c ∧ Unicode.isHexDigit d) ∧
      ((Numeral.digitValue a * 16 + Numeral.digitValue b) * 16 + Numeral.digitValue c) * 16 +
        Numeral.digitValue d = unit := by
  simp [codeUnit?, Numeral.valueIn]

/-- Four hexadecimal digits are read as the code unit that they write. -/
theorem codeUnit?_eq_some_iff (count : digits.length = 4) :
    codeUnit? digits = some unit ↔ Hexadecimal unit digits := by
  match digits, count with
  | [a, b, c, d], _ =>
    have boundA := Scanner.digitValue_lt a
    have boundB := Scanner.digitValue_lt b
    have boundC := Scanner.digitValue_lt c
    have boundD := Scanner.digitValue_lt d
    rw [codeUnit?_four, Hexadecimal]
    simp only [List.map_cons, List.map_nil, List.cons.injEq, and_true]
    constructor
    · rintro ⟨⟨digitA, digitB, digitC, digitD⟩, total⟩
      refine ⟨by omega, ?_⟩
      rw [toLower_eq_digitChar_iff (by omega), toLower_eq_digitChar_iff (by omega),
        toLower_eq_digitChar_iff (by omega), toLower_eq_digitChar_iff (by omega)]
      exact ⟨⟨digitA, by omega⟩, ⟨digitB, by omega⟩, ⟨digitC, by omega⟩, ⟨digitD, by omega⟩⟩
    · rintro ⟨small, same⟩
      rw [toLower_eq_digitChar_iff (by omega), toLower_eq_digitChar_iff (by omega),
        toLower_eq_digitChar_iff (by omega), toLower_eq_digitChar_iff (by omega)] at same
      obtain ⟨⟨digitA, _⟩, ⟨digitB, _⟩, ⟨digitC, _⟩, ⟨digitD, _⟩⟩ := same
      exact ⟨⟨digitA, digitB, digitC, digitD⟩, by omega⟩

theorem Hexadecimal.codeUnit?_append (written : Hexadecimal unit digits) (behind : List Char) :
    codeUnit? (digits ++ behind) = some unit :=
  (Lexeme.codeUnit?_append ((codeUnit?_eq_some_iff written.length_eq).mpr written) behind).1

/-- Where a code unit is read, four hexadecimal digits stand that write it. -/
theorem exists_hexadecimal (read : codeUnit? text = some unit) :
    ∃ digits behind, text = digits ++ behind ∧ Hexadecimal unit digits := by
  have long := (Lexeme.codeUnit?_append read []).2
  have count : (text.take 4).length = 4 := by
    rw [List.length_take]
    omega
  refine ⟨text.take 4, text.drop 4, (List.take_append_drop 4 text).symm, ?_⟩
  rw [← codeUnit?_eq_some_iff count, ← codeUnit?_clip (Nat.le_of_eq count.symm),
    List.take_append_drop, read]

/-! ## Escapes -/

variable {c : Char} {word : List Char}

theorem simpleEscape?_eq_some_iff {mark : Char} :
    simpleEscape? mark = some c ↔ (mark, c) ∈ marks := by
  constructor
  · intro found
    unfold simpleEscape? at found
    split at found
    all_goals cases found
    all_goals decide
  · intro listed
    simp only [marks, List.mem_cons, Prod.mk.injEq, List.not_mem_nil, or_false] at listed
    rcases listed with ⟨rfl, rfl⟩ | ⟨rfl, rfl⟩ | ⟨rfl, rfl⟩ | ⟨rfl, rfl⟩ | ⟨rfl, rfl⟩ | ⟨rfl, rfl⟩ |
      ⟨rfl, rfl⟩ <;> rfl

theorem escape_u (text : List Char) : escape ('u' :: text) = unicodeEscape text := rfl

theorem toNat_ofNat {code : Nat} (valid : code.isValidChar) : (Char.ofNat code).toNat = code := by
  rw [Char.ofNat, dif_pos valid]
  rfl

/-- What is written for a character behind a backslash is decoded as this character. -/
theorem Escapes.escape_append (escapes : Escapes c word) (behind : List Char) :
    escape (word ++ behind) = .decoded c word.length := by
  have valid : c.toNat < 0xD800 ∨ 0xDFFF < c.toNat ∧ c.toNat < 0x110000 := c.valid
  cases escapes with
  | mark listed =>
      simp only [List.cons_append, escape, simpleEscape?_eq_some_iff.mpr listed,
        List.length_singleton]
  | unit written =>
      have unpaired : isLeading c.toNat = false ∧ isTrailing c.toNat = false := by
        have small := written.1
        simp only [isLeading, isTrailing, Bool.and_eq_false_iff, decide_eq_false_iff_not]
        omega
      rw [List.cons_append, escape_u, List.length_cons, written.length_eq]
      simp only [unicodeEscape, written.codeUnit?_append, unpaired, Bool.false_eq_true, if_false,
        Char.ofNat_toNat]
  | @pair leading trailing beyond first second =>
      have leads : isLeading (0xD800 + (c.toNat - 0x10000) / 0x400) = true := by
        simp only [isLeading, Bool.and_eq_true, decide_eq_true_eq]
        omega
      have trails : isTrailing (0xDC00 + (c.toNat - 0x10000) % 0x400) = true := by
        simp only [isTrailing, Bool.and_eq_true, decide_eq_true_eq]
        omega
      have code : pairedCode (0xD800 + (c.toNat - 0x10000) / 0x400)
          (0xDC00 + (c.toNat - 0x10000) % 0x400) = c.toNat := by
        unfold pairedCode
        omega
      have dropped : (leading ++ '\\' :: 'u' :: (trailing ++ behind)).drop 4 =
          '\\' :: 'u' :: (trailing ++ behind) := by
        rw [← first.length_eq, List.drop_left]
      have count : ('u' :: leading ++ '\\' :: 'u' :: trailing).length = 11 := by
        simp only [List.length_append, List.length_cons, first.length_eq, second.length_eq]
      rw [count, List.append_assoc]
      simp only [List.cons_append, escape_u, unicodeEscape, first.codeUnit?_append, leads, dropped,
        second.codeUnit?_append, trails, code, if_true, Char.ofNat_toNat]

/-- The code point that is read from two surrogates is a character beyond those of one code unit,
and it has these surrogates. -/
theorem surrogates_of_pairedCode {leading trailing : Nat} (first : isLeading leading = true)
    (second : isTrailing trailing = true) :
    ∃ c : Char, Char.ofNat (pairedCode leading trailing) = c ∧ 0x10000 ≤ c.toNat ∧
      leading = 0xD800 + (c.toNat - 0x10000) / 0x400 ∧
      trailing = 0xDC00 + (c.toNat - 0x10000) % 0x400 := by
  simp only [isLeading, Bool.and_eq_true, decide_eq_true_eq] at first
  simp only [isTrailing, Bool.and_eq_true, decide_eq_true_eq] at second
  have code : (Char.ofNat (pairedCode leading trailing)).toNat = pairedCode leading trailing := by
    refine toNat_ofNat (.inr ?_)
    unfold pairedCode
    omega
  refine ⟨_, rfl, ?_⟩
  rw [code]
  unfold pairedCode
  omega

theorem escapes_of_surrogates {leading trailing : Nat} {first second : List Char}
    (leads : isLeading leading = true) (trails : isTrailing trailing = true)
    (written : Hexadecimal leading first) (written' : Hexadecimal trailing second) :
    Escapes (Char.ofNat (pairedCode leading trailing)) ('u' :: first ++ '\\' :: 'u' :: second) := by
  obtain ⟨c, same, beyond, high, low⟩ := surrogates_of_pairedCode leads trails
  rw [same]
  exact .pair beyond (high ▸ written) (low ▸ written')

/-- A code unit that is no surrogate is a character. -/
theorem escapes_of_unit (leads : isLeading unit = false) (trails : isTrailing unit = false)
    (written : Hexadecimal unit digits) : Escapes (Char.ofNat unit) ('u' :: digits) := by
  have code : (Char.ofNat unit).toNat = unit := by
    have small := written.1
    simp only [isLeading, Bool.and_eq_false_iff, decide_eq_false_iff_not] at leads
    simp only [isTrailing, Bool.and_eq_false_iff, decide_eq_false_iff_not] at trails
    refine toNat_ofNat ?_
    unfold Nat.isValidChar
    omega
  exact .unit (by rwa [code])

theorem escapes_of_unicodeEscape {length : Nat} (decoded : unicodeEscape text = .decoded c length) :
    ∃ word behind, text = word ++ behind ∧ Escapes c ('u' :: word) ∧ length = word.length + 1 := by
  unfold unicodeEscape at decoded
  cases first : codeUnit? text with
  | none =>
      rw [first] at decoded
      cases decoded
  | some unit =>
      obtain ⟨digits, rest, rfl, written⟩ := exists_hexadecimal first
      rw [first] at decoded
      dsimp only at decoded
      split at decoded
      · next leads =>
          rw [← written.length_eq, List.drop_left] at decoded
          split at decoded
          · next second =>
              cases low : codeUnit? second with
              | none =>
                  rw [low] at decoded
                  cases decoded
              | some trailing =>
                  obtain ⟨more, behind, rfl, written'⟩ := exists_hexadecimal low
                  simp only [low] at decoded
                  split at decoded
                  · next trails =>
                      obtain ⟨rfl, rfl⟩ := Escape.decoded.inj decoded
                      exact ⟨digits ++ '\\' :: 'u' :: more, behind, by simp,
                        escapes_of_surrogates leads trails written written',
                        by simp [written.length_eq, written'.length_eq]⟩
                  · cases decoded
          · cases decoded
      · next leads =>
          split at decoded
          · cases decoded
          · next trails =>
              obtain ⟨rfl, rfl⟩ := Escape.decoded.inj decoded
              exact ⟨digits, rest, rfl, escapes_of_unit (Bool.eq_false_iff.mpr leads)
                (Bool.eq_false_iff.mpr trails) written, by rw [written.length_eq]⟩

/-- What is decoded behind a backslash is written there. -/
theorem escapes_of_escape {length : Nat} (decoded : escape text = .decoded c length) :
    ∃ word behind, text = word ++ behind ∧ Escapes c word ∧ length = word.length := by
  cases text with
  | nil => cases decoded
  | cons first rest =>
      simp only [escape] at decoded
      cases simple : simpleEscape? first with
      | some other =>
          simp only [simple, Escape.decoded.injEq] at decoded
          obtain ⟨rfl, rfl⟩ := decoded
          exact ⟨[first], rest, rfl, .mark (simpleEscape?_eq_some_iff.mp simple), rfl⟩
      | none =>
          simp only [simple] at decoded
          split at decoded
          · next letter =>
              obtain ⟨word, behind, rfl, escapes, rfl⟩ := escapes_of_unicodeEscape decoded
              exact ⟨'u' :: word, behind, by rw [letter, List.cons_append], escapes, rfl⟩
          · cases decoded

theorem kind_of_malformed {fault : QuotationFault} {length : Nat}
    (malformed : escape text = .malformed fault length) :
    (Cause.quotation fault).kind = .invalidEscape := by
  unfold escape unicodeEscape at malformed
  repeat' split at malformed
  all_goals cases malformed
  all_goals rfl

theorem eq_nil_of_cut (cut : escape text = .cut) : text = [] := by
  unfold escape unicodeEscape at cut
  repeat' split at cut
  · rfl
  all_goals cases cut

/-! ## Scanning -/

variable {quote : Char} {inner rest : List Char}

theorem IsQuote.ne_backslash (isQuote : IsQuote quote) : '\\' ≠ quote := by
  rcases isQuote with rfl | rfl <;> decide

/-- A spelling of a character is scanned as this character. -/
theorem scan_spelledChar (isQuote : IsQuote quote) (spelled : SpelledChar quote c word)
    (place : Nat) (behind : List Char) :
    scan quote place 0 (word ++ behind) = (scan quote (place + word.length) 0 behind).cons c := by
  cases spelled with
  | raw noQuote noBackslash =>
      rw [List.singleton_append, scan, if_neg noQuote, if_neg noBackslash, List.length_singleton]
  | @escaped word escapes =>
      have within : word.length ≤ (word ++ behind).length := by simp
      rw [List.cons_append, scan, if_neg isQuote.ne_backslash, if_pos rfl, escapes.escape_append]
      dsimp only
      rw [Scanner.scan_skipped _ _ within, List.drop_left, List.length_cons, Nat.add_right_comm,
        Nat.add_assoc]

/-- So are the spellings of a text. -/
theorem scan_spelledText (isQuote : IsQuote quote) (spelled : SpelledText quote text inner)
    (place : Nat) (behind : List Char) :
    scan quote place 0 (inner ++ behind) =
      text.foldr Scan.cons (scan quote (place + inner.length) 0 behind) := by
  induction spelled generalizing place with
  | nil => rfl
  | cons first _ ih =>
      rw [List.append_assoc, scan_spelledChar isQuote first, ih, List.length_append,
        List.foldr_cons, Nat.add_assoc]

theorem foldr_closed (text inner : List Char) (length : Nat) :
    text.foldr Scan.cons (.closed inner length) = .closed (text ++ inner) length := by
  induction text with
  | nil => rfl
  | cons c text ih => rw [List.foldr_cons, ih, Scan.cons, List.cons_append]

theorem foldr_faulty (text : List Char) (fault : QuotationFault) (place stop : Nat) :
    text.foldr Scan.cons (.faulty fault place stop) = .faulty fault place stop := by
  induction text with
  | nil => rfl
  | cons c text ih => rw [List.foldr_cons, ih, Scan.cons]

/-- A backslash in front of something that no escape starts is a fault. -/
theorem scan_malformed (isQuote : IsQuote quote) (something : behind ≠ [])
    (none : ∀ c word, Escapes c word → ¬ word <+: behind) (place : Nat) :
    ∃ fault stop, scan quote place 0 ('\\' :: behind) = .faulty fault place stop ∧
      (Cause.quotation fault).kind = .invalidEscape := by
  rw [scan, if_neg isQuote.ne_backslash, if_pos rfl]
  cases found : escape behind with
  | decoded c length =>
      obtain ⟨word, after, rfl, escapes, _⟩ := escapes_of_escape found
      exact absurd (List.prefix_append word after) (none c word escapes)
  | malformed fault length => exact ⟨fault, _, rfl, kind_of_malformed found⟩
  | cut => exact absurd (eq_nil_of_cut found) something

/-- Where the spellings of a text between quotes stop. -/
inductive SpellingEnds (quote : Char) : List Char → Prop
  | ended : SpellingEnds quote []
  | cut : SpellingEnds quote ['\\']
  | closing (behind : List Char) : SpellingEnds quote (quote :: behind)
  | malformed {behind : List Char} (something : behind ≠ [])
      (none : ∀ c word, Escapes c word → ¬ word <+: behind) : SpellingEnds quote ('\\' :: behind)

/-- Every text starts with spellings up to where they stop. -/
theorem exists_spelled (quote : Char) (rest : List Char) :
    ∃ text inner behind, SpelledText quote text inner ∧ rest = inner ++ behind ∧
      SpellingEnds quote behind := by
  match rest with
  | [] => exact ⟨[], [], [], .nil, rfl, .ended⟩
  | first :: rest =>
    by_cases closes : first = quote
    · exact ⟨[], [], _, .nil, rfl, closes ▸ .closing rest⟩
    · by_cases backslash : first = '\\'
      · subst backslash
        by_cases some : ∃ c word, Escapes c word ∧ word <+: rest
        · obtain ⟨c, word, escapes, after, same⟩ := some
          have shorter : after.length ≤ rest.length := by simp [← same]
          obtain ⟨text, inner, behind, spelled, rfl, stops⟩ := exists_spelled quote after
          exact ⟨c :: text, '\\' :: word ++ inner, behind, .cons (.escaped escapes) spelled,
            by simp [← same], stops⟩
        · simp only [not_exists, not_and] at some
          cases rest with
          | nil => exact ⟨[], [], _, .nil, rfl, .cut⟩
          | cons => exact ⟨[], [], _, .nil, rfl, .malformed (List.cons_ne_nil _ _) some⟩
      · obtain ⟨text, inner, behind, spelled, rfl, stops⟩ := exists_spelled quote rest
        exact ⟨first :: text, [first] ++ inner, behind, .cons (.raw closes backslash) spelled, rfl,
          stops⟩
termination_by rest.length
decreasing_by
  all_goals
    simp only [List.length_cons]
    omega

/-! ## Reading -/

variable {source : String} {cursor : Cursor}

/-- The reader of strings finds a fault that is reported with a kind and an offset. -/
def Faults (cursor : Cursor) (kind : FailureKind) (offset : Nat) : Prop :=
  ∃ error, string? cursor = .error error ∧ (Parse.misquotation error).kind = kind ∧
    (Parse.misquotation error).offset = offset

/-- What is reported of a text behind a quote: an invalid escape at the backslash, if there is one
behind spellings that start the text, and otherwise an unterminated string at the quote. -/
def FaultsFirst (cursor : Cursor) (quote : Char) (rest : List Char) : Prop :=
  (∃ inner, MalformedBehind quote rest inner ∧
    Faults cursor .invalidEscape (cursor.skipBlanks.offset + byteLength (quote :: inner))) ∨
  ((∀ inner, ¬ MalformedBehind quote rest inner) ∧
    Faults cursor .unterminatedString cursor.skipBlanks.offset)

theorem Faults.kind_eq {kind other : FailureKind} {offset place : Nat}
    (faults : Faults cursor kind offset) (faults' : Faults cursor other place) : kind = other := by
  obtain ⟨error, read, rfl, _⟩ := faults
  obtain ⟨error', read', rfl, _⟩ := faults'
  rw [read] at read'
  cases read'
  rfl

theorem exists_quote {lexeme : Lexeme String} (found : string? cursor = .ok (some lexeme)) :
    ∃ quote rest, IsQuote quote ∧ cursor.skipBlanks.rest = quote :: rest := by
  simp only [string?] at found
  split at found
  · cases found
  · next quote rest ahead =>
      split at found
      · next opens => exact ⟨quote, rest, by simpa [IsQuote] using opens, ahead⟩
      · cases found

section Quoted

variable (isQuote : IsQuote quote) (ahead : cursor.skipBlanks.rest = quote :: rest)
include isQuote ahead

theorem string?_of_closed {length : Nat} (closed : scan quote 1 0 rest = .closed text length) :
    string? cursor =
      .ok (some (Lexeme.ahead cursor.skipBlanks (length + 1) (String.ofList text))) := by
  have opens : (quote = '"' || quote = '\'') = true := by simpa [IsQuote] using isQuote
  simp only [string?, ahead, opens, if_true, closed]

theorem faults_of_faulty {fault : QuotationFault} {place stop : Nat}
    (faulty : scan quote 1 0 rest = .faulty fault place stop) :
    Faults cursor (Cause.quotation fault).kind (cursor.skipBlanks.advance place).offset := by
  have opens : (quote = '"' || quote = '\'') = true := by simpa [IsQuote] using isQuote
  refine ⟨⟨fault, _, cursor.skipBlanks.advance stop⟩, ?_, rfl, rfl⟩
  simp only [string?, ahead, opens, if_true, faulty]
  rw [← ahead]
  rfl

variable (spelled : SpelledText quote text inner) (parts : rest = inner ++ behind)
include spelled parts

/-- Spellings up to a closing quote are a string. -/
theorem string?_of_closing {after : List Char} (closing : behind = quote :: after) :
    string? cursor = .ok (some (Lexeme.ahead cursor.skipBlanks (quote :: inner ++ [quote]).length
      (String.ofList text))) := by
  have closed : scan quote 1 0 rest = .closed text (1 + inner.length) := by
    rw [parts, scan_spelledText isQuote spelled, closing, scan, if_pos rfl, foldr_closed,
      List.append_nil]
  rw [string?_of_closed isQuote ahead closed, List.length_append, List.length_cons, Nat.add_comm 1]
  rfl

/-- Spellings up to something that no escape starts are an invalid escape, at the backslash. -/
theorem faults_of_malformed {after : List Char} (malformed : behind = '\\' :: after)
    (something : after ≠ []) (none : ∀ c word, Escapes c word → ¬ word <+: after) :
    Faults cursor .invalidEscape (cursor.skipBlanks.offset + byteLength (quote :: inner)) := by
  obtain ⟨fault, stop, faulty, kind⟩ := scan_malformed isQuote something none (1 + inner.length)
  have faults := faults_of_faulty isQuote ahead (by
    rw [parts, scan_spelledText isQuote spelled, malformed, faulty, foldr_faulty])
  have stands : quote :: inner <+: cursor.skipBlanks.rest :=
    ⟨behind, by rw [ahead, parts, List.cons_append]⟩
  have spells := Cursor.spells_of_prefix stands
  rw [List.length_cons, Nat.add_comm] at spells
  rwa [kind, spells.2] at faults

/-- Spellings up to the end of the text are an unterminated string, at the opening quote. -/
theorem faults_of_ended (ended : behind = [] ∨ behind = ['\\']) :
    Faults cursor .unterminatedString cursor.skipBlanks.offset := by
  have stops : ∃ stop, scan quote (1 + inner.length) 0 behind =
      .faulty (.unterminated quote) 0 stop := by
    rcases ended with rfl | rfl
    · exact ⟨_, rfl⟩
    · exact ⟨_, by rw [scan, if_neg isQuote.ne_backslash, if_pos rfl]; rfl⟩
  obtain ⟨stop, faulty⟩ := stops
  have faults := faults_of_faulty isQuote ahead (by
    rw [parts, scan_spelledText isQuote spelled, faulty, foldr_faulty])
  rwa [Cursor.advance_zero] at faults

end Quoted

/-- Behind a quote stands a string, or something that is reported. -/
theorem prefix_or_faultsFirst (isQuote : IsQuote quote)
    (ahead : cursor.skipBlanks.rest = quote :: rest) :
    (∃ s literal, SpelledString s literal ∧ literal <+: cursor.skipBlanks.rest) ∨
      FaultsFirst cursor quote rest := by
  obtain ⟨text, inner, behind, spelled, parts, stops⟩ := exists_spelled quote rest
  have ended (ended : behind = [] ∨ behind = ['\\']) : FaultsFirst cursor quote rest := by
    have faults := faults_of_ended isQuote ahead spelled parts ended
    refine .inr ⟨?_, faults⟩
    rintro other ⟨text, after, spelled, parts, something, none⟩
    cases faults.kind_eq (faults_of_malformed isQuote ahead spelled parts rfl something none)
  cases stops with
  | ended => exact .inr (ended (.inl rfl))
  | cut => exact .inr (ended (.inr rfl))
  | closing after =>
      rw [← String.toList_ofList (l := text)] at spelled
      exact .inl ⟨_, _, .quoted isQuote spelled, after, by simp [ahead, parts]⟩
  | malformed something none =>
      exact .inr (.inl ⟨inner, ⟨text, _, spelled, parts, something, none⟩,
        faults_of_malformed isQuote ahead spelled parts rfl something none⟩)

theorem string?_of_spelled {s : String} {literal : List Char} (spelled : SpelledString s literal)
    (stands : literal <+: cursor.skipBlanks.rest) :
    string? cursor = .ok (some (Lexeme.ahead cursor.skipBlanks literal.length s)) := by
  obtain ⟨isQuote, spelled⟩ := spelled
  obtain ⟨behind, same⟩ := stands
  have read := string?_of_closing isQuote same.symm spelled (List.append_assoc _ _ _) rfl
  rwa [String.ofList_toList] at read

/-- Wherever a spelling of a string stands ahead, the string is read, and its span covers the
spelling. Whatever is read, its span covers a spelling of it. Where a quote stands ahead, but no such
spelling, the first fault is reported. -/
theorem string?_reads (inside : cursor.LiesIn source) :
    (∀ s literal, SpelledString s literal → literal <+: cursor.skipBlanks.rest →
      ∃ lexeme, string? cursor = .ok (some lexeme) ∧ lexeme.content = s ∧
        lexeme.span = ⟨cursor.skipBlanks.offset, cursor.skipBlanks.offset + byteLength literal⟩) ∧
    (∀ lexeme, string? cursor = .ok (some lexeme) →
      SpelledString lexeme.content (slice source lexeme.span)) ∧
    (∀ quote rest, IsQuote quote → cursor.skipBlanks.rest = quote :: rest →
      (∀ s literal, SpelledString s literal → ¬ literal <+: cursor.skipBlanks.rest) →
      FaultsFirst cursor quote rest) := by
  refine ⟨?_, ?_, ?_⟩
  · intro s literal spelled stands
    refine ⟨_, string?_of_spelled spelled stands, rfl, ?_⟩
    rw [Lexeme.ahead, (Cursor.spells_of_prefix stands).2]
  · intro lexeme found
    obtain ⟨quote, rest, isQuote, ahead⟩ := exists_quote found
    rcases prefix_or_faultsFirst isQuote ahead with
      ⟨s, literal, spelled, stands⟩ | ⟨_, _, _, faulty, _⟩ | ⟨_, _, faulty, _⟩
    · rw [string?_of_spelled spelled stands] at found
      cases found
      obtain ⟨blanks, spells, _⟩ := Cursor.spells_skipBlanks cursor
      rw [Lexeme.ahead, slice_of_spells (inside.spells spells) (Cursor.spells_of_prefix stands)]
      exact spelled
    · rw [found] at faulty
      cases faulty
    · rw [found] at faulty
      cases faulty
  · intro quote rest isQuote ahead without
    rcases prefix_or_faultsFirst isQuote ahead with ⟨s, literal, spelled, stands⟩ | faults
    · exact absurd stands (without s literal spelled)
    · exact faults

/-- `😀`, a line feed and a quote, with the surrogates of the first in digits of either case. -/
def mixedLiteral : String := "'\\uD83d\\udE00\\n\"'"

theorem spelledString_mixedLiteral : SpelledString "😀\n\"" mixedLiteral.toList := by
  have leading : Hexadecimal 0xD83D ['D', '8', '3', 'd'] := ⟨by decide, by decide⟩
  have trailing : Hexadecimal 0xDE00 ['d', 'E', '0', '0'] := ⟨by decide, by decide⟩
  have face : Escapes '😀' _ := .pair (by decide) leading trailing
  have feed : Escapes '\n' ['n'] := .mark (by decide)
  have mark : SpelledChar '\'' '"' ['"'] := .raw (by decide) (by decide)
  have inner : SpelledText '\'' "😀\n\"".toList _ :=
    .cons (.escaped face) (.cons (.escaped feed) (.cons mark .nil))
  exact .quoted (.inr rfl) inner

theorem string?_reads_mixed :
    (∃ lexeme, string? (Cursor.start ("  " ++ mixedLiteral ++ "a'")) = .ok (some lexeme) ∧
      lexeme.content = "😀\n\"" ∧ lexeme.span = ⟨2, 19⟩) ∧
    FaultsFirst (Cursor.start "'a\\u12'") '\'' "a\\u12'".toList := by
  refine ⟨?_, ?_⟩
  · exact (string?_reads (Cursor.liesIn_start _)).1 _ _ spelledString_mixedLiteral
      ⟨['a', '\''], by decide⟩
  · refine (string?_reads (Cursor.liesIn_start _)).2.2 _ _ (.inr rfl) rfl ?_
    intro s literal spelled stands
    have read := string?_of_spelled spelled stands
    cases read

end Mixfix.Lexeme
