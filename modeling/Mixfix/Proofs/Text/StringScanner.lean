import Mixfix.Proofs.Text.Scanners

/-!
# The reader of strings as a scanner

A string is read from character to character, and an escape by the counts of bytes that its parts
have: two behind a backslash and a `u`, four for hexadecimal digits, which are looked at as a slice of
four bytes before they are tested. This slice may end inside of a character. Then it does not exist,
and nothing is added to the offset; if it exists and holds hexadecimal digits, it holds four of them.

So the scanner follows the scan of a string by places (`follows_quoted`), also where this stops at a
fault, and leaves the offset behind what it has understood.
-/

set_option autoImplicit false

namespace Mixfix.Scanner

variable {source : String} {cursor : Cursor}

/-! ## Hexadecimal digits -/

theorem toNat_lt_of_isHexDigit {c : Char} (digit : Unicode.isHexDigit c = true) : c.toNat < 128 := by
  simp only [Unicode.isHexDigit, Unicode.isAsciiDigit, Bool.or_eq_true, Bool.and_eq_true,
    decide_eq_true_eq, Char.le_def, UInt32.le_iff_toNat_le] at digit
  rw [Char.toNat]
  rcases digit with (⟨_, upper⟩ | ⟨_, upper⟩) | ⟨_, upper⟩
  · exact Nat.lt_of_le_of_lt upper (by decide)
  · exact Nat.lt_of_le_of_lt upper (by decide)
  · exact Nat.lt_of_le_of_lt upper (by decide)

theorem utf8Size_of_isHexDigit {c : Char} (digit : Unicode.isHexDigit c = true) :
    c.utf8Size = 1 := by
  have small := toNat_lt_of_isHexDigit digit
  rw [Char.toNat] at small
  rw [Char.utf8Size, if_pos]
  exact UInt32.le_iff_toNat_le.mpr (Nat.le_of_lt_succ small)

theorem byteLength_of_isHexDigit {text : List Char} (digits : ∀ c ∈ text, Unicode.isHexDigit c = true) :
    byteLength text = text.length := by
  induction text with
  | nil => rfl
  | cons c text ih =>
      rw [List.forall_mem_cons] at digits
      rw [byteLength_cons, utf8Size_of_isHexDigit digits.1, ih digits.2, List.length_cons,
        Nat.add_comm]

theorem digitValue_lt (c : Char) : Numeral.digitValue c < 16 := by
  unfold Numeral.digitValue
  simp only [Unicode.isAsciiDigit, Bool.and_eq_true, decide_eq_true_eq, Char.le_def,
    UInt32.le_iff_toNat_le]
  split
  · next digit =>
      change 48 ≤ c.toNat ∧ c.toNat ≤ 57 at digit
      change c.toNat - 48 < 16
      omega
  · split
    · next small =>
        change 97 ≤ c.toNat ∧ c.toNat ≤ 102 at small
        change c.toNat - 97 + 10 < 16
        omega
    · split
      · next capital =>
          change 65 ≤ c.toNat ∧ c.toNat ≤ 70 at capital
          change c.toNat - 65 + 10 < 16
          omega
      · exact Nat.succ_pos _

theorem foldl_digitValue_lt (digits : List Char) (value bound : Nat) (below : value < bound) :
    digits.foldl (fun value c => value * 16 + Numeral.digitValue c) value <
      bound * Nat.pow 16 digits.length := by
  induction digits generalizing value bound with
  | nil => exact (Nat.mul_one bound).symm ▸ below
  | cons c digits ih =>
      have digit := digitValue_lt c
      have next := ih (value * 16 + Numeral.digitValue c) (bound * 16) (by omega)
      rw [Nat.mul_assoc, Nat.mul_comm 16] at next
      exact next

/-- A code unit has sixteen bits. -/
theorem codeUnit?_lt {text : List Char} {unit : Nat} (read : Lexeme.codeUnit? text = some unit) :
    unit < 0x10000 := by
  simp only [Lexeme.codeUnit?] at read
  split at read
  · next four =>
      cases read
      rw [Bool.and_eq_true, decide_eq_true_eq] at four
      have below := foldl_digitValue_lt (text.take 4) 0 1 Nat.one_pos
      rw [four.1] at below
      exact below
  · cases read

/-! ## Escapes -/

section Definitions

variable (source : String)

/-- The code unit of four hexadecimal digits, behind which the scanner goes on. -/
def codeUnit : Scanner (Option Nat) := do
  match (splitAtByte 4 (← rest source)).filter fun parts => parts.1.all Unicode.isHexDigit with
  | some parts => do
    jump 4
    return some (Numeral.valueIn 16 parts.1)
  | none => return none

/-- The character of a code point. -/
def charOf (code : Nat) : Except QuotationFault Char :=
  if code.isValidChar then .ok (Char.ofNat code) else .error .unpairedSurrogate

/-- The character of an escape by code units, behind the `u`. -/
def unicodeEscape : Scanner (Except QuotationFault Char) := do
  match ← codeUnit source with
  | none => return .error .shortEscape
  | some unit =>
    if Lexeme.isLeading unit then do
      if ['\\', 'u'].isPrefixOf (← rest source) then do
        jump 2
        match ← codeUnit source with
        | none => return .error .shortEscape
        | some trailing =>
          if Lexeme.isTrailing trailing then return charOf (Lexeme.pairedCode unit trailing)
          else return .error .unpairedSurrogate
      else return .error .unpairedSurrogate
    else return charOf unit

/-- The character of the escape behind a backslash, unless the text ends there. -/
def escaped : Scanner (Option (Except QuotationFault Char)) := do
  match ← current source with
  | none => return none
  | some letter =>
    match Lexeme.simpleEscape? letter with
    | some decoded => do
      advance source
      return some (.ok decoded)
    | none =>
      if letter = 'u' then do
        advance source
        return some (← unicodeEscape source)
      else return some (.error (.unknownEscape letter))

/-! ## Strings -/

/-- A fault, and the offset at which it is reported. -/
abbrev Misread := QuotationFault × Nat

/-- The rest of a string that starts at an offset, behind the given text, in as many rounds as are
given. -/
def quoted (quote : Char) (start : Nat) : Nat → List Char → Scanner (Except Misread (String × Span))
  | 0, _ => failure
  | rounds + 1, text => do
    match ← current source with
    | none => return .error (.unterminated quote, start)
    | some c =>
      if c = quote then do
        advance source
        return .ok (String.ofList text, ⟨start, ← get⟩)
      else if c = '\\' then do
        let escapeStart ← get
        advance source
        match ← escaped source with
        | none => return .error (.unterminated quote, start)
        | some (.ok decoded) => quoted quote start rounds (text ++ [decoded])
        | some (.error fault) => return .error (fault, escapeStart)
      else do
        advance source
        quoted quote start rounds (text ++ [c])

/-- The string ahead, after blanks, if a quote stands there. -/
def string : Scanner (Except Misread (Option (String × Span))) := do
  skipBlanks source
  let start ← get
  match ← current source with
  | none => return .ok none
  | some quote =>
    if quote = '"' || quote = '\'' then do
      advance source
      return (← quoted source quote start (source.toList.length + 1) []).map some
    else return .ok none

end Definitions

open Lexeme

theorem follows_codeUnit_some {unit : Nat} (read : codeUnit? cursor.rest = some unit) :
    4 ≤ cursor.rest.length ∧
      Follows source (codeUnit source) cursor (some unit) (cursor.advance 4) := by
  simp only [codeUnit?] at read
  split at read
  · next four =>
      cases read
      rw [Bool.and_eq_true, decide_eq_true_eq, List.all_eq_true] at four
      obtain ⟨count, digits⟩ := four
      have bytes := byteLength_of_isHexDigit digits
      have divided := splitAtByte_byteLength (cursor.rest.take 4) (cursor.rest.drop 4)
      rw [bytes, count, List.take_append_drop] at divided
      have spells := Cursor.spells_advance cursor 4
      have kept : ((splitAtByte 4 cursor.rest).filter fun parts =>
          parts.1.all Unicode.isHexDigit) = some (cursor.rest.take 4, cursor.rest.drop 4) := by
        rw [divided, Option.filter_eq_some_iff]
        exact ⟨rfl, List.all_eq_true.mpr digits⟩
      refine ⟨by rw [List.length_take] at count; omega, Follows.rest.bind ?_⟩
      rw [kept]
      have jumped : Follows source (jump _) cursor () (cursor.advance 4) := Follows.jump spells
      rw [bytes, count] at jumped
      exact jumped.bind (.of_pure _)
  · cases read

theorem follows_codeUnit_none (read : codeUnit? cursor.rest = none) :
    Follows source (codeUnit source) cursor none cursor := by
  refine Follows.rest.bind ?_
  have nothing : ((splitAtByte 4 cursor.rest).filter fun parts =>
      parts.1.all Unicode.isHexDigit) = none := by
    rw [Option.filter_eq_none_iff]
    rintro ⟨before, after⟩ divided digits
    rw [List.all_eq_true] at digits
    obtain ⟨whole, bytes⟩ := eq_of_splitAtByte divided
    rw [byteLength_of_isHexDigit digits] at bytes
    have taken : cursor.rest.take 4 = before := by rw [whole, ← bytes, List.take_left]
    simp [codeUnit?, taken, bytes] at read
    obtain ⟨c, mem, other⟩ := read
    rw [digits c mem] at other
    cases other
  rw [nothing]
  exact .of_pure none

/-- A code unit that is no surrogate is the code point of a character. -/
theorem charOf_unit {unit : Nat} (small : unit < 0x10000) (leading : isLeading unit = false) :
    charOf unit = if isTrailing unit then .error .unpairedSurrogate else .ok (Char.ofNat unit) := by
  simp only [isLeading, Bool.and_eq_false_iff, decide_eq_false_iff_not] at leading
  by_cases trailing : isTrailing unit = true
  · rw [if_pos trailing, charOf, if_neg]
    simp only [isTrailing, Bool.and_eq_true, decide_eq_true_eq] at trailing
    simp only [Nat.isValidChar]
    omega
  · rw [if_neg trailing, charOf, if_pos]
    simp only [isTrailing, Bool.and_eq_true, decide_eq_true_eq] at trailing
    simp only [Nat.isValidChar]
    omega

/-- Two surrogates make the code point of a character. -/
theorem charOf_pairedCode {leading trailing : Nat} (first : isLeading leading = true)
    (second : isTrailing trailing = true) :
    charOf (pairedCode leading trailing) = .ok (Char.ofNat (pairedCode leading trailing)) := by
  simp only [isLeading, Bool.and_eq_true, decide_eq_true_eq] at first
  simp only [isTrailing, Bool.and_eq_true, decide_eq_true_eq] at second
  have below : pairedCode leading trailing < 0x110000 := by
    unfold pairedCode
    omega
  have above : 0xDFFF < pairedCode leading trailing := by
    unfold pairedCode
    omega
  exact if_pos (.inr ⟨above, below⟩)

/-- How far an escape by code units is understood: behind the `u` the scanner follows the reader to
the end of the escape, or to its fault. -/
def FollowsEscape (source : String) (cursor : Cursor) (escape : Escape) : Prop :=
  (∃ c length, escape = .decoded c (length + 1) ∧ length ≤ cursor.rest.length ∧
    Follows source (unicodeEscape source) cursor (.ok c) (cursor.advance length)) ∨
  ∃ fault length, escape = .malformed fault (length + 1) ∧
    Follows source (unicodeEscape source) cursor (.error fault) (cursor.advance length)

/-- Behind a leading surrogate the escape of a trailing one must follow. -/
theorem follows_paired {unit : Nat} (first : codeUnit? cursor.rest = some unit)
    (leading : isLeading unit = true) {second : List Char}
    (behind : cursor.rest.drop 4 = '\\' :: 'u' :: second) :
    FollowsEscape source cursor (match codeUnit? second with
      | none => .malformed .shortEscape 7
      | some trailing =>
        if isTrailing trailing then .decoded (Char.ofNat (pairedCode unit trailing)) 11
        else .malformed .unpairedSurrogate 11) := by
  obtain ⟨four, read⟩ := @follows_codeUnit_some source cursor unit first
  have mark : ['\\', 'u'] <+: (cursor.advance 4).rest := ⟨second, behind.symm⟩
  have jumped : Follows source (jump 2) (cursor.advance 4) () (cursor.advance 6) := by
    have spells := Cursor.spells_of_prefix mark
    rw [Cursor.advance_advance] at spells
    exact Follows.jump spells
  have rest : (cursor.advance 6).rest = second := by
    rw [← Cursor.advance_advance cursor 4 2]
    exact congrArg (List.drop 2) behind
  have six : 6 ≤ cursor.rest.length := by
    have count := congrArg List.length behind
    rw [List.length_drop, List.length_cons, List.length_cons] at count
    omega
  -- Up to here the escapes of both outcomes are the same.
  have paired {escaped : Except QuotationFault Char} {last : Nat}
      (further : Follows source (do
        match ← codeUnit source with
        | none => return .error .shortEscape
        | some trailing =>
          if isTrailing trailing then return charOf (pairedCode unit trailing)
          else return .error .unpairedSurrogate) (cursor.advance 6) escaped (cursor.advance last)) :
      Follows source (unicodeEscape source) cursor escaped (cursor.advance last) :=
    read.bind (.yes leading (Follows.rest.bind (.yes (List.isPrefixOf_iff_prefix.mpr mark)
      (jumped.bind further))))
  cases low : codeUnit? second with
  | none =>
      exact .inr ⟨.shortEscape, 6, rfl, paired ((follows_codeUnit_none (rest ▸ low)).bind (.of_pure _))⟩
  | some trailing =>
      obtain ⟨more, read'⟩ := @follows_codeUnit_some source (cursor.advance 6) trailing (rest ▸ low)
      rw [Cursor.length_rest_advance] at more
      rw [Cursor.advance_advance] at read'
      by_cases pair : isTrailing trailing = true
      · refine .inl ⟨_, 10, if_pos pair, by omega, paired (read'.bind (.yes pair ?_))⟩
        rw [charOf_pairedCode leading pair]
        exact .of_pure _
      · exact .inr ⟨_, 10, if_neg pair, paired (read'.bind (.no pair (.of_pure _)))⟩

/-- An escape by code units is understood as far as the reader understands it. -/
theorem follows_unicodeEscape (cursor : Cursor) :
    FollowsEscape source cursor (Lexeme.unicodeEscape cursor.rest) := by
  unfold Lexeme.unicodeEscape
  cases first : codeUnit? cursor.rest with
  | none =>
      refine .inr ⟨.shortEscape, 0, rfl, (follows_codeUnit_none first).bind ?_⟩
      rw [Cursor.advance_zero]
      exact .of_pure _
  | some unit =>
      obtain ⟨four, read⟩ := @follows_codeUnit_some source cursor unit first
      dsimp only
      by_cases leading : isLeading unit = true
      · rw [if_pos leading]
        split
        · next second behind => exact follows_paired first leading behind
        · next other =>
            have missing : ¬ ['\\', 'u'].isPrefixOf (cursor.advance 4).rest = true := by
              rw [List.isPrefixOf_iff_prefix]
              rintro ⟨second, same⟩
              exact other second same.symm
            exact .inr ⟨_, 4, rfl,
              read.bind (.yes leading (Follows.rest.bind (.no missing (.of_pure _))))⟩
      · have single := charOf_unit (codeUnit?_lt first) (Bool.not_eq_true _ ▸ leading)
        rw [if_neg leading]
        by_cases trailing : isTrailing unit = true
        · rw [if_pos trailing] at single ⊢
          refine .inr ⟨_, 4, rfl, read.bind (.no leading ?_)⟩
          rw [single]
          exact .of_pure _
        · rw [if_neg trailing] at single ⊢
          refine .inl ⟨_, 4, rfl, four, read.bind (.no leading ?_)⟩
          rw [single]
          exact .of_pure _

/-- So is every escape: it is decoded, or it is malformed and understood in part, or there is none. -/
theorem follows_escaped (cursor : Cursor) :
    (∃ c length, escape cursor.rest = .decoded c length ∧ length ≤ cursor.rest.length ∧
      Follows source (escaped source) cursor (some (.ok c)) (cursor.advance length)) ∨
    (∃ fault length, escape cursor.rest = .malformed fault length ∧
      Follows source (escaped source) cursor (some (.error fault)) (cursor.advance length)) ∨
    (escape cursor.rest = .cut ∧ Follows source (escaped source) cursor none cursor) := by
  cases ahead : cursor.rest with
  | nil =>
      refine .inr (.inr ⟨rfl, Follows.current.bind ?_⟩)
      rw [ahead]
      exact .of_pure none
  | cons letter rest =>
      have first : Follows source (current source) cursor (some letter) cursor := by
        have read := @Follows.current source cursor
        rwa [ahead] at read
      cases simple : simpleEscape? letter with
      | some decoded =>
          refine .inl ⟨decoded, 1, by rw [escape, simple], Nat.succ_pos _, first.bind ?_⟩
          simp only [simple]
          exact Follows.advance.bind (.of_pure _)
      | none =>
          by_cases unicode : letter = 'u'
          · have behind : (cursor.advance 1).rest = rest := by rw [Cursor.advance, ahead]; rfl
            rcases @follows_unicodeEscape source (cursor.advance 1) with
              ⟨decoded, length, same, within, follows⟩ | ⟨fault, length, same, follows⟩
            · rw [behind] at same within
              rw [Cursor.advance_advance, Nat.add_comm] at follows
              refine .inl ⟨decoded, length + 1, ?_, Nat.succ_le_succ within, first.bind ?_⟩
              · simp only [escape, simple, if_pos unicode, same]
              · simp only [simple]
                exact .yes unicode (Follows.advance.bind (follows.bind (.of_pure _)))
            · rw [behind] at same
              rw [Cursor.advance_advance, Nat.add_comm] at follows
              refine .inr (.inl ⟨fault, length + 1, ?_, first.bind ?_⟩)
              · simp only [escape, simple, if_pos unicode, same]
              · simp only [simple]
                exact .yes unicode (Follows.advance.bind (follows.bind (.of_pure _)))
          · refine .inr (.inl ⟨.unknownEscape letter, 0, ?_, first.bind ?_⟩)
            · simp only [escape, simple, if_neg unicode]
            · simp only [simple, Cursor.advance_zero]
              exact .no unicode (.of_pure _)

/-! ## Following the scan of a string -/

/-- Characters of an escape that is decoded are passed at once. -/
theorem scan_skipped {quote : Char} {rest : List Char} (place skipped : Nat)
    (within : skipped ≤ rest.length) :
    scan quote place skipped rest = scan quote (place + skipped) 0 (rest.drop skipped) := by
  induction rest generalizing place skipped with
  | nil =>
      cases Nat.le_zero.mp within
      rfl
  | cons c rest ih =>
      cases skipped with
      | zero => rfl
      | succ skipped =>
          rw [scan, ih (place + 1) skipped (Nat.le_of_succ_le_succ within), List.drop_succ_cons,
            Nat.add_right_comm, Nat.add_assoc]

/-- What the scanner answers where a scan of a string ends, behind the given text. -/
def answerOf (opening : Cursor) (text : List Char) : Scan → Except Misread (String × Span)
  | .closed inner length =>
    .ok (String.ofList (text ++ inner), ⟨opening.offset, (opening.advance (length + 1)).offset⟩)
  | .faulty fault place _ => .error (fault, (opening.advance place).offset)

/-- Where a scan of a string ends. -/
def endOf (opening : Cursor) : Scan → Cursor
  | .closed _ length => opening.advance (length + 1)
  | .faulty _ _ stop => opening.advance stop

theorem answerOf_cons (opening : Cursor) (text : List Char) (c : Char) (outcome : Scan) :
    answerOf opening text (outcome.cons c) = answerOf opening (text ++ [c]) outcome := by
  cases outcome with
  | closed inner length => rw [Scan.cons, answerOf, answerOf, List.append_assoc, List.singleton_append]
  | faulty => rfl

theorem endOf_cons (opening : Cursor) (c : Char) (outcome : Scan) :
    endOf opening (outcome.cons c) = endOf opening outcome := by
  cases outcome <;> rfl

/-- A fault lies before the place where the scan of a string stops. -/
theorem place_le_of_faulty {quote : Char} {rest : List Char} {fault : QuotationFault}
    {start skipped place stop : Nat}
    (faulty : scan quote start skipped rest = .faulty fault place stop) : place ≤ stop := by
  have inner {c : Char} {outcome : Scan} (same : outcome.cons c = .faulty fault place stop) :
      outcome = .faulty fault place stop := by
    cases outcome with
    | closed => cases same
    | faulty => exact same
  induction rest generalizing start skipped with
  | nil =>
      cases faulty
      exact Nat.zero_le _
  | cons c rest ih =>
      cases skipped with
      | succ skipped => exact ih faulty
      | zero =>
          simp only [scan] at faulty
          split at faulty
          · cases faulty
          · split at faulty
            · split at faulty
              · exact ih (inner faulty)
              · cases faulty
                omega
              · cases faulty
                exact Nat.zero_le _
            · exact ih (inner faulty)

/-- The scanner comes to what the scan comes to, from any place behind the opening quote with fewer
characters ahead than there are rounds. -/
theorem follows_quoted {opening : Cursor} {quote : Char} {rounds : Nat} {text : List Char}
    {place : Nat} {ahead : List Char} (here : (opening.advance place).rest = ahead)
    (enough : ahead.length < rounds) :
    Follows source (quoted source quote opening.offset rounds text) (opening.advance place)
      (answerOf opening text (scan quote place 0 ahead)) (endOf opening (scan quote place 0 ahead)) := by
  induction rounds generalizing text place ahead with
  | zero => exact absurd enough (Nat.not_lt_zero _)
  | succ rounds ih =>
      have start : (opening.advance 0).offset = opening.offset := by rw [Cursor.advance_zero]
      refine Follows.current.bind ?_
      rw [here]
      cases ahead with
      | nil =>
          rw [scan, answerOf, start]
          exact .of_pure _
      | cons c rest =>
          rw [List.length_cons] at enough
          have behind : (opening.advance (place + 1)).rest = rest := by
            rw [← Cursor.advance_advance, Cursor.advance, here, List.drop_one, List.tail_cons]
          have passed : Follows source (advance source) (opening.advance place) ()
              (opening.advance (place + 1)) := by
            rw [← Cursor.advance_advance]
            exact .advance
          by_cases closing : c = quote
          · rw [scan, if_pos closing, answerOf, List.append_nil]
            exact .yes closing (passed.bind (Follows.get.bind (.of_pure _)))
          refine .no closing ?_
          by_cases backslash : c = '\\'
          · refine .yes backslash (Follows.get.bind (passed.bind ?_))
            rcases @follows_escaped source (opening.advance (place + 1)) with
              ⟨decoded, length, same, within, follows⟩ | ⟨fault, length, same, follows⟩ |
              ⟨same, follows⟩
            · rw [behind] at same within
              rw [Cursor.advance_advance] at follows
              simp only [scan, if_neg closing, if_pos backslash, same]
              rw [scan_skipped _ _ within, answerOf_cons, endOf_cons]
              refine follows.bind (ih ?_ ?_)
              · rw [← Cursor.advance_advance, Cursor.advance, behind]
              · rw [List.length_drop]
                omega
            · rw [behind] at same
              rw [Cursor.advance_advance] at follows
              simp only [scan, if_neg closing, if_pos backslash, same]
              exact follows.bind (.of_pure _)
            · rw [behind] at same
              simp only [scan, if_neg closing, if_pos backslash, same]
              rw [answerOf, start]
              exact follows.bind (.of_pure _)
          · refine .no backslash (passed.bind ?_)
            simp only [scan, if_neg closing, if_neg backslash]
            rw [answerOf_cons, endOf_cons]
            exact ih behind (by omega)

/-- The fault of a malformed string and the end of its scan lie some characters behind the first one
that is not blank. -/
theorem offsets_of_misquotation {error : Misquotation} (read : string? cursor = .error error) :
    ∃ place stop, place ≤ stop ∧ error.offset = (cursor.skipBlanks.advance place).offset ∧
      error.stop = cursor.skipBlanks.advance stop := by
  simp only [string?] at read
  split at read
  · cases read
  · split at read
    · split at read
      · cases read
      · next faulty =>
          cases read
          exact ⟨_, _, place_le_of_faulty faulty, rfl, rfl⟩
    · cases read

/-- What the scanner tells of the string ahead, or of its fault. -/
def toldOf : Except Misquotation (Option (Lexeme String)) → Except Misread (Option (String × Span))
  | .ok found => .ok (found.map fun lexeme => (lexeme.content, lexeme.span))
  | .error error => .error (error.fault, error.offset)

/-- Where the scanner leaves off: behind the string, before what is no string, or where the scan of a
malformed one ended. -/
def leftAt (missed : Cursor) : Except Misquotation (Option (Lexeme String)) → Cursor
  | .ok found => (found.map Lexeme.next).getD missed
  | .error error => error.stop

theorem follows_string :
    Follows source (string source) cursor (toldOf (string? cursor))
      (leftAt cursor.skipBlanks (string? cursor)) := by
  intro inside
  have insideStart := inside.reaches cursor.reaches_skipBlanks
  refine follows_skipBlanks.bind (Follows.get.bind (Follows.current.bind ?_)) inside
  rw [string?]
  generalize cursor.skipBlanks = start at insideStart ⊢
  cases ahead : start.rest with
  | nil => exact .of_pure _
  | cons quote rest =>
      dsimp only
      by_cases opened : (decide (quote = '"') || decide (quote = '\'')) = true
      · rw [if_pos opened]
        have behind : (start.advance 1).rest = rest := by rw [Cursor.advance, ahead]; rfl
        have enough : rest.length < source.toList.length + 1 := by
          obtain ⟨before, whole, _⟩ := insideStart
          rw [whole, ahead, List.length_append, List.length_cons]
          omega
        have scanned := @follows_quoted source start quote _ [] 1 rest behind enough
        refine .yes opened (Follows.advance.bind (scanned.bind ?_))
        cases scan quote 1 0 rest with
        | closed text length => exact .of_pure _
        | faulty fault place stop => exact .of_pure _
      · rw [if_neg opened]
        exact .no opened (.of_pure _)

end Mixfix.Scanner
