import Mixfix.Proofs.Text.Literals

/-!
# Texts in place of an identifier

The tokens of a text are its strings, numbers and dotted paths, and each other character for itself.
Other text can be written in place of all tokens that are an identifier (`inlined`). All other tokens
are kept, where their ends are clear: marks and blanks everywhere (`inlined_cons`), literals and
other paths where no word character and no point follows (`inlined_literal`, `inlined_path`).
-/

set_option autoImplicit false

namespace Mixfix.Parse

open Lexeme
open Unicode (isAsciiDigit isAlphabetic)
open Cursor (isBlank)

/-! ## Tokens -/

/-- The characters of dotted paths. -/
def isPathChar (c : Char) : Bool := isWordChar c || c == '.'

/-- The count of characters of the token that a text starts with: a string, a number, a dotted path,
or else a single character. -/
def tokenLength : List Char → Nat
  | [] => 0
  | c :: rest =>
    if c = '"' || c = '\'' then
      match scan c 1 0 rest with
      | .closed _ place => place + 1
      | .faulty _ _ _ => 1
    else if isAsciiDigit c then
      match splitNumber (c :: rest) with
      | some (_, behind) => rest.length + 1 - behind.length
      | none => 1
    else if isAlphabetic c then ((c :: rest).takeWhile isPathChar).length
    else 1

/-- The tokens of a text, but for one that some of the first characters belong to. -/
def tokensBehind : Nat → List Char → List (List Char)
  | _, [] => []
  | skipped + 1, _ :: rest => tokensBehind skipped rest
  | 0, c :: rest =>
    (c :: rest).take (tokenLength (c :: rest)) :: tokensBehind (tokenLength (c :: rest) - 1) rest

/-- The tokens of a text. -/
def tokens (text : List Char) : List (List Char) := tokensBehind 0 text

/-- Whether a word can be an identifier: it is no keyword. -/
def isIdentifier (name : String) : Bool :=
  isWord name && Keyword.all.all fun keyword => keyword.text != name

/-- A text with other text in place of the tokens that are an identifier. -/
def inlined (name : String) (other text : List Char) : List Char :=
  (tokens text).flatMap fun token =>
    if isIdentifier name && token == name.toList then other else token

variable {name : String} {other text token behind : List Char}

theorem tokensBehind_eq (skipped : Nat) (text : List Char) :
    tokensBehind skipped text = tokens (text.drop skipped) := by
  induction text generalizing skipped with
  | nil => cases skipped <;> rfl
  | cons c text ih =>
      cases skipped with
      | zero => rfl
      | succ skipped => exact ih skipped

/-- A token stands before the tokens of what is behind it. -/
theorem inlined_token (nonempty : token ≠ [])
    (length : tokenLength (token ++ behind) = token.length) :
    inlined name other (token ++ behind) =
      (if isIdentifier name && token == name.toList then other else token) ++
        inlined name other behind := by
  have divided : tokens (token ++ behind) = token :: tokens behind := by
    obtain ⟨c, rest, rfl⟩ := List.exists_cons_of_ne_nil nonempty
    rw [List.cons_append] at length ⊢
    rw [tokens, tokensBehind, tokensBehind_eq, length, List.length_cons, Nat.add_sub_cancel,
      List.drop_left, ← List.cons_append, ← List.length_cons, List.take_left]
  rw [inlined, divided, List.flatMap_cons]
  rfl

/-- A token that is not the identifier is kept. -/
theorem inlined_kept (nonempty : token ≠ []) (length : tokenLength (token ++ behind) = token.length)
    (differs : isIdentifier name = true → token ≠ name.toList) :
    inlined name other (token ++ behind) = token ++ inlined name other behind := by
  rw [inlined_token nonempty length, if_neg]
  rw [Bool.and_eq_true, beq_iff_eq]
  rintro ⟨identifier, same⟩
  exact differs identifier same

theorem isIdentifier_iff :
    isIdentifier name = true ↔ isWord name = true ∧ ∀ keyword : Keyword, name ≠ keyword.text := by
  rw [isIdentifier, Bool.and_eq_true, List.all_eq_true]
  refine and_congr_right fun _ => ⟨fun all keyword => ?_, fun differs keyword _ => ?_⟩
  · exact (bne_iff_ne.mp (all keyword (by cases keyword <;> decide))).symm
  · exact bne_iff_ne.mpr (differs keyword).symm

theorem isWord_of_isIdentifier (identifier : isIdentifier name = true) : isWord name = true :=
  (isIdentifier_iff.mp identifier).1

/-- An identifier starts with a letter, so a token that starts with something else is none. -/
theorem ne_identifier {c : Char} {rest : List Char} (notLetter : isAlphabetic c = false)
    (identifier : isIdentifier name = true) : c :: rest ≠ name.toList := by
  obtain ⟨first, chars, letters, letter, _⟩ := isWord_iff.mp (isWord_of_isIdentifier identifier)
  rw [letters]
  rintro ⟨⟩
  rw [letter] at notLetter
  cases notLetter

/-! ## Marks and blanks -/

/-- Whether a character is a token of its own: it starts no string, number or path. -/
def isLone (c : Char) : Bool :=
  !(decide (c = '"') || decide (c = '\'') || isAsciiDigit c || isAlphabetic c)

theorem isLone_iff {c : Char} : isLone c = true ↔
    c ≠ '"' ∧ c ≠ '\'' ∧ isAsciiDigit c = false ∧ isAlphabetic c = false := by
  simp [isLone, and_assoc]

theorem inlined_nil : inlined name other [] = [] := rfl

theorem inlined_cons {c : Char} (lone : isLone c = true) (text : List Char) :
    inlined name other (c :: text) = c :: inlined name other text := by
  obtain ⟨double, single, notDigit, notLetter⟩ := isLone_iff.mp lone
  have length : tokenLength ([c] ++ text) = [c].length := by
    simp [tokenLength, double, single, notDigit, notLetter]
  exact inlined_kept (List.cons_ne_nil c []) length (ne_identifier notLetter)

theorem inlined_append {mark : List Char} (lone : ∀ c ∈ mark, isLone c = true) (text : List Char) :
    inlined name other (mark ++ text) = mark ++ inlined name other text := by
  induction mark with
  | nil => rfl
  | cons c mark ih =>
      rw [List.cons_append, inlined_cons (lone c List.mem_cons_self),
        ih fun d mem => lone d (List.mem_cons_of_mem _ mem), List.cons_append]

theorem isLone_of_isBlank {c : Char} (blank : isBlank c = true) : isLone c = true := by
  simp only [isBlank, Bool.or_eq_true, beq_iff_eq] at blank
  rcases blank with ((rfl | rfl) | rfl) | rfl <;> decide

theorem tokenLength_pos (c : Char) (rest : List Char) : 0 < tokenLength (c :: rest) := by
  rw [tokenLength]
  split
  · split <;> exact Nat.succ_pos _
  · split
    · split
      · next divided =>
          have shorter := length_splitNumber divided
          rw [List.length_cons] at shorter
          omega
      · exact Nat.one_pos
    · split
      · next letter =>
          have first : isPathChar c = true := by
            rw [isPathChar, isWordChar_of_isAlphabetic letter, Bool.true_or]
          rw [List.takeWhile_cons_of_pos first]
          exact Nat.succ_pos _
      · exact Nat.one_pos

/-- A token that starts with a letter is a path. -/
theorem tokenLength_of_isAlphabetic {c : Char} (letter : isAlphabetic c = true) (rest : List Char) :
    tokenLength (c :: rest) = ((c :: rest).takeWhile isPathChar).length := by
  have notQuote : ¬ (decide (c = '"') || decide (c = '\'')) = true := by
    rw [Bool.or_eq_true, decide_eq_true_eq, decide_eq_true_eq]
    rintro (rfl | rfl) <;> cases letter
  have notDigit : ¬ isAsciiDigit c = true := by
    rw [notDigit_of_isAlphabetic letter]
    exact Bool.false_ne_true
  rw [tokenLength, if_neg notQuote, if_neg notDigit, if_pos letter]

/-- The token that a text starts with is an identifier. -/
def StartsWith (name : String) (text : List Char) : Prop :=
  isIdentifier name = true ∧ ∃ behind, text = name.toList ++ behind ∧ endsPath behind = true

theorem StartsWith.letter {c : Char} {rest : List Char} (starts : StartsWith name (c :: rest)) :
    isAlphabetic c = true := by
  obtain ⟨identifier, behind, same, _⟩ := starts
  obtain ⟨first, chars, letters, letter, _⟩ := isWord_iff.mp (isWord_of_isIdentifier identifier)
  rw [letters] at same
  cases same
  exact letter

theorem startsWith_of_token {c : Char} {rest : List Char} (identifier : isIdentifier name = true)
    (same : (c :: rest).take (tokenLength (c :: rest)) = name.toList) :
    StartsWith name (c :: rest) := by
  have letter : isAlphabetic c = true := by
    rw [← Bool.not_eq_false]
    intro notLetter
    obtain ⟨length, count⟩ := Nat.exists_eq_succ_of_ne_zero (Nat.pos_iff_ne_zero.mp
      (tokenLength_pos c rest))
    rw [count] at same
    exact ne_identifier notLetter identifier same
  rw [tokenLength_of_isAlphabetic letter] at same
  have text : (c :: rest).takeWhile isPathChar = name.toList :=
    (List.prefix_iff_eq_take.mp (List.takeWhile_prefix isPathChar)).trans same
  refine ⟨identifier, (c :: rest).dropWhile isPathChar, ?_, ?_⟩
  · rw [← text, List.takeWhile_append_dropWhile]
  · have outside := List.head?_dropWhile_not isPathChar (c :: rest)
    rw [endsPath]
    cases behind : ((c :: rest).dropWhile isPathChar).head? with
    | none => rfl
    | some d =>
        rw [behind] at outside
        have notPath : isPathChar d = false := by simpa using outside
        rw [isPathChar, Bool.or_eq_false_iff] at notPath
        simp [notPath.1, notPath.2, bne]

section Digits

variable (digits : other.head?.any isAsciiDigit = true)
include digits

/-- The first character stays, or digits are written in place of an identifier. -/
theorem head?_inlined (c : Char) (rest : List Char) :
    ∃ d, (inlined name other (c :: rest)).head? = some d ∧
      (d = c ∨ isAsciiDigit d = true ∧ StartsWith name (c :: rest)) := by
  obtain ⟨length, count⟩ := Nat.exists_eq_succ_of_ne_zero (Nat.pos_iff_ne_zero.mp
    (tokenLength_pos c rest))
  rw [inlined, tokens, tokensBehind, List.flatMap_cons]
  split
  · next replaced =>
      rw [Bool.and_eq_true, beq_iff_eq] at replaced
      obtain ⟨d, first, digit⟩ := (Option.any_eq_true isAsciiDigit other.head?).mp digits
      refine ⟨d, by rw [List.head?_append, first, Option.some_or], .inr ⟨digit, ?_⟩⟩
      exact startsWith_of_token replaced.1 replaced.2
  · exact ⟨c, by rw [count]; rfl, .inl rfl⟩

/-- A text of marks starts both texts or none of them. -/
theorem prefix_inlined_iff {mark : List Char} (lone : ∀ c ∈ mark, isLone c = true)
    (text : List Char) : mark <+: inlined name other text ↔ mark <+: text := by
  induction mark generalizing text with
  | nil => simp
  | cons first mark ih =>
      have here := lone first List.mem_cons_self
      cases text with
      | nil => rw [inlined_nil]
      | cons c rest =>
          by_cases loneHere : isLone c = true
          · rw [inlined_cons loneHere, List.cons_prefix_cons, List.cons_prefix_cons,
              ih fun d mem => lone d (List.mem_cons_of_mem _ mem)]
          · obtain ⟨d, head, shape⟩ := @head?_inlined name _ digits c rest
            refine iff_of_false ?_ ?_
            · rintro ⟨behind, same⟩
              rw [← same] at head
              obtain rfl : first = d := Option.some.inj head
              rcases shape with rfl | ⟨digit, _⟩
              · exact loneHere here
              · rw [(isLone_iff.mp here).2.2.1] at digit
                cases digit
            · rintro ⟨behind, same⟩
              cases same
              exact loneHere here

theorem dropWhile_inlined (text : List Char) :
    (inlined name other text).dropWhile isBlank = inlined name other (text.dropWhile isBlank) := by
  induction text with
  | nil => rfl
  | cons c text ih =>
      by_cases blank : isBlank c = true
      · rw [inlined_cons (isLone_of_isBlank blank), List.dropWhile_cons_of_pos blank, ih,
          List.dropWhile_cons_of_pos blank]
      · rw [List.dropWhile_cons_of_neg blank]
        obtain ⟨d, head, shape⟩ := @head?_inlined name _ digits c text
        obtain ⟨rest, same⟩ := List.head?_eq_some_iff.mp head
        have solid : ¬ isBlank d = true := by
          rcases shape with rfl | ⟨digit, _⟩
          · exact blank
          · intro blankHere
            rw [(isLone_iff.mp (isLone_of_isBlank blankHere)).2.2.1] at digit
            cases digit
        rw [same, List.dropWhile_cons_of_neg solid]

/-- Where no path can go on none can go on in the other text either. -/
theorem endsPath_inlined (ends : endsPath behind = true) :
    endsPath (inlined name other behind) = true := by
  cases behind with
  | nil => rfl
  | cons c behind =>
      obtain ⟨d, head, shape⟩ := @head?_inlined name _ digits c behind
      rw [endsPath, List.head?_cons, Option.all_some] at ends
      rw [endsPath, head, Option.all_some]
      rcases shape with rfl | ⟨_, starts⟩
      · exact ends
      · rw [isWordChar_of_isAlphabetic starts.letter] at ends
        cases ends

end Digits

/-! ## Literals and paths -/

theorem notLetter_of_isAsciiDigit {c : Char} (digit : isAsciiDigit c = true) :
    isAlphabetic c = false := by
  rw [Bool.eq_false_iff]
  intro letter
  rw [notDigit_of_isAlphabetic letter] at digit
  cases digit

/-- A number is a minus, if it is negative, and a number that starts with a digit. -/
theorem exists_unsigned {parts : NumberParts} (divided : splitNumber text = some (parts, [])) :
    ∃ c rest, (text = c :: rest ∨ text = '-' :: c :: rest) ∧ isAsciiDigit c = true ∧
      splitNumber (c :: rest) = some ({ parts with negative := false }, []) := by
  obtain ⟨c, rest, unsigned, digit⟩ :
      ∃ c rest, (splitMinus text).2 = c :: rest ∧ isAsciiDigit c = true := by
    simp only [splitNumber] at divided
    cases unsigned : (splitMinus text).2 with
    | nil =>
        rw [unsigned] at divided
        cases divided
    | cons c rest =>
        refine ⟨c, rest, rfl, ?_⟩
        cases digit : isAsciiDigit c with
        | true => rfl
        | false =>
            simp [unsigned, splitDigits, digit] at divided
  have notMinus : c ≠ '-' := by
    rintro rfl
    cases digit
  refine ⟨c, rest, ?_, digit, ?_⟩
  · cases text with
    | nil => cases unsigned
    | cons d text =>
        by_cases minus : d = '-'
        · subst minus
          exact .inr (congrArg (List.cons '-') unsigned)
        · rw [splitMinus_of_ne minus] at unsigned
          exact .inl unsigned
  · simp only [splitNumber, unsigned] at divided
    simp only [splitNumber, splitMinus_of_ne notMinus]
    rcases first : splitDigits (c :: rest) with ⟨_ | ⟨digit, digits⟩, left⟩
    · rw [first] at divided
      cases divided
    · simp only [first, Option.some.injEq, Prod.mk.injEq] at divided ⊢
      obtain ⟨rfl, last⟩ := divided
      exact ⟨rfl, last⟩

theorem isPathChar_of_isWordChar {c : Char} (word : isWordChar c = true) : isPathChar c = true := by
  rw [isPathChar, word, Bool.true_or]

/-- A path is a token where it ends. -/
theorem tokenLength_path {c : Char} {rest : List Char} (letter : isAlphabetic c = true)
    (chars : ∀ d ∈ c :: rest, isPathChar d = true) (ends : endsPath behind = true) :
    tokenLength (c :: rest ++ behind) = (c :: rest).length := by
  have outside : ∀ d, isPathChar d = true → isWordChar d = true ∨ d = '.' := by
    intro d inPath
    simpa [isPathChar] using inPath
  rw [List.cons_append, tokenLength_of_isAlphabetic letter, ← List.cons_append,
    takeWhile_append_of_all chars (head_of_endsPath ends outside)]

/-- A literal is kept. -/
theorem inlined_literal {value : Value} (literal : IsLiteral text value)
    (ends : endsPath behind = true) :
    inlined name other (text ++ behind) = text ++ inlined name other behind := by
  cases literal with
  | number divided =>
      obtain ⟨c, rest, shape, digit, unsigned⟩ := exists_unsigned divided
      have number : inlined name other (c :: rest ++ behind) =
          c :: rest ++ inlined name other behind := by
        refine inlined_kept (List.cons_ne_nil c rest) ?_
          (ne_identifier (notLetter_of_isAsciiDigit digit))
        have notQuote : ¬ (decide (c = '"') || decide (c = '\'')) = true := by
          rw [Bool.or_eq_true, decide_eq_true_eq, decide_eq_true_eq]
          rintro (rfl | rfl) <;> cases digit
        have found := splitNumber_append_of_ends ends unsigned
        rw [List.cons_append] at found ⊢
        simp only [tokenLength, if_neg notQuote, if_pos digit, found, List.length_append,
          List.length_cons]
        omega
      rcases shape with rfl | rfl
      · exact number
      · rw [List.cons_append, inlined_cons (by decide), number]
        rfl
  | @string quote text content quoted closed =>
      have notLetter : isAlphabetic quote = false := by rcases quoted with rfl | rfl <;> decide
      refine inlined_kept (List.cons_ne_nil quote text) ?_ (ne_identifier notLetter)
      have quotedHere : (decide (quote = '"') || decide (quote = '\'')) = true := by
        rwa [Bool.or_eq_true, decide_eq_true_eq, decide_eq_true_eq]
      simp only [List.cons_append, tokenLength, if_pos quotedHere, scan_append closed,
        List.length_cons]
  | keyword keyword =>
      obtain ⟨c, rest, letters, letter⟩ :
          ∃ c rest, keyword.text.toList = c :: rest ∧ isAlphabetic c = true := by
        cases keyword <;> exact ⟨_, _, rfl, by decide⟩
      have chars : ∀ d ∈ c :: rest, isPathChar d = true := by
        intro d mem
        rw [← letters] at mem
        exact isPathChar_of_isWordChar (isWordChar_keyword keyword d mem)
      rw [letters]
      refine inlined_kept (List.cons_ne_nil c rest) (tokenLength_path letter chars ends) ?_
      intro identifier same
      rw [← letters, String.toList_inj] at same
      exact (isIdentifier_iff.mp identifier).2 keyword same.symm

theorem pathChars {path : List String} (words : ∀ segment ∈ path, isWord segment = true) :
    ∀ c ∈ pathText path, isPathChar c = true := by
  have inWord {segment : String} (mem : segment ∈ path) :
      ∀ c ∈ segment.toList, isPathChar c = true :=
    fun c inside => isPathChar_of_isWordChar (wordChars_of_isWord (words segment mem) c inside)
  intro c mem
  cases path with
  | nil => cases mem
  | cons first segments =>
      rw [pathText, List.mem_append, dotted, List.mem_flatMap] at mem
      rcases mem with inside | ⟨segment, known, inside⟩
      · exact inWord List.mem_cons_self c inside
      · rcases List.mem_cons.mp inside with rfl | inside
        · rfl
        · exact inWord (List.mem_cons_of_mem _ known) c inside

/-- The text of a path starts with a letter. -/
theorem exists_pathText {path : List String} (words : ∀ segment ∈ path, isWord segment = true)
    (nonempty : path ≠ []) :
    ∃ c rest, pathText path = c :: rest ∧ isAlphabetic c = true := by
  obtain ⟨first, segments, rfl⟩ := List.exists_cons_of_ne_nil nonempty
  obtain ⟨c, rest, letters, letter, _⟩ := isWord_iff.mp (words first List.mem_cons_self)
  exact ⟨c, rest ++ dotted segments, by rw [pathText, letters, List.cons_append], letter⟩

/-- A path with the text of an identifier is this identifier. -/
theorem eq_singleton_of_pathText {path : List String} (nonempty : path ≠ [])
    (word : isWord name = true) (same : pathText path = name.toList) : path = [name] := by
  obtain ⟨first, segments, rfl⟩ := List.exists_cons_of_ne_nil nonempty
  cases segments with
  | nil =>
      rw [pathText, dotted, List.flatMap_nil, List.append_nil, String.toList_inj] at same
      rw [same]
  | cons segment segments =>
      -- the point between segments is no part of a word
      have point : '.' ∈ name.toList := by
        rw [← same, pathText, dotted, List.flatMap_cons]
        simp
      have inWord := wordChars_of_isWord word '.' point
      cases inWord

/-- Another path than the identifier is kept. -/
theorem inlined_path {path : List String} (words : ∀ segment ∈ path, isWord segment = true)
    (nonempty : path ≠ []) (differs : path ≠ [name]) (ends : endsPath behind = true) :
    inlined name other (pathText path ++ behind) =
      pathText path ++ inlined name other behind := by
  obtain ⟨c, rest, same, letter⟩ := exists_pathText words nonempty
  have chars := pathChars words
  rw [same] at chars
  refine inlined_kept (by rw [same]; exact List.cons_ne_nil c rest) ?_ ?_
  · rw [same]
    exact tokenLength_path letter chars ends
  · exact fun identifier text =>
      differs (eq_singleton_of_pathText nonempty (isWord_of_isIdentifier identifier) text)

/-- The identifier is replaced. -/
theorem inlined_name (identifier : isIdentifier name = true) (ends : endsPath behind = true) :
    inlined name other (name.toList ++ behind) = other ++ inlined name other behind := by
  have word := isWord_of_isIdentifier identifier
  obtain ⟨c, rest, same, letter, _⟩ := isWord_iff.mp word
  have chars : ∀ d ∈ name.toList, isPathChar d = true :=
    fun d mem => isPathChar_of_isWordChar (wordChars_of_isWord word d mem)
  rw [inlined_token, identifier, Bool.true_and, if_pos (beq_self_eq_true _)]
  · rw [same]
    exact List.cons_ne_nil c rest
  · rw [same] at chars ⊢
    exact tokenLength_path letter chars ends

end Mixfix.Parse
