import Mixfix.Descriptor.Basic
import Mixfix.Text.Cursor
import Mixfix.Text.Numeral

/-!
# Reading descriptors

The language of descriptors. A descriptor is one or more terms joined by bars; a term is a base with
at most one limit behind it, or a range with its base in the middle; a base is a kind, a quoted
value, a number or a descriptor in parentheses, with any count of array marks behind it. Limits
belong to numbers, strings and arrays, and each side takes at most one.

Each error names the byte offset where reading stopped and the reason.
-/

set_option autoImplicit false

namespace Mixfix.Descriptor

/-! ## Errors -/

/-- Why a text is not a descriptor. -/
inductive Reason where
  | trailing
  | unclosed
  | missingType
  | endOfText
  | unterminated
  | unknownType (word : String)
  | unknownSubtype (word : String)
  | invalidNumber
  | rangeMark
  | unbounded
  | duplicateBound
deriving DecidableEq

/-- The wording of a reason. -/
def Reason.message : Reason → String
  | .trailing => "unexpected trailing input"
  | .unclosed => "expected `)`"
  | .missingType => "expected a type"
  | .endOfText => "unexpected end of descriptor"
  | .unterminated => "unterminated string literal"
  | .unknownType word => "unknown type `" ++ word ++ "`"
  | .unknownSubtype word => "unknown subtype `" ++ word ++ "`"
  | .invalidNumber => "invalid number"
  | .rangeMark => "range bounds must use `<` or `<=`"
  | .unbounded => "bounds apply only to number, string and array types"
  | .duplicateBound => "duplicate bound"

/-- A text that is not a descriptor, with the place where reading stopped and why. -/
structure ParseError where
  text : String
  offset : Nat
  reason : Reason
deriving DecidableEq

/-- The message of an error. -/
def ParseError.message (error : ParseError) : String :=
  "invalid type descriptor `" ++ error.text ++ "` at offset " ++ toString error.offset ++ ": " ++
    error.reason.message

/-- A reason at a byte offset. -/
structure Stop where
  offset : Nat
  reason : Reason

/-- Reads a part of a descriptor: it gives the part and the cursor behind it, or where and why it
stopped. -/
abbrev Reader (α : Type) := Cursor → Except Stop (α × Cursor)

/-- Stops at a cursor. -/
def stop {α : Type} (cursor : Cursor) (reason : Reason) : Except Stop α :=
  .error ⟨cursor.offset, reason⟩

/-! ## Numbers and marks -/

/-- Moves past white space. -/
def skipSpace (cursor : Cursor) : Cursor := cursor.skipWhile Unicode.isWhiteSpace

/-- The cursor behind a mark, after white space. -/
def eat? (mark : List Char) (cursor : Cursor) : Option Cursor := (skipSpace cursor).strip? mark

/-- The characters of a number behind its first. -/
def isNumberChar (c : Char) : Bool := Unicode.isAsciiDigit c || c == '.'

/-- Whether a number stands ahead: a digit, or a minus and a digit. -/
def startsNumber (cursor : Cursor) : Bool :=
  match cursor.rest with
  | '-' :: c :: _ => Unicode.isAsciiDigit c
  | c :: _ => Unicode.isAsciiDigit c
  | [] => false

/-- A number in a descriptor: as a limit, and as a value. -/
structure Number where
  limit : Binary64
  value : Value

/-- The number of a text with an optional minus, digits and at most one point. -/
def numberOf? (text : List Char) : Option Number :=
  let negative := text.head? == some '-'
  let unsigned := if negative then text.drop 1 else text
  let whole := unsigned.takeWhile Unicode.isAsciiDigit
  match unsigned.dropWhile Unicode.isAsciiDigit with
  | [] =>
    if whole.isEmpty then none
    else
      let limit := Numeral.nearest negative whole [] 0
      match Numeral.toInt64? (withSign negative (Numeral.value whole)) with
      | some n => some ⟨limit, .integer n⟩
      | none => some ⟨limit, .float limit⟩
  | _ :: fraction =>
    if fraction.all Unicode.isAsciiDigit && !(whole.isEmpty && fraction.isEmpty) then
      let limit := Numeral.nearest negative whole fraction 0
      some ⟨limit, .float limit⟩
    else none

/-- The text of the number ahead. -/
def numberText : List Char → List Char
  | [] => []
  | c :: rest => if c = '-' || isNumberChar c then c :: rest.takeWhile isNumberChar else []

/-- Reads a number. -/
def readNumber : Reader Number := fun cursor =>
  let text := numberText cursor.rest
  match numberOf? text with
  | some number => .ok (number, cursor.advance text.length)
  | none => stop cursor .invalidNumber

/-- The marks between a base and a limit. -/
inductive Mark where
  | less
  | lessEqual
  | greater
  | greaterEqual
  | equal
deriving DecidableEq

/-- How marks are written; longer ones come first. -/
def Mark.all : List (List Char × Mark) :=
  [(['<', '='], .lessEqual), (['>', '='], .greaterEqual), (['=', '='], .equal), (['<'], .less),
   (['>'], .greater)]

/-- The mark directly ahead and the cursor behind it. -/
def readMark? (cursor : Cursor) : Option (Mark × Cursor) :=
  Mark.all.findSome? fun (text, mark) => (cursor.strip? text).map (mark, ·)

/-! ## Limits -/

/-- The side of a limit. -/
inductive Side where
  | lower
  | upper
deriving DecidableEq

/-- Adds a limit on a side that has none. -/
def limitSide (bound : Bound) (bounds : Bounds) : Side → Except Reason Bounds
  | .lower =>
    if bounds.lower.isSome then .error .duplicateBound else .ok { bounds with lower := bound }
  | .upper =>
    if bounds.upper.isSome then .error .duplicateBound else .ok { bounds with upper := bound }

/-- Adds a limit to a descriptor that can be bounded. -/
def limit (side : Side) (bound : Bound) : Descriptor → Except Reason Descriptor
  | .primitive kind subtype bounds =>
    if kind.isBounded then (limitSide bound bounds side).map (.primitive kind subtype ·)
    else .error .unbounded
  | .array element length => (limitSide bound length side).map (.array element ·)
  | _ => .error .unbounded

/-- Adds the limits that a mark behind a base stands for. -/
def limitBehind (mark : Mark) (x : Binary64) (base : Descriptor) : Except Reason Descriptor :=
  match mark with
  | .less => limit .upper ⟨x, false⟩ base
  | .lessEqual => limit .upper ⟨x, true⟩ base
  | .greater => limit .lower ⟨x, false⟩ base
  | .greaterEqual => limit .lower ⟨x, true⟩ base
  | .equal => do limit .upper ⟨x, true⟩ (← limit .lower ⟨x, true⟩ base)

/-- Places the reason of a failed step at a cursor. -/
def placed {α : Type} (cursor : Cursor) : Except Reason α → Except Stop α
  | .ok result => .ok result
  | .error reason => stop cursor reason

/-! ## Bases -/

/-- The text of a quoted value up to its closing quote, and the count of characters to behind it. A
backslash takes the character behind it as it is. -/
def quotedText? (quote : Char) (escaped : Bool) : List Char → Option (List Char × Nat)
  | [] => none
  | c :: rest =>
    if escaped then (quotedText? quote false rest).map fun (text, count) => (c :: text, count + 1)
    else if c = '\\' then (quotedText? quote true rest).map fun (text, count) => (text, count + 1)
    else if c = quote then some ([], 1)
    else (quotedText? quote false rest).map fun (text, count) => (c :: text, count + 1)

/-- Reads a quoted value. -/
def readQuoted (quote : Char) : Reader Descriptor := fun cursor =>
  match quotedText? quote false (cursor.rest.drop 1) with
  | some (text, count) => .ok (.unit (.string (String.ofList text)), cursor.advance (count + 1))
  | none => stop cursor .unterminated

/-- The characters of words, with the point before a subtype. -/
def isWordChar (c : Char) : Bool :=
  Unicode.isAsciiLetter c || Unicode.isAsciiDigit c || c == '.' || c == '_'

/-- The descriptor of a kind with the subtype of a name. -/
def refined? (kind : Kind) (name : String) : Option Descriptor :=
  (Subtype.all.find? fun subtype => subtype.kind == kind && subtype.keyword == name).map
    fun subtype => .primitive kind (some subtype) .none

/-- The descriptor that a word stands for. -/
def ofWord (word : List Char) : Except Reason Descriptor :=
  let unknownType : Reason := .unknownType (String.ofList word)
  let head := String.ofList (word.takeWhile (· != '.'))
  match Kind.all.find? (·.keyword == head), word.dropWhile (· != '.') with
  | some kind, [] => .ok (plain kind)
  | some kind, _ :: name =>
    match refined? kind (String.ofList name) with
    | some descriptor => .ok descriptor
    | none => .error (.unknownSubtype (String.ofList word))
  | none, [] =>
    if head = "unknown" then .ok .unknown
    else if head = "true" then .ok (.unit (.boolean true))
    else if head = "false" then .ok (.unit (.boolean false))
    else .error unknownType
  | none, _ :: _ => .error unknownType

/-- Reads a word. -/
def readWord : Reader Descriptor := fun cursor => do
  let word := cursor.rest.takeWhile isWordChar
  let descriptor ← placed cursor (ofWord word)
  .ok (descriptor, cursor.advance word.length)

/-- Reads a base without array marks; `inner` reads what stands in parentheses. -/
def readPrimary (inner : Reader Descriptor) : Reader Descriptor := fun cursor =>
  let cursor := skipSpace cursor
  match cursor.rest with
  | [] => stop cursor .endOfText
  | c :: _ =>
    if c = '(' then do
      let (descriptor, cursor) ← inner (cursor.advance 1)
      match eat? [')'] cursor with
      | some cursor => .ok (descriptor, cursor)
      | none => stop (skipSpace cursor) .unclosed
    else if c = '\'' || c = '"' then readQuoted c cursor
    else if Unicode.isAsciiLetter c then readWord cursor
    else if startsNumber cursor then do
      let (number, cursor) ← readNumber cursor
      .ok (.unit number.value, cursor)
    else stop cursor .missingType

/-- Reads array marks behind a base. -/
def readArrayMarks : Nat → Descriptor → Cursor → Descriptor × Cursor
  | 0, base, cursor => (base, skipSpace cursor)
  | steps + 1, base, cursor =>
    match eat? ['[', ']'] cursor with
    | some next => readArrayMarks steps (.array base .none) next
    | none => (base, skipSpace cursor)

/-- Reads a base. -/
def readBase (inner : Reader Descriptor) : Reader Descriptor := fun cursor => do
  let (base, cursor) ← readPrimary inner cursor
  .ok (readArrayMarks cursor.rest.length base cursor)

/-! ## Terms and unions -/

/-- Reads the base of a range, and the limit above it if there is one. -/
def readRange (inner : Reader Descriptor) (lower : Bound) : Reader Descriptor := fun cursor => do
  let (base, cursor) ← readBase inner cursor
  let base ← placed cursor (limit .lower lower base)
  let cursor := skipSpace cursor
  match readMark? cursor with
  | none => .ok (base, cursor)
  | some (mark, cursor) =>
    if mark = .less || mark = .lessEqual then
      let (number, cursor) ← readNumber (skipSpace cursor)
      let base ← placed cursor (limit .upper ⟨number.limit, mark == .lessEqual⟩ base)
      .ok (base, cursor)
    else stop cursor .rangeMark

/-- Reads a term. -/
def readTerm (inner : Reader Descriptor) : Reader Descriptor := fun cursor => do
  let cursor := skipSpace cursor
  if startsNumber cursor then
    let (number, cursor) ← readNumber cursor
    let cursor := skipSpace cursor
    match readMark? cursor with
    | none => .ok (.unit number.value, cursor)
    | some (mark, cursor) =>
      if mark = .less || mark = .lessEqual then
        readRange inner ⟨number.limit, mark == .lessEqual⟩ cursor
      else stop cursor .rangeMark
  else
    let (base, cursor) ← readBase inner cursor
    let cursor := skipSpace cursor
    match readMark? cursor with
    | none => .ok (base, cursor)
    | some (mark, cursor) =>
      let (number, cursor) ← readNumber (skipSpace cursor)
      let base ← placed cursor (limitBehind mark number.limit base)
      .ok (base, cursor)

/-- Reads further members of a union. -/
def readMembers (inner : Reader Descriptor) : Nat → Reader (List Descriptor)
  | 0 => fun cursor => .ok ([], skipSpace cursor)
  | steps + 1 => fun cursor =>
    match eat? ['|'] cursor with
    | none => .ok ([], skipSpace cursor)
    | some next => do
      let (member, cursor) ← readTerm inner next
      let (members, cursor) ← readMembers inner steps cursor
      .ok (member :: members, cursor)

/-- Reads a union, with parentheses nested up to a depth. -/
def readUnion : Nat → Reader Descriptor
  | 0 => fun cursor => stop cursor .endOfText
  | depth + 1 => fun cursor => do
    let (member, cursor) ← readTerm (readUnion depth) cursor
    let (members, cursor) ← readMembers (readUnion depth) cursor.rest.length cursor
    .ok (unionOf (member :: members), cursor)

/-- Reads a descriptor that fills a whole text. Parentheses cannot be nested deeper than the text is
long. -/
def parse (text : String) : Except ParseError Descriptor :=
  let start := Cursor.start text
  let result : Except Stop Descriptor := do
    let (descriptor, cursor) ← readUnion (start.rest.length + 1) start
    let cursor := skipSpace cursor
    if cursor.rest.isEmpty then .ok descriptor else stop cursor .trailing
  match result with
  | .ok descriptor => .ok descriptor
  | .error ⟨offset, reason⟩ => .error ⟨text, offset, reason⟩

end Mixfix.Descriptor
