import Mixfix.Proofs.Text.StringScanner
import Mixfix.Proofs.Tree.Spans

/-!
# Sessions of reading

Whoever reads a text piece by piece holds an offset and asks for one operation after the other: a
reader, the blanks, what comes next, or to go back to an offset that was returned before. The
operations are done by scanners, which could be stopped by an offset off a boundary
(`Operation.perform`). What they come to on cursors is told by the readers (`Operation.outcome`).

A session is any sequence of operations from the start of a text (`Session`). All offsets that are
returned in it are boundaries of characters (`Session.isBoundary`), since an operation leaves a
boundary if it starts at one. Therefore every further operation has an answer, which is the one of
the readers, and moves as it should (`Session.isSafe`): behind a lexeme that starts at or behind the
offset, or over blanks only, except where a malformed string was met.
-/

set_option autoImplicit false

namespace Mixfix

/-! ## Operations -/

/-- What can be asked of a text at an offset. -/
inductive Operation where
  | number
  | string
  | identifier
  | segment
  | keyword (keyword : Keyword)
  /-- The exact text ahead, given all of them. -/
  | token (tokens : List String) (text : String)
  | skipBlanks
  | atEnd
  | describe
  | rest
  /-- To go to an offset. -/
  | reset (offset : Nat)

/-- What an operation answers. -/
inductive Answer where
  /-- A lexeme was found: its content, where this is not asked for by name, and its span. -/
  | found (content : Option Value) (span : Span)
  | missed
  /-- A string is malformed, and its fault is at an offset. -/
  | misquoted (fault : QuotationFault) (offset : Nat)
  | skipped
  | ended (atEnd : Bool)
  | described (text : String)
  | ahead (text : String)
  | moved (offset : Nat)

namespace Answer

variable {α : Type}

/-- The answer of a reader. -/
def ofFound (content : α → Option Value) : Option (α × Span) → Answer
  | some (a, span) => .found (content a) span
  | none => .missed

/-- The answer of the reader of strings. -/
def ofString : Except Scanner.Misread (Option (String × Span)) → Answer
  | .ok read => ofFound (fun text => some (.string text)) read
  | .error (fault, offset) => .misquoted fault offset

end Answer

namespace Operation

/-- Does an operation on a source text by its offsets. -/
def perform (source : String) : Operation → Scanner Answer
  | .number => return .ofFound some (← Scanner.number source)
  | .string => return .ofString (← Scanner.string source)
  | .identifier => return .ofFound (fun name => some (.string name)) (← Scanner.identifier source)
  | .segment => return .ofFound (fun name => some (.string name)) (← Scanner.segment source)
  | .keyword word => return .ofFound (fun _ => none) (← Scanner.keyword source word)
  | .token tokens text => return .ofFound (fun _ => none) (← Scanner.token source tokens text)
  | .skipBlanks => do
    Scanner.skipBlanks source
    return .skipped
  | .atEnd => return .ended (← Scanner.atEnd source)
  | .describe => return .described (← Scanner.describe source)
  | .rest => return .ahead (String.ofList (← Scanner.rest source))
  | .reset offset => do
    set offset
    return .moved offset

/-- What a reader found, and the cursor behind it or else another one. -/
def reading {α : Type} (content : α → Option Value) (missed : Cursor) (found : Option (Lexeme α)) :
    Answer × Cursor :=
  (.ofFound content (found.map fun lexeme => (lexeme.content, lexeme.span)),
    (found.map Lexeme.next).getD missed)

/-- What an operation answers from a cursor in a source text, and the cursor that it leaves. -/
def outcome (source : String) (cursor : Cursor) : Operation → Answer × Cursor
  | .number => reading some cursor.skipBlanks (Lexeme.number? cursor)
  | .string =>
    (.ofString (Scanner.toldOf (Lexeme.string? cursor)),
      Scanner.leftAt cursor.skipBlanks (Lexeme.string? cursor))
  | .identifier =>
    reading (fun name => some (.string name)) cursor.skipBlanks (Lexeme.identifier? cursor)
  | .segment => reading (fun name => some (.string name)) cursor (Lexeme.segment? cursor)
  | .keyword word => reading (fun _ => none) cursor.skipBlanks (Lexeme.keyword? word cursor)
  | .token tokens text => reading (fun _ => none) cursor.skipBlanks (Lexeme.token? tokens text cursor)
  | .skipBlanks => (.skipped, cursor.skipBlanks)
  | .atEnd => (.ended cursor.atEnd, cursor.skipBlanks)
  | .describe => (.described cursor.upcoming, cursor.skipBlanks)
  | .rest => (.ahead (String.ofList cursor.rest), cursor)
  | .reset offset => (.moved offset, Cursor.atOffset source offset)

/-- An operation may be asked for where some offsets can be gone back to: exact texts are not empty. -/
def Allowed (known : Nat → Prop) : Operation → Prop
  | .token _ text => text ≠ ""
  | .reset offset => known offset
  | _ => True

theorem Allowed.mono {known wider : Nat → Prop} {operation : Operation}
    (allowed : operation.Allowed known) (more : ∀ offset, known offset → wider offset) :
    operation.Allowed wider := by
  cases operation with
  | reset offset => exact more offset allowed
  | _ => exact allowed

end Operation

/-- The offsets that were returned in a session with a source text, from the latest to the first. Any
operation can follow, as long as it goes back to nothing but these. -/
inductive Session (source : String) : List Nat → Prop where
  | start : Session source [0]
  | step {offset next : Nat} {earlier : List Nat} (operation : Operation)
      (session : Session source (offset :: earlier))
      (allowed : operation.Allowed (· ∈ offset :: earlier))
      (performed : ((operation.perform source).run offset).map Prod.snd = some next) :
      Session source (next :: offset :: earlier)

/-! ## Boundaries -/

variable {source : String}

/-- At a boundary of a text a cursor stands in it. -/
theorem IsBoundary.atOffset {offset : Nat} (boundary : IsBoundary source offset) :
    (Cursor.atOffset source offset).LiesIn source ∧
      (Cursor.atOffset source offset).offset = offset := by
  obtain ⟨before, after, whole, counted⟩ := boundary
  have inside : Cursor.LiesIn source ⟨offset, after⟩ := ⟨before, whole, counted.symm⟩
  have same : Cursor.atOffset source offset = ⟨offset, after⟩ := inside.atOffset
  rw [same]
  exact ⟨inside, rfl⟩

/-- The location of a boundary is there. -/
theorem IsBoundary.offset_locate {offset : Nat} (boundary : IsBoundary source offset)
    (radius : Nat) : (Location.locate source offset radius).offset = offset :=
  boundary.atOffset.2

/-- Between two offsets of a text there is nothing but blanks. -/
structure OnlyBlanks (source : String) (start stop : Nat) : Prop where
  ordered : start ≤ stop
  blank : ∀ c ∈ slice source ⟨start, stop⟩, Cursor.isBlank c = true

theorem onlyBlanks_skipBlanks {cursor : Cursor} (inside : cursor.LiesIn source) :
    OnlyBlanks source cursor.offset cursor.skipBlanks.offset := by
  obtain ⟨blanks, spells, blank⟩ := Cursor.spells_skipBlanks cursor
  refine ⟨cursor.reaches_skipBlanks.offset_le, ?_⟩
  rw [slice_of_spells inside spells]
  exact blank

theorem onlyBlanks_rfl {cursor : Cursor} (inside : cursor.LiesIn source) :
    OnlyBlanks source cursor.offset cursor.offset := by
  have spells : cursor.Spells [] cursor := ⟨rfl, rfl⟩
  refine ⟨Nat.le_refl _, ?_⟩
  rw [slice_of_spells inside spells]
  exact List.forall_mem_nil _

/-! ## What operations come to -/

namespace Operation

open Scanner

variable {cursor : Cursor} {α : Type}

theorem follows_reading {scanner : Scanner (Option (α × Span))} {missed : Cursor}
    {found : Option (Lexeme α)} (content : α → Option Value)
    (follows : FollowsReader source scanner cursor missed found) :
    Follows source (do return Answer.ofFound content (← scanner)) cursor
      (reading content missed found).1 (reading content missed found).2 :=
  follows.bind (.of_pure _)

/-- An operation that goes to nothing but boundaries follows what the readers tell. -/
theorem follows_perform {operation : Operation} (allowed : operation.Allowed (IsBoundary source)) :
    Follows source (operation.perform source) cursor (operation.outcome source cursor).1
      (operation.outcome source cursor).2 := by
  cases operation with
  | number => exact follows_reading some follows_number
  | string => exact follows_string.bind (.of_pure _)
  | identifier => exact follows_reading _ follows_identifier
  | segment => exact follows_reading _ follows_segment
  | keyword word => exact follows_reading _ (follows_keyword word)
  | token tokens text => exact follows_reading _ (follows_token tokens text)
  | skipBlanks => exact follows_skipBlanks.bind (.of_pure _)
  | atEnd => exact follows_atEnd.bind (.of_pure _)
  | describe => exact follows_describe.bind (.of_pure _)
  | rest => exact Follows.rest.bind (.of_pure _)
  | reset offset =>
      obtain ⟨inside, same⟩ := IsBoundary.atOffset allowed
      have gone := @Follows.set source cursor _ inside
      rw [same] at gone
      exact gone.bind (.of_pure _)

end Operation

/-! ## How answers fit -/

/-- How an answer of an operation between two offsets of a text fits them: a lexeme ends where the
operation ends and is not empty, a fault lies in between, and otherwise there are only blanks. -/
def Answer.Fits (source : String) (offset next : Nat) : Answer → Prop
  | .found _ span =>
    offset ≤ span.start ∧ span.start < span.stop ∧ span.stop = next ∧ IsBoundary source span.start
  | .misquoted _ fault => offset ≤ fault ∧ fault ≤ next ∧ IsBoundary source fault
  | .moved gone => next = gone
  | _ => OnlyBlanks source offset next

theorem Lexeme.starts_of_identifier? {cursor : Cursor} {lexeme : Lexeme String}
    (found : identifier? cursor = some lexeme) : Starts cursor.skipBlanks lexeme := by
  obtain ⟨⟨c, rest, ahead, letter⟩, rfl⟩ := identifier?_eq_some_iff.mp found
  refine starts_ahead _ ?_ (List.takeWhile_prefix isWordChar).length_le
  rw [ahead, List.takeWhile_cons_of_pos (isWordChar_of_isAlphabetic letter)]
  exact Nat.succ_pos _

namespace Operation

open Scanner

variable {cursor : Cursor} {α : Type}

theorem fits_reading {start missed : Cursor} {found : Option (Lexeme α)} (content : α → Option Value)
    (inside : cursor.LiesIn source) (reaches : cursor.Reaches start)
    (starts : ∀ lexeme, found = some lexeme → Lexeme.Starts start lexeme)
    (blanks : OnlyBlanks source cursor.offset missed.offset) :
    (reading content missed found).1.Fits source cursor.offset
      (reading content missed found).2.offset := by
  cases found with
  | none => exact blanks
  | some lexeme =>
      obtain ⟨span, passes⟩ := starts lexeme rfl
      show Answer.Fits source cursor.offset lexeme.next.offset (.found _ lexeme.span)
      rw [span]
      exact ⟨reaches.offset_le, passes.offset_lt, rfl, (inside.reaches reaches).isBoundary⟩

theorem fits_string (inside : cursor.LiesIn source) :
    (Answer.ofString (toldOf (Lexeme.string? cursor))).Fits source cursor.offset
      (leftAt cursor.skipBlanks (Lexeme.string? cursor)).offset := by
  cases told : Lexeme.string? cursor with
  | ok found =>
      refine fits_reading (fun text => some (.string text)) inside cursor.reaches_skipBlanks ?_
        (onlyBlanks_skipBlanks inside)
      rintro lexeme rfl
      exact Lexeme.starts_of_string? told
  | error error =>
      obtain ⟨place, stop, ordered, offset, left⟩ := offsets_of_misquotation told
      have insideStart := inside.reaches cursor.reaches_skipBlanks
      have further : (cursor.skipBlanks.advance place).offset ≤ error.stop.offset := by
        rw [left, ← Nat.add_sub_cancel' ordered, ← Cursor.advance_advance]
        exact Cursor.offset_le_advance _ _
      show _ ≤ error.offset ∧ error.offset ≤ error.stop.offset ∧ IsBoundary source error.offset
      rw [offset]
      exact ⟨Nat.le_trans cursor.reaches_skipBlanks.offset_le (Cursor.offset_le_advance _ _), further,
        (insideStart.advance place).isBoundary⟩

/-- What an operation comes to on cursors fits their offsets. -/
theorem fits_outcome {operation : Operation} (allowed : operation.Allowed (IsBoundary source))
    (inside : cursor.LiesIn source) :
    (operation.outcome source cursor).1.Fits source cursor.offset
      (operation.outcome source cursor).2.offset := by
  have blanks := onlyBlanks_skipBlanks inside
  have skips := cursor.reaches_skipBlanks
  cases operation with
  | number => exact fits_reading _ inside skips (fun _ => Lexeme.starts_of_number?) blanks
  | string => exact fits_string inside
  | identifier => exact fits_reading _ inside skips (fun _ => Lexeme.starts_of_identifier?) blanks
  | segment =>
      exact fits_reading _ inside (.refl cursor) (fun _ => Lexeme.starts_of_segment?)
        (onlyBlanks_rfl inside)
  | keyword word => exact fits_reading _ inside skips (fun _ => Lexeme.starts_of_keyword?) blanks
  | token tokens text =>
      exact fits_reading _ inside skips (fun _ => Lexeme.starts_of_token? allowed) blanks
  | skipBlanks => exact blanks
  | atEnd => exact blanks
  | describe => exact blanks
  | rest => exact onlyBlanks_rfl inside
  | reset offset => exact (IsBoundary.atOffset allowed).2

end Operation

/-! ## Sessions -/

/-- Reading at an offset of a text is safe, where some offsets can be gone back to: the offset is a
boundary of the text, and each operation is done without a stop. It answers what the readers tell at
this offset, fits its answer, and leaves a boundary again. -/
structure IsSafe (source : String) (known : Nat → Prop) (offset : Nat) : Prop where
  boundary : IsBoundary source offset
  within : offset ≤ source.utf8ByteSize
  answers : ∀ operation : Operation, operation.Allowed known → ∃ answer cursor,
    operation.outcome source (Cursor.atOffset source offset) = (answer, cursor) ∧
      (operation.perform source).run offset = some (answer, cursor.offset) ∧
      IsBoundary source cursor.offset ∧ answer.Fits source offset cursor.offset

/-- Reading is safe at every boundary, as long as only boundaries are gone back to. -/
theorem IsBoundary.isSafe {known : Nat → Prop} {offset : Nat} (boundary : IsBoundary source offset)
    (boundaries : ∀ other, known other → IsBoundary source other) : IsSafe source known offset where
  boundary := boundary
  within := boundary.le
  answers operation allowed := by
    obtain ⟨inside, same⟩ := boundary.atOffset
    have wider := allowed.mono boundaries
    obtain ⟨insideNext, performed⟩ := Operation.follows_perform wider inside
    have fits := Operation.fits_outcome wider inside
    rw [same] at performed fits
    exact ⟨_, _, rfl, performed, insideNext.isBoundary, fits⟩

/-- Every offset that is returned in a session is a boundary of the text. -/
theorem Session.isBoundary {returned : List Nat} (session : Session source returned) :
    ∀ offset ∈ returned, IsBoundary source offset := by
  induction session with
  | start =>
      intro offset mem
      rw [List.mem_singleton.mp mem]
      exact (Cursor.liesIn_start source).isBoundary
  | step operation _ allowed performed ih =>
      intro offset mem
      rcases List.mem_cons.mp mem with rfl | before
      · obtain ⟨answer, cursor, _, performed', boundary, _⟩ :=
          ((ih _ List.mem_cons_self).isSafe ih).answers operation allowed
        rw [performed'] at performed
        cases performed
        exact boundary
      · exact ih offset before

/-- Reading is safe throughout a session. -/
theorem Session.isSafe {offset : Nat} {earlier : List Nat}
    (session : Session source (offset :: earlier)) :
    IsSafe source (· ∈ offset :: earlier) offset :=
  (session.isBoundary offset List.mem_cons_self).isSafe session.isBoundary

end Mixfix
