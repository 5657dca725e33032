import Mixfix.Proofs.Parse.Spans
import Mixfix.Proofs.Text.Sessions
import Mixfix.Standard

/-!
# Where parses fail

Every failure of a parse is at a boundary of a character of the source text. A failure is placed at a
cursor, at the start of a lexeme or a tree that was read, at a fault in a string, or one byte behind
the start of a segment, which is behind its point; and the failures that are kept to be reported in
place of others are placed in the same ways.

So the steps of a parse keep a discipline (`Keeps`): if the failure that the trail keeps is in the
source text, the one kept afterwards is, and so is what the step comes to. This needs nothing of the
grammar. It holds for every list of productions, for every schema and every limit
(`lands_expression`), and with it for the failures of parses of whole texts and of their starts.
-/

set_option autoImplicit false

namespace Mixfix

/-- A failure is at a boundary of a source text. -/
def Failure.LiesIn (source : String) (failure : Failure) : Prop := IsBoundary source failure.offset

/-- The failure that a trail keeps is in a source text. -/
def Trail.LiesIn (source : String) (trail : Trail) : Prop :=
  ∀ failure, trail.furthest = some failure → failure.LiesIn source

variable {source : String}

namespace Trail

variable {trail : Trail} {failure : Failure}

theorem LiesIn.record (inside : trail.LiesIn source) (lies : failure.LiesIn source) :
    (trail.record failure).LiesIn source := by
  unfold Trail.record
  split
  · rintro other ⟨⟩
    exact lies
  · split
    · rintro other ⟨⟩
      exact lies
    · exact inside

theorem LiesIn.choose (inside : trail.LiesIn source) (lies : failure.LiesIn source) :
    (trail.choose failure).LiesIn source := by
  unfold Trail.choose
  split
  · exact lies
  · split
    · exact lies
    · next best kept =>
        split
        · exact inside best kept
        · exact lies

end Trail

namespace Parse

variable {α β : Type}

/-! ## Actions that keep to the text -/

/-- An action keeps the trail in the source text, and comes to a result as described. -/
def Keeps (source : String) (After : α → Prop) (action : StateM Trail α) : Prop :=
  ∀ before, before.LiesIn source →
    (action.run before).2.LiesIn source ∧ After (action.run before).1

namespace Keeps

variable {After : α → Prop} {Last : β → Prop}

theorem of_pure {a : α} (after : After a) : Keeps source After (pure a) :=
  fun _ inside => ⟨inside, after⟩

theorem bind {first : StateM Trail α} {next : α → StateM Trail β} (start : Keeps source After first)
    (further : ∀ a, After a → Keeps source Last (next a)) : Keeps source Last (first >>= next) := by
  intro before inside
  obtain ⟨inside', after⟩ := start before inside
  exact further _ after _ inside'

theorem see (failure : Failure) :
    Keeps source (fun _ => True) (modify (Trail.see failure) : StateM Trail Unit) :=
  fun _ inside => ⟨inside, trivial⟩

theorem record {failure : Failure} (lies : failure.LiesIn source) :
    Keeps source (fun _ => True) (modify (Trail.record failure) : StateM Trail Unit) :=
  fun _ inside => ⟨inside.record lies, trivial⟩

end Keeps

/-- A step comes to a result as described, or to a failure in the source text. -/
def Lands (source : String) (After : α → Prop) : Except Failure α → Prop
  | .ok a => After a
  | .error failure => failure.LiesIn source

/-- A step keeps the trail in the source text, and lands. -/
abbrev KeepsStep (source : String) (After : α → Prop) (step : Step α) : Prop :=
  Keeps source (Lands source After) step.run

namespace KeepsStep

variable {After : α → Prop} {Last : β → Prop} {failure : Failure}

theorem of_pure {a : α} (after : After a) : KeepsStep source After (pure a : Step α) :=
  Keeps.of_pure (a := Except.ok a) after

theorem bind {first : Step α} {next : α → Step β} (start : KeepsStep source After first)
    (further : ∀ a, After a → KeepsStep source Last (next a)) :
    KeepsStep source Last (first >>= next) := by
  show Keeps _ _ (first.run >>= ExceptT.bindCont next)
  refine Keeps.bind start ?_
  rintro (failure | a) landed
  · exact .of_pure landed
  · exact further a landed

/-- A step that goes on from the result of an action. -/
theorem lift {action : StateM Trail α} {next : α → Step β} (start : Keeps source After action)
    (further : ∀ a, After a → KeepsStep source Last (next a)) :
    KeepsStep source Last (ExceptT.lift action >>= next) := by
  show Keeps _ _ (action >>= fun a => (next a).run)
  exact Keeps.bind start further

theorem raise (lies : failure.LiesIn source) : KeepsStep source After (Step.raise failure) :=
  fun _ inside => ⟨inside, lies⟩

theorem settle (lies : failure.LiesIn source) : KeepsStep source After (Step.settle failure) :=
  fun _ inside => ⟨inside, inside.choose lies⟩

theorem raiseSettled (lies : failure.LiesIn source) :
    KeepsStep source After (Step.raiseSettled failure) :=
  fun _ inside => ⟨inside, Trail.LiesIn.choose inside lies⟩

theorem note (lies : failure.LiesIn source) : KeepsStep source (fun _ => True) (Step.note failure) :=
  fun _ inside => ⟨Trail.LiesIn.record inside lies, trivial⟩

theorem abandon (lies : failure.LiesIn source) :
    KeepsStep source (fun _ => True) (Step.abandon failure) :=
  fun _ inside => ⟨inside.record lies, trivial⟩

end KeepsStep

/-! ## Leaves -/

section Leaves

variable {schema : Schema} {cursor : Cursor} {failure : Failure}

/-- A lexeme that starts at a cursor in the source text starts and ends in it. -/
theorem liesIn_of_starts {lexeme : Lexeme α} (inside : cursor.LiesIn source)
    (starts : Lexeme.Starts cursor.skipBlanks lexeme) :
    IsBoundary source lexeme.span.start ∧ lexeme.next.LiesIn source := by
  have insideStart := inside.reaches cursor.reaches_skipBlanks
  rw [starts.1]
  exact ⟨insideStart.isBoundary, insideStart.reaches starts.2.reaches⟩

/-- So does an exact text, also an empty one. -/
theorem liesIn_of_token? {tokens : List String} {token : String} {lexeme : Lexeme String}
    (inside : cursor.LiesIn source) (found : Lexeme.token? tokens token cursor = some lexeme) :
    IsBoundary source lexeme.span.start ∧ lexeme.next.LiesIn source := by
  have insideStart := inside.reaches cursor.reaches_skipBlanks
  obtain ⟨_, _, rfl⟩ := Lexeme.token?_eq_some_iff.mp found
  exact ⟨insideStart.isBoundary, insideStart.advance _⟩

theorem liesIn_of_stringValue? (inside : cursor.LiesIn source)
    (read : stringValue? cursor = .error failure) : failure.LiesIn source := by
  unfold stringValue? at read
  split at read
  · cases read
  · cases read
  · next error misquoted =>
      cases read
      obtain ⟨place, stop, _, offset, _⟩ := Scanner.offsets_of_misquotation misquoted
      show IsBoundary source error.offset
      rw [offset]
      exact ((inside.reaches cursor.reaches_skipBlanks).advance place).isBoundary

/-- The failure of a segment is behind its point. -/
theorem isBoundary_segment {segment : Lexeme String} (inside : cursor.LiesIn source)
    (found : Lexeme.segment? cursor = some segment) : IsBoundary source (segment.span.start + 1) := by
  obtain ⟨c, rest, ahead, _, _⟩ := Lexeme.segment?_eq_some_iff.mp found
  have span := (Lexeme.starts_of_segment? found).1
  have point : (cursor.advance 1).offset = segment.span.start + 1 := by
    rw [span, Cursor.advance, ahead]
    rfl
  rw [← point]
  exact (inside.advance 1).isBoundary

theorem liesIn_of_reference? (inside : cursor.LiesIn source)
    (read : reference? schema cursor = .error failure) : failure.LiesIn source := by
  obtain ⟨name, found, rfl | ⟨stop, segment, path, reaches, there, rfl⟩⟩ := reference?_error read
  · exact (liesIn_of_starts inside (Lexeme.starts_of_identifier? found)).1
  · have next := (liesIn_of_starts inside (Lexeme.starts_of_identifier? found)).2
    exact isBoundary_segment (next.reaches reaches) there

theorem liesIn_of_capture? {kind : LiteralKind} (inside : cursor.LiesIn source)
    (read : capture? schema kind cursor = .error failure) : failure.LiesIn source := by
  rcases capture?_error read with string | reference
  · exact liesIn_of_stringValue? inside string
  · exact liesIn_of_reference? inside reference

end Leaves

/-! ## Elements -/

/-- What was matched so far starts and ends in the source text. -/
structure Progress.LiesIn (source : String) (progress : Progress) : Prop where
  cursor : progress.cursor.LiesIn source
  start : ∀ start, progress.start = some start → IsBoundary source start

/-- What matching elements comes to is in the source text. -/
def Outcome.LiesIn (source : String) : Outcome → Prop
  | .matched progress => progress.LiesIn source
  | .unmatched => True
  | .failed failure _ => failure.LiesIn source

/-- An expression starts at a boundary of the source text, and the cursor behind it is in the text. -/
def Parsed.LiesIn (source : String) (parsed : Parsed) : Prop :=
  IsBoundary source parsed.1.span.start ∧ parsed.2.LiesIn source

namespace Progress

variable {progress : Progress} {cursor : Cursor}

theorem LiesIn.begin (inside : cursor.LiesIn source) : (Progress.begin cursor).LiesIn source where
  cursor := inside
  start := nofun

theorem LiesIn.moved (lies : progress.LiesIn source) {start : Nat}
    (boundary : IsBoundary source start) (inside : cursor.LiesIn source) :
    (progress.moved start cursor).LiesIn source where
  cursor := inside
  start := by
    rintro _ ⟨⟩
    cases started : progress.start with
    | none => exact boundary
    | some earlier => exact lies.start earlier started

theorem LiesIn.bound (lies : progress.LiesIn source) (name : Option String) (binding : Binding) :
    (progress.bound name binding).LiesIn source := by
  cases name with
  | none => exact lies
  | some name => exact ⟨lies.cursor, lies.start⟩

theorem LiesIn.joined {group : Progress} (lies : progress.LiesIn source)
    (liesGroup : group.LiesIn source) : (progress.joined group).LiesIn source where
  cursor := liesGroup.cursor
  start := by
    intro start started
    cases earlier : progress.start with
    | none => exact liesGroup.start start (by simpa [Progress.joined, earlier] using started)
    | some first =>
        have same : first = start := by simpa [Progress.joined, earlier] using started
        exact same ▸ lies.start first earlier

end Progress

section Elements

variable {setting : Setting} {operand : Operand} {node : String} {precedence : Precedence}

/-- Operands in the source text are read in it. -/
abbrev KeepOperands (source : String) (operand : Operand) : Prop :=
  ∀ floor cursor, cursor.LiesIn source →
    KeepsStep source (Parsed.LiesIn source) (operand floor cursor)

theorem keeps_fails {failure : Failure} (lies : failure.LiesIn source) (committed : Bool) :
    Keeps source (Outcome.LiesIn source) (fails failure committed) :=
  (Keeps.see failure).bind fun _ _ => .of_pure lies

theorem keeps_matchLiteral (kind : LiteralKind) (name : Option String) {progress : Progress}
    (lies : progress.LiesIn source) :
    Keeps source (Outcome.LiesIn source) (matchLiteral setting kind name progress) := by
  unfold matchLiteral
  split
  · next failed => exact keeps_fails (liesIn_of_capture? lies.cursor failed) _
  · exact .of_pure trivial
  · next capture captured =>
      have insideStart := lies.cursor.reaches progress.cursor.reaches_skipBlanks
      have passes := passes_of_capture? captured
      have start : IsBoundary source capture.start := by
        rw [(start_of_capture? lies.cursor captured).1]
        exact insideStart.isBoundary
      exact .of_pure ((lies.moved start (insideStart.reaches passes.reaches)).bound name _)

theorem keeps_matchOperand (operands : KeepOperands source operand) (floor : Precedence)
    (constraint : Option Descriptor) (name : Option String) {progress : Progress}
    (lies : progress.LiesIn source) :
    Keeps source (Outcome.LiesIn source)
      (matchOperand operand node floor constraint name progress) := by
  refine Keeps.bind (operands floor progress.cursor lies.cursor) ?_
  rintro (failure | ⟨tree, next⟩) landed
  · exact .of_pure landed
  · have matched := (lies.moved landed.1 landed.2).bound name (.tree tree)
    cases constraint with
    | none => exact .of_pure matched
    | some type =>
        dsimp only
        split
        · exact .of_pure matched
        · refine keeps_fails ?_ _
          exact landed.1

mutual
theorem keeps_matchElement (operands : KeepOperands source operand) :
    ∀ (element : Element Descriptor) (progress : Progress), progress.LiesIn source →
      Keeps source (Outcome.LiesIn source)
        (matchElement setting operand node precedence element progress)
  | .text token, progress, lies => by
      rw [matchElement]
      split
      · next lexeme found =>
          obtain ⟨start, next⟩ := liesIn_of_token? lies.cursor found
          have moved := lies.moved start next
          exact .of_pure ⟨moved.cursor, moved.start⟩
      · exact .of_pure trivial
  | .literal kind name, progress, lies => by
      rw [matchElement]
      exact keeps_matchLiteral kind name lies
  | .operand role constraint name, progress, lies => by
      rw [matchElement]
      exact keeps_matchOperand operands _ constraint name lies
  | .optional group, progress, lies => by
      rw [matchElement]
      refine Keeps.bind (keeps_matchElements operands group _ (.begin lies.cursor)) ?_
      rintro (inner | _ | ⟨failure, committed⟩) landed
      · exact .of_pure (lies.joined landed)
      · exact .of_pure lies
      · dsimp only
        split
        · exact .of_pure landed
        · exact (Keeps.record landed).bind fun _ _ => .of_pure lies
theorem keeps_matchElements (operands : KeepOperands source operand) :
    ∀ (elements : List (Element Descriptor)) (progress : Progress), progress.LiesIn source →
      Keeps source (Outcome.LiesIn source)
        (matchElements setting operand node precedence elements progress)
  | [], progress, lies => by
      rw [matchElements]
      exact .of_pure lies
  | element :: elements, progress, lies => by
      rw [matchElements]
      refine Keeps.bind (keeps_matchElement operands element progress lies) ?_
      rintro (progress | _ | ⟨failure, committed⟩) landed
      · exact keeps_matchElements operands elements progress landed
      · dsimp only
        split
        · refine keeps_fails ?_ _
          exact (lies.cursor.reaches progress.cursor.reaches_skipBlanks).isBoundary
        · exact .of_pure trivial
      · exact .of_pure landed
end

end Elements

/-! ## Candidates -/

section Candidates

variable {setting : Setting} {operand : Operand} {cursor : Cursor}

/-- A match starts at a boundary of the source text, and the cursor behind it is in the text. -/
def Match.LiesIn (source : String) (found : Match) : Prop :=
  IsBoundary source found.start ∧ found.next.LiesIn source

/-- What is there, if anything is, is in the source text. -/
def IfAny (Inside : α → Prop) (found : Option α) : Prop := ∀ a, found = some a → Inside a

theorem ifAny_none (Inside : α → Prop) : IfAny Inside none := nofun

theorem ifAny_some {Inside : α → Prop} {a : α} (inside : Inside a) : IfAny Inside (some a) := by
  rintro _ ⟨⟩
  exact inside

theorem keeps_noteLeft (production : Production) {left : Tree} (type : Descriptor)
    (cursor : Cursor) (start : IsBoundary source left.span.start) :
    KeepsStep source (fun _ => True) (noteLeft setting production left type cursor) := by
  unfold noteLeft
  split
  · split
    · exact .note start
    · exact .of_pure trivial
  · exact .of_pure trivial

theorem keeps_finish (production : Production) (bindings : Bindings) {start : Nat} {next : Cursor}
    (boundary : IsBoundary source start) (inside : next.LiesIn source) :
    KeepsStep source (Parsed.LiesIn source) (finish setting production bindings start next) := by
  unfold finish
  dsimp only
  split
  · exact .raise boundary
  · exact .of_pure ⟨boundary, inside⟩

variable (operands : KeepOperands source operand) (inside : cursor.LiesIn source)
include operands inside

theorem keeps_matchPattern (production : Production) (precedence : Precedence)
    (elements : List (Element Descriptor)) :
    KeepsStep source (IfAny (Match.LiesIn source))
      (matchPattern setting operand production precedence elements cursor) := by
  refine KeepsStep.lift (keeps_matchElements operands elements _ (.begin inside)) ?_
  rintro (progress | _ | ⟨failure, committed⟩) landed
  · refine .of_pure (ifAny_some ⟨?_, landed.cursor⟩)
    cases started : progress.start with
    | none => exact inside.isBoundary
    | some start => exact landed.start start started
  · exact .of_pure (ifAny_none _)
  · dsimp only
    split
    · exact .settle landed
    · exact (KeepsStep.abandon landed).bind fun _ _ => .of_pure (ifAny_none _)

theorem keeps_firstStart (productions : List Production) :
    KeepsStep source (IfAny (Parsed.LiesIn source))
      (firstStart setting operand productions cursor) := by
  induction productions with
  | nil => exact .of_pure (ifAny_none _)
  | cons production productions ih =>
      rw [firstStart]
      refine (keeps_matchPattern operands inside production _ _).bind fun found landed => ?_
      cases found with
      | none => exact ih
      | some found =>
          obtain ⟨start, next⟩ := landed found rfl
          exact (keeps_finish production _ start next).bind fun _ done => .of_pure (ifAny_some done)

theorem keeps_matchExtending (production : Production) (precedence : Precedence) {left : Tree}
    (start : IsBoundary source left.span.start) :
    KeepsStep source (IfAny (Match.LiesIn source))
      (matchExtending setting operand production precedence left cursor) := by
  unfold matchExtending
  split
  · split
    · exact keeps_matchPattern operands inside production _ _
    · exact (keeps_noteLeft production _ cursor start).bind fun _ _ => .of_pure (ifAny_none _)
  · exact keeps_matchPattern operands inside production _ _

theorem keeps_firstExtension (candidates : List (UInt32 × Production)) {left : Tree}
    (start : IsBoundary source left.span.start) :
    KeepsStep source (IfAny (Parsed.LiesIn source))
      (firstExtension setting operand left candidates cursor) := by
  induction candidates with
  | nil => exact .of_pure (ifAny_none _)
  | cons candidate candidates ih =>
      rw [firstExtension]
      refine (keeps_matchExtending operands inside candidate.2 _ start).bind fun found landed => ?_
      cases found with
      | none => exact ih
      | some found =>
          obtain ⟨_, next⟩ := landed found rfl
          exact (keeps_finish candidate.2 _ start next).bind fun _ done =>
            .of_pure (ifAny_some done)

omit inside in
theorem keeps_extend (candidates : List (UInt32 × Production)) (steps : Nat) {parsed : Parsed}
    (lies : parsed.LiesIn source) :
    KeepsStep source (Parsed.LiesIn source) (extend setting operand candidates steps parsed) := by
  induction steps generalizing parsed with
  | zero => exact .of_pure lies
  | succ steps ih =>
      obtain ⟨left, cursor⟩ := parsed
      rw [extend]
      refine (keeps_firstExtension operands lies.2 candidates lies.1).bind fun found landed => ?_
      cases found with
      | none => exact .of_pure lies
      | some extended => exact ih (landed extended rfl)

omit inside in
theorem keeps_parenthesized {opening : Lexeme String} (start : IsBoundary source opening.span.start)
    (next : opening.next.LiesIn source) :
    KeepsStep source (Parsed.LiesIn source) (parenthesized setting operand opening) := by
  refine (operands _ _ next).bind fun ⟨tree, cursor⟩ landed => ?_
  dsimp only
  split
  · next closing found =>
      refine .of_pure ⟨?_, (liesIn_of_token? landed.2 found).2⟩
      rw [Tree.span, Tree.extent_widen]
      exact start
  · exact .raiseSettled start

theorem keeps_openerOrReference :
    KeepsStep source (Parsed.LiesIn source) (openerOrReference setting operand cursor) := by
  refine (keeps_firstStart operands inside setting.grammar.openers).bind fun found landed => ?_
  cases found with
  | some parsed => exact .of_pure (landed parsed rfl)
  | none =>
      dsimp only
      split
      · next parsed read =>
          have placed := placed_of_reference? inside read
          have insideStart := inside.reaches cursor.reaches_skipBlanks
          refine .of_pure ⟨?_, insideStart.reaches placed.passes.reaches⟩
          rw [placed.span]
          exact insideStart.isBoundary
      · exact .raiseSettled inside.isBoundary
      · next failed => exact .raiseSettled (liesIn_of_reference? inside failed)

theorem keeps_literalOrLater :
    KeepsStep source (Parsed.LiesIn source) (literalOrLater setting operand cursor) := by
  unfold literalOrLater
  split
  · next found => exact .of_pure (liesIn_of_starts inside (Lexeme.starts_of_number? found))
  · split
    · next failed => exact .raise (liesIn_of_stringValue? inside failed)
    · next found => exact .of_pure (liesIn_of_starts inside (starts_of_stringValue? found))
    · split
      · next found => exact .of_pure (liesIn_of_starts inside (starts_of_keywordValue? found))
      · exact keeps_openerOrReference operands inside

theorem keeps_atom : KeepsStep source (Parsed.LiesIn source) (atom setting operand cursor) := by
  have insideStart := inside.reaches cursor.reaches_skipBlanks
  refine (keeps_firstStart operands insideStart setting.grammar.atoms).bind fun found landed => ?_
  cases found with
  | some parsed => exact .of_pure (landed parsed rfl)
  | none =>
      dsimp only
      split
      · next opening found =>
          obtain ⟨start, next⟩ := liesIn_of_token? insideStart found
          exact keeps_parenthesized operands start next
      · exact keeps_literalOrLater operands insideStart

end Candidates

/-! ## Expressions and whole texts -/

theorem keeps_expression (setting : Setting) (depth : Nat) :
    KeepOperands source (expression setting depth) := by
  induction depth with
  | zero =>
      intro floor cursor inside
      exact .raise (inside.reaches cursor.reaches_skipBlanks).isBoundary
  | succ depth ih =>
      intro floor cursor inside
      exact (keeps_atom ih inside).bind fun parsed lies => keeps_extend ih _ _ lies

variable {setting : Setting} {failure : Failure}

/-- A parse of a text comes to an expression or a failure in it, and keeps a failure in it. -/
theorem lands_run (setting : Setting) (source : String) :
    (run setting source).2.LiesIn source ∧
      Lands source (Parsed.LiesIn source) (run setting source).1 :=
  keeps_expression setting setting.limit .loosest (.start source) (Cursor.liesIn_start source)
    .empty nofun

theorem liesIn_of_atStart (failed : atStart setting source = .error failure) :
    failure.LiesIn source := by
  have landed := (lands_run setting source).2
  unfold atStart at failed
  split at failed
  · cases failed
  · next ran =>
      cases failed
      rw [ran] at landed
      exact landed

theorem liesIn_trailingFailure {tree : Tree} {cursor : Cursor} {trail : Trail}
    (inside : cursor.LiesIn source) (kept : trail.LiesIn source) :
    (trailingFailure tree cursor trail).LiesIn source := by
  unfold trailingFailure
  dsimp only
  split
  · exact inside.isBoundary
  · next best recorded =>
      split
      · exact kept best recorded
      · exact inside.isBoundary

theorem liesIn_of_whole (failed : whole setting source = .error failure) :
    failure.LiesIn source := by
  obtain ⟨kept, landed⟩ := lands_run setting source
  unfold whole at failed
  split at failed
  · next ran =>
      cases failed
      rw [ran] at landed
      exact landed
  · next tree cursor trail ran =>
      rw [ran] at kept landed
      dsimp only at failed
      split at failed
      · cases failed
      · cases failed
        exact liesIn_trailingFailure (landed.2.reaches cursor.reaches_skipBlanks) kept

/-- **Offsets are always valid.** At every point of every session of reading a text the offset is a
boundary of the text, and every further operation has an answer that fits it. And whenever a parse of
the text fails, whatever the grammar, the schema and the limit, the failure is at a boundary that
does not lie behind the end, so it is located exactly there. -/
theorem offsets_valid (source : String) :
    (∀ offset earlier, Session source (offset :: earlier) →
      IsSafe source (· ∈ offset :: earlier) offset) ∧
    ∀ setting failure,
      atStart setting source = .error failure ∨ whole setting source = .error failure →
      IsBoundary source failure.offset ∧ failure.offset ≤ source.utf8ByteSize ∧
        ∀ radius, (Location.locate source failure.offset radius).offset = failure.offset := by
  refine ⟨fun offset earlier session => session.isSafe, fun setting failure failed => ?_⟩
  have lies : IsBoundary source failure.offset := failed.elim liesIn_of_atStart liesIn_of_whole
  exact ⟨lies, lies.le, lies.offset_locate⟩

/-- A sum with a path whose name takes two bytes: the offset behind the name can be gone back to, and
that the schema has no such field fails behind the point. -/
theorem offsets_valid_accented :
    IsSafe "1 + é.b" (· ∈ [6, 8, 6, 3, 1, 0]) 6 ∧
      ∃ grammar failure, Standard.grammar = .ok grammar ∧
        whole ⟨grammar, [("é", .nested [("a", .type .unknown)])], 8⟩ "1 + é.b" = .error failure ∧
        failure.offset = 7 ∧ IsBoundary "1 + é.b" 7 ∧
        ∀ radius, (Location.locate "1 + é.b" failure.offset radius).offset = 7 := by
  have number : Session "1 + é.b" [1, 0] := .step .number .start trivial (by decide +kernel)
  have mark : Session "1 + é.b" [3, 1, 0] :=
    .step (.token ["+"] "+") number (by decide : "+" ≠ "") (by decide +kernel)
  have name : Session "1 + é.b" [6, 3, 1, 0] := .step .identifier mark trivial (by decide +kernel)
  have path : Session "1 + é.b" [8, 6, 3, 1, 0] := .step .segment name trivial (by decide +kernel)
  have back : Session "1 + é.b" [6, 8, 6, 3, 1, 0] :=
    .step (.reset 6) path (by decide : 6 ∈ [8, 6, 3, 1, 0]) (by decide +kernel)
  have fails : (Standard.grammar.toOption.any fun grammar =>
      (tryCatch ((whole ⟨grammar, [("é", .nested [("a", .type .unknown)])], 8⟩ "1 + é.b").map
        fun _ => 0) fun failure => .ok failure.offset).toOption.any (· == 7)) = true := by
    decide +kernel
  obtain ⟨grammar, built, fails⟩ := exists_ok_of_any fails
  cases failed : whole ⟨grammar, [("é", .nested [("a", .type .unknown)])], 8⟩ "1 + é.b" with
  | ok tree =>
      rw [failed] at fails
      cases fails
  | error failure =>
      rw [failed] at fails
      have offset : failure.offset = 7 := of_decide_eq_true fails
      obtain ⟨boundary, _, located⟩ := (offsets_valid "1 + é.b").2 _ failure (.inr failed)
      rw [offset] at boundary
      exact ⟨(offsets_valid "1 + é.b").1 6 _ back, grammar, failure, built, failed, offset, boundary,
        fun radius => (located radius).trans offset⟩

end Parse

end Mixfix
