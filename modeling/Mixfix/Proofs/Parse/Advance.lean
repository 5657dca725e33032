import Mixfix.Proofs.Grammar.Checks
import Mixfix.Proofs.Parse.Atoms
import Mixfix.Proofs.Parse.References

/-!
# Matching moves on

In every grammar that was built, whatever is matched takes characters of the text ahead: a reference,
a literal, a pattern behind its left operand (`passes_of_matchExtending`), an extension of an
expression (`passes_of_firstExtension`) and an expression (`passes_of_expression`).

A walk through elements never moves back, and it moves on if one of them cannot be missing
(`Reads.moves`). Both rest on what building checks: exact texts are not empty, and behind a left
operand there is an element that cannot be missing.
-/

set_option autoImplicit false

namespace Mixfix.Parse

variable {setting : Setting} {operand : Operand} {precedence : Precedence} {cursor : Cursor}

/-! ## Literals -/

theorem passes_of_capture? {schema : Schema} {kind : LiteralKind} {capture : Capture}
    (captured : capture? schema kind cursor = .ok (some capture)) :
    cursor.skipBlanks.Passes capture.next := by
  cases kind with
  | number =>
      obtain ⟨lexeme, found, rfl⟩ := Option.map_eq_some_iff.mp (Except.ok.inj captured)
      exact (Lexeme.starts_of_number? found).2
  | string =>
      obtain ⟨found?, found, same⟩ := Descriptor.ok_of_map captured
      obtain ⟨lexeme, rfl, rfl⟩ := Option.map_eq_some_iff.mp same
      exact (starts_of_stringValue? found).2
  | identifier =>
      obtain ⟨found?, found, same⟩ := Descriptor.ok_of_map captured
      obtain ⟨⟨tree, next⟩, rfl, rfl⟩ := Option.map_eq_some_iff.mp same
      exact passes_of_reference? found
  | keyword keyword =>
      obtain ⟨lexeme, found, rfl⟩ := Option.map_eq_some_iff.mp (Except.ok.inj captured)
      exact (Lexeme.starts_of_keyword? found).2

/-! ## Elements -/

@[simp]
theorem cursor_bound (progress : Progress) (name : Option String) (binding : Binding) :
    (progress.bound name binding).cursor = progress.cursor := by
  cases name <;> rfl

/-- Every operand that is read takes characters ahead. -/
def Moving (Operand : Precedence → Cursor → Parsed → Prop) : Prop :=
  ∀ floor cursor parsed, Operand floor cursor parsed → cursor.Passes parsed.2

/-- A walk through elements never moves back, and it moves on past an element that cannot be
missing. -/
theorem Reads.moves {Operand : Precedence → Cursor → Parsed → Prop} (moving : Moving Operand)
    {elements : List (Element Descriptor)} {progress final : Progress}
    (reads : Reads setting Operand precedence elements progress final)
    (nonempty : ∀ token ∈ patternTokens elements, token ≠ "") :
    progress.cursor.Reaches final.cursor ∧
      ((∃ shape ∈ elements.map Element.shape, shape ≠ .group) →
        progress.cursor.Passes final.cursor) := by
  -- Whatever an element takes, the elements behind it do not give it back.
  have further {first middle last : Cursor} (passes : first.Passes middle)
      (reaches : middle.Reaches last) {required : Prop} :
      first.Reaches last ∧ (required → first.Passes last) :=
    ⟨passes.reaches.trans reaches, fun _ => passes.trans_reaches reaches⟩
  induction reads with
  | done progress => exact ⟨.refl _, by simp⟩
  | text found _ ih =>
      have there := (ih fun token mem => nonempty token (List.mem_cons_of_mem _ mem)).1
      have starts := Lexeme.starts_of_token? (nonempty _ List.mem_cons_self) found
      exact further ((Cursor.reaches_skipBlanks _).passes starts.2) there
  | literal captured _ ih =>
      have there := (ih nonempty).1
      rw [cursor_bound] at there
      exact further ((Cursor.reaches_skipBlanks _).passes (passes_of_capture? captured)) there
  | operand read _ _ ih =>
      have there := (ih nonempty).1
      rw [cursor_bound] at there
      exact further (moving _ _ _ read) there
  | present _ _ inside ih =>
      rw [patternTokens, elementTokens] at nonempty
      have within := (inside fun token mem => nonempty token (List.mem_append_left _ mem)).1
      have behind := ih fun token mem => nonempty token (List.mem_append_right _ mem)
      refine ⟨within.trans behind.1, ?_⟩
      rintro ⟨shape, mem, required⟩
      rcases List.mem_cons.mp mem with rfl | later
      · exact absurd rfl required
      · exact within.passes (behind.2 ⟨shape, later, required⟩)
  | absent _ ih =>
      rw [patternTokens, elementTokens] at nonempty
      have behind := ih fun token mem => nonempty token (List.mem_append_right _ mem)
      refine ⟨behind.1, ?_⟩
      rintro ⟨shape, mem, required⟩
      rcases List.mem_cons.mp mem with rfl | later
      · exact absurd rfl required
      · exact behind.2 ⟨shape, later, required⟩

/-- Every operand that is given takes characters ahead. -/
abbrev MovingOperand (operand : Operand) : Prop := Moving (Givable operand)

theorem passes_of_matchPattern (moving : MovingOperand operand) {production : Production}
    {elements : List (Element Descriptor)} {found : Match}
    (nonempty : ∀ token ∈ patternTokens elements, token ≠ "")
    (required : ∃ shape ∈ elements.map Element.shape, shape ≠ .group)
    (gives : (matchPattern setting operand production precedence elements cursor).Gives
      (some found)) : cursor.Passes found.next := by
  obtain ⟨final, reads, rfl⟩ := reads_of_matchPattern gives
  exact (reads.moves moving nonempty).2 required

/-! ## Productions -/

section Productions

variable {production : Production} {left : Tree} {found : Match}

theorem passes_of_matchOpening (moving : MovingOperand operand) (checked : production.IsChecked)
    (opening : production.precedence = .atom ∨ production.isExtending = false)
    (gives : (matchPattern setting operand production precedence production.elements
      cursor).Gives (some found)) : cursor.Passes found.next := by
  obtain ⟨element, rest, same, fixed⟩ := checked.starts.opening opening
  refine passes_of_matchPattern moving checked.nonempty ⟨element.shape, ?_, ?_⟩ gives
  · simp [same]
  · simp [fixed]

theorem passes_of_matchExtending (moving : MovingOperand operand) (checked : production.IsChecked)
    (extending : production.isExtending = true)
    (gives : (matchExtending setting operand production precedence left cursor).Gives
      (some found)) : cursor.Passes found.next := by
  obtain ⟨constraint, name, rest, same, moves⟩ := checked.starts.extending extending
  refine passes_of_matchPattern moving checked.nonempty_tail ?_ (matchExtending_gives gives).2
  rwa [same, List.tail_cons]

end Productions

/-! ## Expressions -/

section Built

variable {definitions : List Definition} {parsed extended : Parsed}
  (built : Grammar.build definitions = .ok setting.grammar) (moving : MovingOperand operand)
include built

/-- The node of an extension is of a production of the grammar that matched behind the left
operand. -/
theorem matched_of_firstExtension {floor : Precedence} {left : Tree}
    (gives : (firstExtension setting operand left (setting.grammar.extendingFrom floor)
      cursor).Gives (some extended)) :
    ∃ level production found, production ∈ setting.grammar.productions ∧
      production.isExtending = true ∧
      (matchExtending setting operand production (.level level) left cursor).Gives (some found) ∧
      (finish setting production (withLeft production left found.bindings) left.span.start
        found.next).Gives extended := by
  obtain ⟨earlier, level, production, later, found, same, _, matched, finished⟩ :=
    firstExtension_gives gives
  have mem : (level, production) ∈ setting.grammar.extendingFrom floor := by
    rw [same]
    exact List.mem_append_right _ List.mem_cons_self
  obtain ⟨known, _, extending⟩ := Grammar.mem_of_mem_extendingFrom built mem
  exact ⟨level, production, found, known, extending, matched, finished⟩

include moving

theorem passes_of_firstStart {productions : List Production}
    (known : ∀ production ∈ productions, production ∈ setting.grammar.productions ∧
      (production.precedence = .atom ∨ production.isExtending = false))
    (gives : (firstStart setting operand productions cursor).Gives (some parsed)) :
    cursor.Passes parsed.2 := by
  obtain ⟨production, mem, found, matched, finished⟩ := firstStart_gives gives
  obtain ⟨inside, opening⟩ := known production mem
  obtain ⟨rfl, _⟩ := finish_gives finished
  exact passes_of_matchOpening moving (Grammar.isChecked_of_mem built inside) opening matched

theorem passes_of_firstExtension {floor : Precedence} {left : Tree}
    (gives : (firstExtension setting operand left (setting.grammar.extendingFrom floor)
      cursor).Gives (some extended)) : cursor.Passes extended.2 := by
  obtain ⟨level, production, found, known, extending, matched, finished⟩ :=
    matched_of_firstExtension built gives
  obtain ⟨rfl, _⟩ := finish_gives finished
  exact passes_of_matchExtending moving (Grammar.isChecked_of_mem built known) extending matched

theorem passes_of_atom (gives : (atom setting operand cursor).Gives parsed) :
    cursor.Passes parsed.2 := by
  refine (Cursor.reaches_skipBlanks cursor).passes ?_
  cases atom_gives gives with
  | atom started =>
      exact passes_of_firstStart built moving
        (fun production mem => (Grammar.mem_of_mem_atoms built mem).imp_right .inl) started
  | group opened inside closed =>
      have opens := Lexeme.starts_of_token? (by decide) opened
      have closes := Lexeme.starts_of_token? (by decide) closed
      rw [Cursor.skipBlanks_skipBlanks] at opens
      exact opens.2.trans_reaches ((moving _ _ _ inside).reaches.trans
        ((Cursor.reaches_skipBlanks _).trans closes.2.reaches))
  | constant _ found =>
      have starts := starts_of_constant? found
      rw [Cursor.skipBlanks_skipBlanks] at starts
      exact starts.2
  | opener _ _ started =>
      exact passes_of_firstStart built moving
        (fun production mem => (Grammar.mem_of_mem_openers built mem).imp_right .inr) started
  | reference _ _ _ found =>
      have passes := passes_of_reference? found
      rwa [Cursor.skipBlanks_skipBlanks] at passes

end Built

/-- An expression takes characters ahead. -/
theorem passes_of_expression {definitions : List Definition}
    (built : Grammar.build definitions = .ok setting.grammar) (depth : Nat) :
    MovingOperand (expression setting depth) := by
  refine expression_induction (fun cursor parsed => cursor.Passes parsed.2) ?_ ?_ depth
  · intro depth moving cursor parsed started
    exact passes_of_atom built moving started
  · intro depth moving floor cursor parsed extended behind extension
    exact behind.trans_reaches (passes_of_firstExtension built moving extension).reaches

end Mixfix.Parse
