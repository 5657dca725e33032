import Mixfix.Proofs.Standard.Printing
import Mixfix.Proofs.Standard.Reading

/-!
# Written trees are read back

The text of an expressible tree is read as a tree of the same shape (`whole_rendered`). A tree that
is written out among other tokens is written in the sense of `Written` provided that what follows is
quiet: no operator ahead that is tight enough to be taken by one of the operands at its right edge.
The parentheses that the table of levels asks for are exactly what keeps this condition from a node
to its operands (`Renders.enclosed`).
-/

set_option autoImplicit false

namespace Mixfix.Standard

open Parse Lexeme
open Cursor (isBlank)

/-! ## Texts of tokens -/

/-- What follows a token: the tokens behind it, each with a space before it, and what follows
them. -/
def follow (tokens : List (List Char)) (behind : List Char) : List Char :=
  match tokens with
  | [] => behind
  | _ => ' ' :: (spaced tokens ++ behind)

theorem spaced_cons (token : List Char) (tokens : List (List Char)) (behind : List Char) :
    spaced (token :: tokens) ++ behind = token ++ follow tokens behind := by
  cases tokens with
  | nil => simp [spaced, follow]
  | cons other tokens => simp [spaced, follow, List.intercalate_cons_cons]

theorem spaced_append_follow {tokens : List (List Char)} (nonempty : tokens ≠ [])
    (more : List (List Char)) (behind : List Char) :
    spaced (tokens ++ more) ++ behind = spaced tokens ++ follow more behind := by
  cases more with
  | nil => simp [follow]
  | cons token more => simp [spaced_append nonempty, follow]

theorem isBlank_follow (tokens : List (List Char)) {behind : List Char}
    (blank : behind.head?.all isBlank = true) : (follow tokens behind).head?.all isBlank = true := by
  cases tokens with
  | nil => exact blank
  | cons token tokens => rfl

/-- A text starts with something else than a blank. -/
def Begins (text : List Char) : Prop := ∃ c rest, text = c :: rest ∧ isBlank c = false

theorem Begins.append {text : List Char} (begins : Begins text) (behind : List Char) :
    Begins (text ++ behind) := by
  obtain ⟨c, rest, rfl, solid⟩ := begins
  exact ⟨c, rest ++ behind, rfl, solid⟩

theorem begins_of_mem {token : String} (registered : token ∈ table.tokens) : Begins token.toList := by
  have nonempty : ∀ token ∈ table.tokens, token.toList ≠ [] := by
    rw [tokens_table]
    decide
  obtain ⟨c, rest, same⟩ := List.exists_cons_of_ne_nil (nonempty token registered)
  exact ⟨c, rest, same, solid_tokens token registered c (by simp [same])⟩

/-- Behind a space the text goes on. -/
theorem rest_skipBlanks_of_space {cursor : Cursor} {text : List Char} (begins : Begins text)
    (space : cursor.rest = ' ' :: text) : cursor.skipBlanks.rest = text := by
  obtain ⟨c, rest, rfl, solid⟩ := begins
  rw [Cursor.skipBlanks, Cursor.rest_skipWhile, space]
  have blank : isBlank ' ' = true := by decide
  simp [blank, solid]

theorem rest_advance_of_append {cursor : Cursor} {text behind : List Char}
    (same : cursor.rest = text ++ behind) : (cursor.advance text.length).rest = behind := by
  simp [Cursor.advance, same]

/-! ## Quiet texts -/

/-- No operator from a level on stands ahead. -/
def Quiet (bound : Nat) (behind : List Char) : Prop :=
  ∀ cursor : Cursor, cursor.rest = behind → ∀ c ∈ candidates, bound ≤ c.1.toNat →
    ahead table c.2 cursor = false

theorem Quiet.mono {bound other : Nat} {behind : List Char} (quiet : Quiet bound behind)
    (le : bound ≤ other) : Quiet other behind :=
  fun cursor same c mem within => quiet cursor same c mem (Nat.le_trans le within)

/-- The end of a text is quiet. -/
theorem quiet_nil (bound : Nat) : Quiet bound [] := by
  intro cursor same c mem _
  obtain ⟨token, registered, stands, -⟩ := exists_token mem
  obtain ⟨first, rest, letters, -⟩ := begins_of_mem registered
  rw [stands, token?_eq_none_of_head]
  · rfl
  · rintro rfl
    cases letters
  · rw [Cursor.skipBlanks, Cursor.rest_skipWhile, same, letters]
    simp

/-- A registered text ahead is quiet from the level of its operators on. -/
theorem quiet_token {bound : Nat} {token : String} {behind : List Char}
    (registered : token ∈ table.tokens) (blank : behind.head?.all isBlank = true)
    (below : ∀ op ∈ infixes, op.token = token → op.level.toNat < bound)
    (choiceBelow : token = "?" → 1 < bound) : Quiet bound (' ' :: (token.toList ++ behind)) := by
  intro cursor same c mem within
  obtain ⟨other, registered', stands, shape⟩ := exists_token mem
  have here := token?_spaced solid_tokens (rest_skipBlanks_of_space
    ((begins_of_mem registered).append behind) same) blank
  rw [stands, Bool.eq_false_iff]
  intro found
  have equal := token?_unique registered' registered found (Option.isSome_of_eq_some here)
  subst equal
  rcases shape with ⟨rfl, rfl⟩ | ⟨op, known, led, rfl⟩
  · exact absurd (choiceBelow rfl) (Nat.not_lt.mpr within)
  · exact absurd (below op known led) (Nat.not_lt.mpr within)

/-- Before what is quiet no operator is taken. -/
theorem stops_of_quiet {bound : Nat} {floor : Precedence} {tree : Tree} {cursor : Cursor}
    (quiet : Quiet bound cursor.rest) (le : bound ≤ floor.rank) : Stops floor tree cursor := by
  intro c mem tight _
  refine quiet cursor rfl c mem (Nat.le_trans le ?_)
  exact of_decide_eq_true tight

/-! ## The operator that is written -/

theorem Infix.pairwise_token : infixes.Pairwise fun op other =>
    op.token = other.token → op.demand = .number ∧ other.token = "+" ∧ other.name ≠ "add" := by
  decide

/-- The operator whose token is written extends the expression before it. -/
theorem Infix.extender?_eq {op : Infix} (known : op ∈ infixes) {left : Tree} {cursor : Cursor}
    {lexeme : Lexeme String} (led : token? table.tokens op.token cursor = some lexeme)
    (accepted : ∀ type ∈ op.demand.type?, type.accepts left.type = true)
    (plus : op.token = "+" → (op.name = "add" ↔ Descriptor.number.accepts left.type = true)) :
    extender? left cursor = some op.candidate := by
  obtain ⟨earlier, later, same⟩ := List.append_of_mem known
  have here : ahead table op.production cursor = true := by
    rw [op.ahead_production, led]
    rfl
  have taken : takes op.production left = true := by
    cases demand : op.demand with
    | anything => simp [takes, leftConstraint, Infix.production, demand, Demand.type?]
    | _ => simpa [takes, leftConstraint, Infix.production, demand, Demand.type?] using accepted
  have all : candidates = ((1, choice) :: earlier.map Infix.candidate) ++
      op.candidate :: later.map Infix.candidate := by
    rw [candidates, same]
    simp
  rw [extender?, all, List.find?_eq_some_iff_append]
  refine ⟨fits_iff.mpr ⟨taken, here⟩, _, _, rfl, fun other mem => ?_⟩
  rw [Bool.not_eq_true']
  have found := Option.isSome_of_eq_some led
  rcases List.mem_cons.mp mem with rfl | mem
  · have differs : ahead table choice cursor = false := by
      rw [ahead_choice, Bool.eq_false_iff]
      exact fun stands => op.token_ne_choice known
        (token?_unique (op.token_mem known) choice_mem.1 found stands)
    simp [fits, differs]
  · obtain ⟨op', before, rfl⟩ := List.mem_map.mp mem
    have known' : op' ∈ infixes := by
      rw [same]
      exact List.mem_append_left _ before
    by_cases equal : op'.token = op.token
    · -- the one token of two operators is that of sums and joined texts
      have pair := Infix.pairwise_token
      rw [same] at pair
      obtain ⟨demand, isPlus, notAdd⟩ :=
        (List.pairwise_append.mp pair).2.2 op' before op List.mem_cons_self equal
      have refused : Descriptor.number.accepts left.type = false := by
        rw [Bool.eq_false_iff]
        exact fun accepts => notAdd ((plus isPlus).mpr accepts)
      simp [fits, Infix.candidate, takes, leftConstraint, Infix.production, demand, Demand.type?,
        refused]
    · have differs : ahead table op'.production cursor = false := by
        rw [op'.ahead_production, Bool.eq_false_iff]
        exact fun stands => equal
          (token?_unique (op'.token_mem known') (op.token_mem known) stands found)
      simp [fits, Infix.candidate, differs]

/-- A choice whose mark is written extends the condition before it. -/
theorem extender?_choice {condition : Tree} {cursor : Cursor} {lexeme : Lexeme String}
    (led : token? table.tokens "?" cursor = some lexeme)
    (accepted : Descriptor.boolean.accepts condition.type = true) :
    extender? condition cursor = some (1, choice) := by
  have here : fits condition cursor (1, choice) = true := by
    rw [fits_iff, ahead_choice, led]
    exact ⟨accepted, rfl⟩
  rw [extender?, candidates, List.find?_cons, here]

/-! ## Trees that are written out -/

/-- Wherever a tree is written out, before a blank or the end and before what is quiet, a tree of
its shape is written there. -/
def Renders (schema : Schema) (limit : Nat) (tree : Tree) : Prop :=
  ∀ (floor : Precedence) {cursor : Cursor} {behind : List Char} {depth bound : Nat},
    cursor.skipBlanks.rest = spaced (tokens tree) ++ behind →
    behind.head?.all isBlank = true → Quiet bound behind → bound ≤ edge tree →
    (∀ level, infixLevel? tree = some level → floor.rank ≤ level) →
    2 * tree.height ≤ depth + 1 →
    ∃ parsed next, next.rest = behind ∧ Written schema limit depth floor parsed cursor next ∧
      parsed.unplaced = tree.unplaced

variable {schema : Schema} {limit : Nat}

theorem ne_nil_of_begins {tokens : List (List Char)} (begins : Begins (spaced tokens)) :
    tokens ≠ [] := by
  rintro rfl
  obtain ⟨c, rest, same, _⟩ := begins
  simp [spaced] at same

theorem height_pos (tree : Tree) : 0 < tree.height := by
  cases tree <;> simp only [Tree.height] <;> omega

/-- An operand that is written out, in parentheses or not. -/
theorem Renders.enclosed {tree : Tree} (renders : Renders schema limit tree)
    (begins : Begins (spaced (tokens tree))) {cursor : Cursor} {behind : List Char}
    {depth bound : Nat} {floor : Precedence} {needed : Bool}
    (written : cursor.skipBlanks.rest = spaced (enclosed needed (tokens tree)) ++ behind)
    (blank : behind.head?.all isBlank = true) (quiet : Quiet bound behind)
    (unenclosed : needed = false → bound ≤ edge tree ∧
      ∀ level, infixLevel? tree = some level → floor.rank ≤ level)
    (deep : 2 * tree.height ≤ depth) :
    ∃ parsed next, next.rest = behind ∧ Written schema limit depth floor parsed cursor next ∧
      parsed.unplaced = tree.unplaced := by
  cases needed with
  | false =>
      obtain ⟨edge, level⟩ := unenclosed rfl
      exact renders floor written blank quiet edge level (by omega)
  | true =>
      have positive := height_pos tree
      obtain ⟨depth, rfl⟩ := Nat.exists_eq_succ_of_ne_zero (show depth ≠ 0 by omega)
      have nonempty := ne_nil_of_begins begins
      -- the parenthesis that opens, the tree, and the parenthesis that closes
      have parts : cursor.skipBlanks.rest = openParen.toList ++
          ' ' :: (spaced (tokens tree) ++ ' ' :: (closeParen.toList ++ behind)) := by
        rw [written]
        have first := spaced_cons openParen.toList (tokens tree ++ [closeParen.toList]) behind
        have second := spaced_append_follow nonempty [closeParen.toList] behind
        have third := spaced_cons closeParen.toList [] behind
        rw [follow] at third
        simp only [Standard.enclosed, if_true, List.cons_append]
        rw [first, follow, second, follow, third]
        · simp
        · simp [nonempty]
      have opened := token?_spaced solid_tokens parts rfl
      have opensAt : (cursor.skipBlanks.advance openParen.toList.length).rest =
          ' ' :: (spaced (tokens tree) ++ ' ' :: (closeParen.toList ++ behind)) :=
        rest_advance_of_append parts
      have quietParen : Quiet 0 (' ' :: (closeParen.toList ++ behind)) :=
        quiet_token paren_mem.2 blank (by decide) (fun same => absurd same (by decide))
      obtain ⟨parsed, next, rest, inside, shape⟩ := renders .loosest
        (rest_skipBlanks_of_space (begins.append _) opensAt) rfl quietParen (Nat.zero_le _)
        (fun _ _ => Nat.zero_le _) (by omega)
      have closes : next.skipBlanks.rest = closeParen.toList ++ behind :=
        rest_skipBlanks_of_space ((begins_of_mem paren_mem.2).append behind) rest
      have closed := token?_spaced solid_tokens closes blank
      exact ⟨_, _, rest_advance_of_append closes,
        .group opened inside (stops_of_quiet (rest ▸ quietParen) (Nat.zero_le _)) closed,
        (Tree.unplaced_widen _ _).trans shape⟩

/-- The first operand of a candidate, which is written out before what is quiet from the next level
on. -/
theorem Renders.first {c : UInt32 × Production} (mem : c ∈ candidates) {place : String}
    (isFirst : place = "left" ∨ place = "condition") {operand : Tree}
    (renders : Renders schema limit operand) (begins : Begins (spaced (tokens operand)))
    {cursor : Cursor} {behind : List Char} {depth : Nat} {floor : Precedence}
    (written : cursor.skipBlanks.rest =
      spaced (Standard.enclosed (needsParens c.2.name place operand) (tokens operand)) ++ behind)
    (blank : behind.head?.all isBlank = true) (quiet : Quiet (c.1.toNat + 1) behind)
    (tight : floor.rank ≤ c.1.toNat) (deep : 2 * operand.height ≤ depth) :
    ∃ parsed next, next.rest = behind ∧ Written schema limit depth floor parsed cursor next ∧
      parsed.unplaced = operand.unplaced := by
  refine renders.enclosed begins written blank quiet (fun clear => ?_) deep
  have fitting := left_fits mem isFirst clear
  exact ⟨fitting.1, fun inner found => Nat.le_trans tight (fitting.2 inner found)⟩

/-- The last operand of a candidate, which is written out where the candidate ends. -/
theorem Renders.last {c : UInt32 × Production} (mem : c ∈ candidates) {place : String}
    (isLast : place = "right" ∨ place = "else") {operand : Tree}
    (renders : Renders schema limit operand) (begins : Begins (spaced (tokens operand)))
    {cursor : Cursor} {behind : List Char} {depth bound : Nat} {floor : Precedence}
    (written : cursor.skipBlanks.rest =
      spaced (Standard.enclosed (needsParens c.2.name place operand) (tokens operand)) ++ behind)
    (blank : behind.head?.all isBlank = true) (quiet : Quiet bound behind)
    (edges : bound ≤ rightLevel c) (exact : floor.rank = rightLevel c)
    (deep : 2 * operand.height ≤ depth) :
    ∃ parsed next, next.rest = behind ∧ Written schema limit depth floor parsed cursor next ∧
      parsed.unplaced = operand.unplaced := by
  refine renders.enclosed begins written blank quiet (fun clear => ?_) deep
  have fitting := right_fits mem isLast clear
  rw [exact]
  exact ⟨Nat.le_trans edges fitting.1, fitting.2⟩

/-! ## Each kind of tree -/

theorem begins_spelled {value : Value} (isConstant : IsConstant value) :
    ∃ c rest, spelled value = c :: rest ∧ isBlank c = false ∧ c ≠ '(' := by
  cases isConstant with
  | integer n =>
      have text : spelled (.integer n) = (toString n.toInt).toList := rfl
      rw [text, Numeral.toList_toString]
      split
      · exact ⟨'-', _, rfl, by decide, by decide⟩
      · obtain ⟨c, rest, same, digit⟩ := Numeral.exists_toDigits n.toInt.natAbs
        refine ⟨c, rest, same, ?_, ?_⟩
        · rw [Bool.eq_false_iff]
          intro blank
          simp only [isBlank, Bool.or_eq_true, beq_iff_eq] at blank
          rcases blank with ((rfl | rfl) | rfl) | rfl <;> exact absurd digit (by decide)
        · rintro rfl
          exact absurd digit (by decide)
  | string s => exact ⟨'"', _, rfl, by decide, by decide⟩
  | keyword keyword =>
      rw [spelled_keyword]
      cases keyword <;> exact ⟨_, _, rfl, by decide, by decide⟩

theorem renders_constant {value : Value} {extent : Extent} (isConstant : IsConstant value) :
    Renders schema limit (.literal value extent) := by
  intro floor cursor behind depth bound written blank quiet edge level deep
  obtain ⟨depth, rfl⟩ : ∃ inner, depth = inner + 1 := by
    simp only [Tree.height] at deep
    exact ⟨depth - 1, by omega⟩
  have text : spaced (tokens (.literal value extent)) = spelled value := by simp [tokens, spaced]
  rw [text] at written
  obtain ⟨c, rest, same, _, notParen⟩ := begins_spelled isConstant
  have shut : token? table.tokens openParen cursor = none := by
    refine token?_eq_none_of_head (by decide) ?_
    rw [written, same]
    simpa [openParen] using notParen
  exact ⟨_, _, rest_advance_of_append written,
    .constant shut (constant?_spelled isConstant written blank),
    by simp [literalTree, Lexeme.ahead, Tree.unplaced]⟩

theorem renders_field {path : List String} {entry : Entry} {extent : Extent}
    (resolved : schema.resolve path = some entry)
    (words : ∀ segment ∈ path, isWord segment = true)
    (noKeyword : ∀ keyword : Keyword, path.head? ≠ some keyword.text) :
    Renders schema limit (.identifier path entry.descriptor extent) := by
  intro floor cursor behind depth bound written blank quiet edge level deep
  obtain ⟨depth, rfl⟩ : ∃ inner, depth = inner + 1 := by
    simp only [Tree.height] at deep
    exact ⟨depth - 1, by omega⟩
  have text : spaced (tokens (.identifier path entry.descriptor extent)) = pathText path := by
    simp [tokens, spaced]
  rw [text] at written
  cases path with
  | nil => cases resolved
  | cons name segments =>
      have word := words name List.mem_cons_self
      obtain ⟨c, rest, same, letter, _⟩ := isWord_iff.mp word
      have begins : cursor.skipBlanks.rest = c :: (rest ++ dotted segments ++ behind) := by
        rw [written, pathText, same]
        rfl
      have noToken : ∀ token ∈ table.tokens, token? table.tokens token cursor = none :=
        fun token registered => token?_eq_none_of_isAlphabetic registered begins letter
      have noConstant := constant?_word written word (endsPath_of_blank blank)
        fun keyword equal => noKeyword keyword (congrArg some equal)
      have found := reference?_dotted written words resolved (endsPath_of_blank blank)
      exact ⟨_, _, rest_advance_of_append written,
        .field (noToken _ paren_mem.1) noConstant
          (fun op known => noToken _ (op.token_mem known)) found,
        by simp only [Tree.unplaced]⟩

theorem begins_enclosed (needed : Bool) {inner : List (List Char)}
    (begins : Begins (spaced inner)) : Begins (spaced (enclosed needed inner)) := by
  cases needed with
  | false => exact begins
  | true =>
      have text := spaced_cons openParen.toList (inner ++ [closeParen.toList]) []
      rw [List.append_nil] at text
      rw [enclosed, if_pos rfl, List.cons_append, text]
      exact (begins_of_mem paren_mem.1).append _

theorem begins_append {first : List (List Char)} (begins : Begins (spaced first))
    (more : List (List Char)) : Begins (spaced (first ++ more)) := by
  have text := spaced_append_follow (ne_nil_of_begins begins) more []
  rw [List.append_nil] at text
  rw [text]
  exact begins.append _

theorem begins_tokens {tree : Tree} (expressible : Expressible schema tree) :
    Begins (spaced (tokens tree)) := by
  induction expressible with
  | constant extent isConstant =>
      obtain ⟨c, rest, same, solid, _⟩ := begins_spelled isConstant
      exact ⟨c, rest, by simp [tokens, spaced, same], solid⟩
  | @field path entry extent resolved words noKeyword =>
      cases path with
      | nil => cases resolved
      | cons name segments =>
          obtain ⟨c, rest, same, letter, _⟩ := isWord_iff.mp (words name List.mem_cons_self)
          refine ⟨c, rest ++ dotted segments, by simp [tokens, spaced, pathText, same], ?_⟩
          rw [Bool.eq_false_iff]
          intro blank
          have wordChar := isWordChar_of_isAlphabetic letter
          rw [isWordChar_of_isBlank blank] at wordChar
          cases wordChar
  | opener extent known inside accepted ih =>
      rename_i op operand
      rw [tokens_opener known]
      have text := spaced_cons op.token.toList
        (enclosed (needsParens op.name "operand" operand) (tokens operand)) []
      rw [List.append_nil] at text
      rw [text]
      exact (begins_of_mem (op.token_mem known)).append _
  | between extent known before behind acceptedLeft acceptedRight plus left right =>
      rw [tokens_infixNode known]
      exact begins_append (begins_enclosed _ left) _
  | chosen extent asked first second accepted condition positive negative =>
      rw [tokens_choice, List.append_assoc]
      exact begins_append (begins_enclosed _ condition) _

/-- A registered text that is written out is found, and the tokens behind it are written behind
it. -/
theorem token?_written (token : String) {cursor : Cursor}
    {more : List (List Char)} {behind : List Char} (begins : Begins (spaced more))
    (blank : behind.head?.all isBlank = true)
    (written : cursor.skipBlanks.rest = spaced (token.toList :: more) ++ behind) :
    ∃ lexeme, token? table.tokens token cursor = some lexeme ∧
      lexeme.span.start = cursor.skipBlanks.offset ∧
      lexeme.next.skipBlanks.rest = spaced more ++ behind := by
  rw [spaced_cons] at written
  refine ⟨_, token?_spaced solid_tokens written (isBlank_follow _ blank), rfl, ?_⟩
  refine rest_skipBlanks_of_space (begins.append behind) ?_
  rw [Lexeme.ahead, rest_advance_of_append written]
  obtain ⟨other, more, rfl⟩ := List.exists_cons_of_ne_nil (ne_nil_of_begins begins)
  rfl

/-- What follows an operand that is written out before a registered text. -/
theorem rest_of_follow {token : String} (registered : token ∈ table.tokens) {cursor : Cursor}
    {more : List (List Char)} {behind : List Char}
    (written : cursor.rest = follow (token.toList :: more) behind) :
    cursor.skipBlanks.rest = spaced (token.toList :: more) ++ behind := by
  refine rest_skipBlanks_of_space ?_ written
  rw [spaced_cons]
  exact (begins_of_mem registered).append _

/-- A registered text and the tokens behind it are quiet from the level of its operators on. -/
theorem quiet_follow {bound : Nat} {token : String} {more : List (List Char)} {behind : List Char}
    (registered : token ∈ table.tokens) (blank : behind.head?.all isBlank = true)
    (below : ∀ op ∈ infixes, op.token = token → op.level.toNat < bound)
    (choiceBelow : token = "?" → 1 < bound) : Quiet bound (follow (token.toList :: more) behind) := by
  have quiet := quiet_token registered (isBlank_follow more blank) below choiceBelow
  rw [← spaced_cons] at quiet
  exact quiet

theorem renders_opener {op : Opener} (known : op ∈ openers) {operand : Tree} {extent : Extent}
    (expressible : Expressible schema operand) (renders : Renders schema limit operand)
    (accepted : ∀ type ∈ op.demand.type?, type.accepts operand.type = true)
    (shallow : (Tree.ofMatch op.name [("operand", .tree operand)] op.production.result
      extent).depth ≤ limit) :
    Renders schema limit
      (.ofMatch op.name [("operand", .tree operand)] op.production.result extent) := by
  intro floor cursor behind depth bound written blank quiet edges level deep
  simp only [Tree.ofMatch, Tree.height, Tree.bindingsHeight] at deep
  obtain ⟨depth, rfl⟩ : ∃ inner, depth = inner + 1 := ⟨depth - 1, by omega⟩
  rw [edge_opener known rfl] at edges
  have begins := begins_enclosed (needsParens op.name "operand" operand)
    (begins_tokens expressible)
  rw [tokens_opener known] at written
  obtain ⟨lexeme, led, start, rest⟩ :=
    token?_written op.token begins blank written
  have operandWritten : ∃ parsed next, next.rest = behind ∧
      Written schema limit depth openerFloor parsed lexeme.next next ∧
      parsed.unplaced = operand.unplaced :=
    renders.enclosed (begins_tokens expressible) rest blank (quiet.mono edges) operand_fits
      (by omega)
  obtain ⟨parsed, next, rfl, inside, shape⟩ := operandWritten
  have stops : Stops openerFloor parsed next := by
    -- no operator has the level of these operators, so what is tighter than them is no looser
    have noneThere : ∀ c ∈ candidates, c.1.toNat ≠ 8 := by decide
    have quietFrom : Quiet 8 next.rest := by
      intro other same c mem within
      have above := noneThere c mem
      exact quiet.mono edges other same c mem (by omega)
    exact stops_of_quiet quietFrom (Nat.le_refl _)
  have mark : ∀ op ∈ openers, op.token.toList = ['-'] ∨ op.token.toList = ['!'] := by decide
  rw [spaced_cons] at written
  have shut : token? table.tokens openParen cursor = none := by
    refine token?_eq_none_of_head (by decide) ?_
    rcases mark op known with letters | letters <;> rw [written, letters] <;> simp [openParen]
  have noConstant : constant? cursor = .ok none := by
    have spacedBehind := isBlank_follow
      (enclosed (needsParens op.name "operand" operand) (tokens operand)) blank
    rcases mark op known with letters | letters <;> rw [letters] at written
    · exact constant?_mark (.inl rfl) written spacedBehind
    · exact constant?_mark (.inr rfl) written spacedBehind
  have sameShape : (op.node parsed lexeme.span.start next).unplaced =
      (Tree.ofMatch op.name [("operand", .tree operand)] op.production.result extent).unplaced :=
    Tree.unplaced_ofMatch (by simp only [Tree.unplacedBindings, shape])
  refine ⟨_, next, rfl, .opener known shut noConstant led inside stops ?_ ?_, sameShape⟩
  · rwa [Tree.type_eq_of_unplaced shape]
  · exact Nat.le_trans (Nat.le_of_eq (Tree.depth_eq_of_unplaced sameShape)) shallow

theorem renders_between {op : Infix} (known : op ∈ infixes) {left right : Tree} {extent : Extent}
    (leftExpressible : Expressible schema left) (rightExpressible : Expressible schema right)
    (leftRenders : Renders schema limit left) (rightRenders : Renders schema limit right)
    (acceptedLeft : ∀ type ∈ op.demand.type?, type.accepts left.type = true)
    (acceptedRight : ∀ type ∈ op.demand.type?, type.accepts right.type = true)
    (plus : op.token = "+" → (op.name = "add" ↔ Descriptor.number.accepts left.type = true))
    (shallow : (Tree.ofMatch op.name [("left", .tree left), ("right", .tree right)]
      op.production.result extent).depth ≤ limit) :
    Renders schema limit
      (.ofMatch op.name [("left", .tree left), ("right", .tree right)] op.production.result
        extent) := by
  intro floor cursor behind depth bound written blank quiet edges level deep
  have mem : op.candidate ∈ candidates := mem_candidates.mpr (.inr ⟨op, known, rfl⟩)
  have levelOf : levelOf? op.name = some op.level.toNat := levelOf?_candidate _ mem
  simp only [Tree.ofMatch, Tree.height, Tree.bindingsHeight] at deep
  obtain ⟨depth, rfl⟩ : ∃ inner, depth = inner + 1 := ⟨depth - 1, by omega⟩
  rw [edge_candidate mem rfl] at edges
  have tight : floor.rank ≤ op.level.toNat := level _ levelOf
  have leftBegins := begins_tokens leftExpressible
  have rightBegins := begins_enclosed (needsParens op.name "right" right)
    (begins_tokens rightExpressible)
  rw [tokens_infixNode known, spaced_append_follow (ne_nil_of_begins (begins_enclosed _ leftBegins))]
    at written
  -- the left operand ends before the operator, and what is tighter than it is not ahead
  have leftQuiet : Quiet (op.level.toNat + 1) (follow (op.token.toList ::
      enclosed (needsParens op.name "right" right) (tokens right)) behind) := by
    refine quiet_follow (op.token_mem known) blank (fun other known' same => ?_)
      (fun same => absurd same (op.token_ne_choice known))
    rw [other.level_eq_of_token known' op known same]
    exact Nat.lt_succ_self _
  obtain ⟨first, middle, rest, before, leftShape⟩ := leftRenders.first mem (.inl rfl) leftBegins
    written (isBlank_follow _ blank) leftQuiet tight (show 2 * left.height ≤ depth + 1 by omega)
  obtain ⟨lexeme, led, _, rightRest⟩ := token?_written op.token rightBegins blank
    (rest_of_follow (op.token_mem known) rest)
  obtain ⟨second, next, rfl, inside, rightShape⟩ := rightRenders.last mem (.inl rfl)
    (begins_tokens rightExpressible) rightRest blank quiet edges (op.rank_rightFloor known)
    (show 2 * right.height ≤ depth by omega)
  have sameShape : (op.node first second next).unplaced =
      (Tree.ofMatch op.name [("left", .tree left), ("right", .tree right)] op.production.result
        extent).unplaced :=
    Tree.unplaced_ofMatch (by simp only [Tree.unplacedBindings, leftShape, rightShape])
  have leftType := Tree.type_eq_of_unplaced leftShape
  have rightType := Tree.type_eq_of_unplaced rightShape
  rw [← leftType] at acceptedLeft plus
  rw [← rightType] at acceptedRight
  refine ⟨_, next, rfl, .between known (decide_eq_true tight) before
    (op.extender?_eq known led acceptedLeft plus) led inside
    (stops_of_quiet quiet (op.rank_rightFloor known ▸ edges)) acceptedRight ?_, sameShape⟩
  exact Nat.le_trans (Nat.le_of_eq (Tree.depth_eq_of_unplaced sameShape)) shallow

theorem renders_chosen {condition positive negative : Tree} {extent : Extent}
    (conditionExpressible : Expressible schema condition)
    (positiveExpressible : Expressible schema positive)
    (negativeExpressible : Expressible schema negative)
    (conditionRenders : Renders schema limit condition)
    (positiveRenders : Renders schema limit positive)
    (negativeRenders : Renders schema limit negative)
    (accepted : Descriptor.boolean.accepts condition.type = true)
    (shallow : (Tree.ofMatch choice.name
      [("condition", .tree condition), ("else", .tree negative), ("then", .tree positive)]
      choice.result extent).depth ≤ limit) :
    Renders schema limit
      (.ofMatch choice.name
        [("condition", .tree condition), ("else", .tree negative), ("then", .tree positive)]
        choice.result extent) := by
  intro floor cursor behind depth bound written blank quiet edges level deep
  have mem : (1, choice) ∈ candidates := mem_candidates.mpr (.inl rfl)
  simp only [Tree.ofMatch, Tree.height, Tree.bindingsHeight] at deep
  obtain ⟨depth, rfl⟩ : ∃ inner, depth = inner + 1 := ⟨depth - 1, by omega⟩
  rw [edge_candidate mem rfl] at edges
  have tight : floor.rank ≤ 1 := level _ (levelOf?_candidate _ mem)
  have conditionBegins := begins_tokens conditionExpressible
  have positiveBegins := begins_tokens positiveExpressible
  have negativeBegins := begins_enclosed (needsParens "ternary" "else" negative)
    (begins_tokens negativeExpressible)
  rw [tokens_choice, List.append_assoc, List.cons_append,
    spaced_append_follow (ne_nil_of_begins (begins_enclosed _ conditionBegins))] at written
  -- the operands but the last one end before the marks of the choice
  have quietMark : Quiet 2 (follow ("?".toList :: (tokens positive ++
      ":".toList :: enclosed (needsParens "ternary" "else" negative) (tokens negative))) behind) :=
    quiet_follow choice_mem.1 blank (fun op known same => absurd same (op.token_ne_choice known))
      (fun _ => by decide)
  obtain ⟨first, middle, rest, before, conditionShape⟩ := conditionRenders.first mem (.inr rfl)
    conditionBegins written (isBlank_follow _ blank) quietMark tight
    (show 2 * condition.height ≤ depth + 1 by omega)
  obtain ⟨mark, led, _, markRest⟩ := token?_written "?" (begins_append positiveBegins _) blank
    (rest_of_follow choice_mem.1 rest)
  rw [spaced_append_follow (ne_nil_of_begins positiveBegins)] at markRest
  have quietColon : Quiet 0 (follow (":".toList ::
      enclosed (needsParens "ternary" "else" negative) (tokens negative)) behind) :=
    quiet_follow choice_mem.2 blank (by decide) (fun same => absurd same (by decide))
  obtain ⟨second, end', rest', inside, positiveShape⟩ := positiveRenders .loosest markRest
    (isBlank_follow _ blank) quietColon (Nat.zero_le _) (fun _ _ => Nat.zero_le _)
    (show 2 * positive.height ≤ depth + 1 by omega)
  obtain ⟨colon, divided, _, colonRest⟩ := token?_written ":" negativeBegins blank
    (rest_of_follow choice_mem.2 rest')
  have rank : choiceFloor.rank = rightLevel (1, choice) := rfl
  obtain ⟨third, next, rfl, last, negativeShape⟩ := negativeRenders.last mem (.inr rfl)
    (begins_tokens negativeExpressible) colonRest blank quiet edges rank
    (show 2 * negative.height ≤ depth by omega)
  have sameShape : (choiceNode first second third next).unplaced =
      (Tree.ofMatch choice.name
        [("condition", .tree condition), ("else", .tree negative), ("then", .tree positive)]
        choice.result extent).unplaced :=
    Tree.unplaced_ofMatch
      (by simp only [Tree.unplacedBindings, conditionShape, positiveShape, negativeShape])
  rw [← Tree.type_eq_of_unplaced conditionShape] at accepted
  refine ⟨_, next, rfl, .chosen (decide_eq_true tight) before (extender?_choice led accepted) led
    inside (stops_of_quiet (rest' ▸ quietColon) (Nat.zero_le _)) divided last
    (stops_of_quiet quiet edges) ?_, sameShape⟩
  exact Nat.le_trans (Nat.le_of_eq (Tree.depth_eq_of_unplaced sameShape)) shallow

/-! ## The round trip -/

/-- The depth of an expressible tree is its height. -/
theorem depth_eq_height {tree : Tree} (expressible : Expressible schema tree) :
    tree.depth = tree.height := by
  induction expressible with
  | constant extent isConstant => simp only [Tree.depth, Tree.height]
  | field extent resolved words noKeyword => simp only [Tree.depth, Tree.height]
  | opener extent known inside accepted ih =>
      rw [Tree.ofMatch, Tree.depth, Tree.height]
      exact Bindings.depth_eq_height (by simpa using ih)
  | between extent known before behind acceptedLeft acceptedRight plus first second =>
      rw [Tree.ofMatch, Tree.depth, Tree.height]
      exact Bindings.depth_eq_height (by simp [or_imp, forall_and, first, second])
  | chosen extent asked yes no accepted first second third =>
      rw [Tree.ofMatch, Tree.depth, Tree.height]
      exact Bindings.depth_eq_height (by simp [or_imp, forall_and, first, second, third])

/-- Expressible trees that are low enough are written where they are written out. -/
theorem renders_of_expressible {tree : Tree} (expressible : Expressible schema tree)
    (low : tree.height ≤ limit) : Renders schema limit tree := by
  have shallow := low
  rw [← depth_eq_height expressible] at shallow
  induction expressible with
  | constant extent isConstant => exact renders_constant isConstant
  | field extent resolved words noKeyword => exact renders_field resolved words noKeyword
  | @opener op operand extent known inside accepted ih =>
      have below : operand.height ≤ limit := by
        simp only [Tree.ofMatch, Tree.height, Tree.bindingsHeight] at low
        omega
      exact renders_opener known inside (ih below (depth_eq_height inside ▸ below)) accepted shallow
  | @between op left right extent known before behind acceptedLeft acceptedRight plus first second =>
      have below : left.height ≤ limit ∧ right.height ≤ limit := by
        simp only [Tree.ofMatch, Tree.height, Tree.bindingsHeight] at low
        omega
      exact renders_between known before behind
        (first below.1 (depth_eq_height before ▸ below.1))
        (second below.2 (depth_eq_height behind ▸ below.2)) acceptedLeft acceptedRight plus shallow
  | @chosen condition positive negative extent asked yes no accepted first second third =>
      have below : condition.height ≤ limit ∧ positive.height ≤ limit ∧
          negative.height ≤ limit := by
        simp only [Tree.ofMatch, Tree.height, Tree.bindingsHeight] at low
        omega
      exact renders_chosen asked yes no (first below.1 (depth_eq_height asked ▸ below.1))
        (second below.2.1 (depth_eq_height yes ▸ below.2.1))
        (third below.2.2 (depth_eq_height no ▸ below.2.2)) accepted shallow

/-- The text of a tree is read as a tree of its shape, for every schema and every tree of the
standard nodes that the limit has room for. -/
theorem whole_rendered {grammar : Grammar} (built : Standard.grammar = .ok grammar)
    {schema : Schema} {limit : Nat} {tree : Tree} (expressible : Expressible schema tree)
    (low : 2 * tree.height ≤ limit) :
    ∃ parsed, whole ⟨grammar, schema, limit⟩ (rendered tree) = .ok parsed ∧
      parsed.unplaced = tree.unplaced := by
  obtain rfl : table = grammar := Except.ok.inj (grammar_eq.symm.trans built)
  have begins := begins_tokens expressible
  have text : (Cursor.start (rendered tree)).skipBlanks.rest = spaced (tokens tree) ++ [] := by
    obtain ⟨c, rest, same, solid⟩ := begins
    rw [Cursor.skipBlanks, Cursor.rest_skipWhile, Cursor.start, rendered, String.toList_ofList, same]
    simp [solid]
  obtain ⟨parsed, next, atEnd, written, shape⟩ :=
    renders_of_expressible expressible (show tree.height ≤ limit by omega) .loosest text rfl
      (quiet_nil 0) (Nat.zero_le _) (fun _ _ => Nat.zero_le _)
      (show 2 * tree.height ≤ limit + 1 by omega)
  refine ⟨parsed, whole_ok_iff.mpr ⟨next, written, ?_, ?_⟩, shape⟩
  · exact stops_of_quiet (atEnd ▸ quiet_nil 0) (Nat.zero_le _)
  · rw [Cursor.skipBlanks, Cursor.rest_skipWhile, atEnd]
    rfl

/-- The sum of two integers, times the opposite of a field. -/
def productOfSum : Tree :=
  let extent := Extent.bare 0 0
  let sum := Tree.ofMatch "add" [("left", .tree (.literal (.integer 1) extent)),
    ("right", .tree (.literal (.integer 2) extent))] (.fixed .number) extent
  let opposite := Tree.ofMatch "neg"
    [("operand", .tree (.identifier ["x", "y"] .number extent))] (.fixed .number) extent
  .ofMatch "mul" [("left", .tree sum), ("right", .tree opposite)] (.fixed .number) extent

theorem expressible_productOfSum :
    Expressible [("x", .nested [("y", .type .number)])] productOfSum := by
  have sumKnown : infixes[9] ∈ infixes := List.getElem_mem _
  have productKnown : infixes[12] ∈ infixes := List.getElem_mem _
  have oppositeKnown : openers[0] ∈ openers := List.getElem_mem _
  have resolved : Schema.resolve [("x", .nested [("y", .type .number)])] ["x", "y"] =
      some (.type .number) := rfl
  have field : Expressible [("x", .nested [("y", .type .number)])]
      (.identifier ["x", "y"] .number (.bare 0 0)) :=
    .field _ resolved (by decide) (fun keyword => by cases keyword <;> decide)
  have isNumber {tree : Tree} (accepts : Descriptor.number.accepts tree.type = true) :
      ∀ type ∈ Demand.number.type?, type.accepts tree.type = true := by
    rintro _ ⟨⟩
    exact accepts
  have opposite := Expressible.opener (.bare 0 0) oppositeKnown field (isNumber rfl)
  exact .between _ productKnown
    (.between _ sumKnown (.constant _ (.integer 1)) (.constant _ (.integer 2)) (isNumber rfl)
      (isNumber rfl) fun _ => iff_of_true rfl rfl)
    opposite (isNumber rfl) (isNumber rfl) fun same => absurd same (by decide)

theorem whole_rendered_productOfSum :
    rendered productOfSum = "( 1 + 2 ) * - x.y" ∧
      ∃ parsed, whole ⟨table, [("x", .nested [("y", .type .number)])], 6⟩ (rendered productOfSum) =
        .ok parsed ∧ parsed.unplaced = productOfSum.unplaced :=
  ⟨by decide, whole_rendered grammar_eq expressible_productOfSum (by decide)⟩

end Mixfix.Standard
