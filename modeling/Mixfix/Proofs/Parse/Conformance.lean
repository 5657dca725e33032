import Mixfix.Proofs.Grammar.Filling
import Mixfix.Proofs.Parse.Advance
import Mixfix.Proofs.Text.Slices
import Mixfix.Proofs.Tree.Subtrees

/-!
# Parsed trees conform

Every tree that is read conforms to the grammar and the schema, and so does everything inside of it
(`conforms_of_atStart`): a node is of a registered production, its bindings fit the pattern and give
its type, and a reference stands for a field of the schema that its own text names.

A walk through a pattern adds the entries of a filling to the bindings it started with
(`Reads.adds`). The induction is on the walk; what keeps two entries from meeting under one
name is that no name is given twice in a pattern, so the names bound so far and the names still ahead
stay apart. A group is walked with bindings of its own, which are added only if it was matched.
-/

set_option autoImplicit false

namespace Mixfix.Parse

variable {setting : Setting} {operand : Operand} {source : String} {cursor next : Cursor}

/-! ## Conforming trees -/

/-- A leaf or a node that conforms to a grammar, to a schema and to the text it was read from. Of the
trees inside of a node only the types are looked at. -/
inductive Conforms (grammar : Grammar) (schema : Schema) (source : String) : Tree → Prop
  | literal (value : Value) (extent : Extent) : Conforms grammar schema source (.literal value extent)
  | identifier {path : List String} {entry : Entry} {extent : Extent}
      (resolved : schema.resolve path = some entry)
      (spelled : slice source extent.core = (".".intercalate path).toList) :
      Conforms grammar schema source (.identifier path entry.descriptor extent)
  | node {production : Production} {bindings : Bindings} {depth : Nat} {extent : Extent}
      (known : production ∈ grammar.productions)
      (registered : grammar.node? production.name = some production.definition)
      (compiled : compileDefinition production.definition = .ok production)
      (fits : Fits production bindings) :
      Conforms grammar schema source
        (.node production.name bindings (bindings.resultType production.result) depth extent)

theorem Conforms.widen {grammar : Grammar} {schema : Schema} {tree : Tree}
    (conforms : Conforms grammar schema source tree) (span : Span) :
    Conforms grammar schema source (tree.widen span) := by
  cases conforms with
  | literal value extent => exact .literal _ _
  | identifier resolved spelled => exact .identifier resolved spelled
  | node known registered compiled fits => exact .node known registered compiled fits

/-- A tree that conforms, with everything inside of it. -/
def Sound (setting : Setting) (source : String) (tree : Tree) : Prop :=
  ∀ inner ∈ tree.subtrees, Conforms setting.grammar setting.schema source inner

theorem Sound.widen {tree : Tree} (sound : Sound setting source tree) (span : Span) :
    Sound setting source (tree.widen span) := by
  intro inner mem
  rcases Tree.mem_subtrees.mp mem with rfl | ⟨operand, known, inside⟩
  · exact (sound tree tree.self_mem_subtrees).widen span
  · rw [Tree.operands_widen] at known
    exact sound inner (Tree.mem_subtrees.mpr (.inr ⟨operand, known, inside⟩))

/-- The trees among entries conform, with everything inside of them. -/
def SoundEntries (setting : Setting) (source : String) (entries : Bindings) : Prop :=
  ∀ name tree, (name, .tree tree) ∈ entries → Sound setting source tree

theorem SoundEntries.append {entries more : Bindings} (first : SoundEntries setting source entries)
    (second : SoundEntries setting source more) :
    SoundEntries setting source (entries ++ more) := by
  intro name tree mem
  exact (List.mem_append.mp mem).elim (first name tree) (second name tree)

theorem soundEntries_entriesOf {name : Option String} {binding : Binding}
    (sound : ∀ tree, binding = .tree tree → Sound setting source tree) :
    SoundEntries setting source (entriesOf name binding) := by
  intro key tree mem
  obtain ⟨_, _, same⟩ := List.mem_map.mp mem
  cases same
  exact sound tree rfl

/-! ## Leaves -/

theorem sound_literal (value : Value) (extent : Extent) :
    Sound setting source (.literal value extent) := by
  intro inner mem
  rw [Tree.subtrees, List.mem_singleton] at mem
  exact mem ▸ .literal value extent

theorem sound_of_reference? {parsed : Parsed} (inside : cursor.LiesIn source)
    (found : reference? setting.schema cursor = .ok (some parsed)) :
    Sound setting source parsed.1 := by
  obtain ⟨path, entry, resolved, _, _, same, stands, after⟩ := reference?_ok found
  have spelled : slice source ⟨cursor.skipBlanks.offset, parsed.2.offset⟩ = pathText path := by
    rw [after]
    exact slice_of_spells (inside.reaches (Cursor.reaches_skipBlanks cursor))
      (Cursor.spells_of_prefix stands)
  rw [pathText_eq_intercalate] at spelled
  intro inner mem
  rw [same, Tree.subtrees, List.mem_singleton] at mem
  exact mem ▸ .identifier resolved spelled

/-- A literal element captures what it can bind. -/
theorem binds_of_capture? {schema : Schema} {kind : LiteralKind} {capture : Capture}
    (captured : capture? schema kind cursor = .ok (some capture)) : kind.Binds capture.binding := by
  cases kind with
  | number =>
      obtain ⟨lexeme, found, rfl⟩ := Option.map_eq_some_iff.mp (Except.ok.inj captured)
      simp only [Lexeme.number?] at found
      split at found
      · next parts behind _ =>
          cases found
          simp only [Capture.ofLexeme, Lexeme.ahead, Lexeme.NumberParts.value]
          split
          · split
            · exact .integer _
            · exact .float _
          · exact .float _
          · exact .float _
      · cases found
  | string =>
      obtain ⟨found?, found, same⟩ := Descriptor.ok_of_map captured
      obtain ⟨lexeme, rfl, rfl⟩ := Option.map_eq_some_iff.mp same
      simp only [stringValue?] at found
      split at found
      · cases found
      · cases found
        exact .string _
      · cases found
  | identifier =>
      obtain ⟨found?, found, same⟩ := Descriptor.ok_of_map captured
      obtain ⟨⟨tree, next⟩, rfl, rfl⟩ := Option.map_eq_some_iff.mp same
      obtain ⟨path, entry, _, _, _, rfl, _, _⟩ := reference?_ok found
      exact .identifier _ _ _
  | keyword keyword =>
      obtain ⟨lexeme, found, rfl⟩ := Option.map_eq_some_iff.mp (Except.ok.inj captured)
      simp only [Lexeme.keyword?] at found
      split at found
      · cases found
        exact .keyword keyword
      · cases found

/-- A literal element binds no tree but that of a reference. -/
theorem reference_of_capture? {schema : Schema} {kind : LiteralKind} {cursor : Cursor}
    {capture : Capture} {tree : Tree} (captured : capture? schema kind cursor = .ok (some capture))
    (same : capture.binding = .tree tree) :
    ∃ next, reference? schema cursor = .ok (some (tree, next)) := by
  have binds := binds_of_capture? captured
  cases kind with
  | identifier =>
      obtain ⟨found?, found, mapped⟩ := Descriptor.ok_of_map captured
      obtain ⟨⟨other, next⟩, rfl, rfl⟩ := Option.map_eq_some_iff.mp mapped
      cases same
      exact ⟨next, found⟩
  | _ =>
      rw [same] at binds
      cases binds

theorem sound_of_capture? {kind : LiteralKind} {capture : Capture} {tree : Tree}
    (inside : cursor.LiesIn source)
    (captured : capture? setting.schema kind cursor = .ok (some capture))
    (same : capture.binding = .tree tree) : Sound setting source tree := by
  obtain ⟨next, found⟩ := reference_of_capture? captured same
  exact sound_of_reference? inside found

/-! ## Entries that are added -/

/-- Bindings to which entries were added, under names of their own. -/
structure Extended (bindings entries result : Bindings) : Prop where
  perm : result.Perm (bindings ++ entries)
  ordered : Dict.Ordered bindings → Dict.Ordered result

theorem Extended.trans {bindings added middle more result : Bindings}
    (first : Extended bindings added middle) (second : Extended middle more result) :
    Extended bindings (added ++ more) result where
  perm := by
    rw [← List.append_assoc]
    exact second.perm.trans (first.perm.append_right more)
  ordered := second.ordered ∘ first.ordered

/-- The bindings that entries are added to have no names in common with the entries, nor has the
result with names that are still to come. -/
theorem extended_union {bindings added entries : Bindings} {own behind : List String}
    (perm : added.Perm entries) (within : (Dict.names entries).Sublist own)
    (distinct : (Dict.names bindings ++ (own ++ behind)).Nodup) :
    Extended bindings entries (Dict.union bindings added) ∧
      (Dict.names (Dict.union bindings added) ++ behind).Nodup := by
  rw [← List.append_assoc] at distinct
  have all := distinct.sublist ((within.append_left (Dict.names bindings)).append_right behind)
  have same := (perm.map Prod.fst).append_left (Dict.names bindings)
  have apart := same.nodup_iff.mpr (List.nodup_append.mp all).1
  have grown := (Dict.perm_union apart).trans (perm.append_left bindings)
  refine ⟨⟨grown, fun ordered => Dict.ordered_union ordered added⟩, ?_⟩
  have names := grown.map Prod.fst
  rw [List.map_append] at names
  exact (names.append_right behind).nodup_iff.mpr all

/-- The entries of a filling of elements, all of them sound, were added to bindings. -/
def Adds (setting : Setting) (source : String) (elements : List (Element Descriptor))
    (bindings result : Bindings) : Prop :=
  ∃ entries, Filling elements entries ∧ SoundEntries setting source entries ∧
    Extended bindings entries result

namespace Adds

variable {bindings result : Bindings} {rest : List (Element Descriptor)}

theorem nothing (bindings : Bindings) : Adds setting source [] bindings bindings := by
  refine ⟨[], .done, ?_, ?_, id⟩
  · intro name tree mem
    cases mem
  · rw [List.append_nil]

/-- An element binds what it asks for, and the elements behind it go on from there. -/
theorem element {element : Element Descriptor} {binding : Binding} (asked : element.Asks binding)
    (sound : ∀ tree, binding = .tree tree → Sound setting source tree)
    (distinct : (Dict.names bindings ++ namesWithin (element :: rest)).Nodup)
    (further : (Dict.names (Dict.union bindings (entriesOf element.name? binding)) ++
        namesWithin rest).Nodup →
      Adds setting source rest (Dict.union bindings (entriesOf element.name? binding)) result) :
    Adds setting source (element :: rest) bindings result := by
  rw [namesWithin_cons, ← asked.names_entriesOf] at distinct
  obtain ⟨added, apart⟩ := extended_union (.refl _) (.refl _) distinct
  obtain ⟨entries, filling, soundRest, extended⟩ := further apart
  exact ⟨_, .element asked filling, (soundEntries_entriesOf sound).append soundRest,
    added.trans extended⟩

/-- A group adds its own bindings at once. -/
theorem present {group : List (Element Descriptor)} {inner : Bindings}
    (whole : Adds setting source group [] inner)
    (distinct : (Dict.names bindings ++ namesWithin (.optional group :: rest)).Nodup)
    (further : (Dict.names (Dict.union bindings inner) ++ namesWithin rest).Nodup →
      Adds setting source rest (Dict.union bindings inner) result) :
    Adds setting source (.optional group :: rest) bindings result := by
  obtain ⟨own, filled, soundOwn, bound⟩ := whole
  rw [namesWithin_cons, elementNames_optional] at distinct
  obtain ⟨added, apart⟩ := extended_union bound.perm filled.names_sublist distinct
  obtain ⟨entries, filling, soundRest, extended⟩ := further apart
  exact ⟨_, .present filled filling, soundOwn.append soundRest, added.trans extended⟩

/-- The names bound so far stay apart from the names behind an element. -/
theorem skip {element : Element Descriptor}
    (distinct : (Dict.names bindings ++ namesWithin (element :: rest)).Nodup) :
    (Dict.names bindings ++ namesWithin rest).Nodup := by
  rw [namesWithin_cons] at distinct
  exact distinct.sublist ((List.sublist_append_right _ _).append_left _)

/-- An element before the others can be bound after them. -/
theorem before {element : Element Descriptor} {binding : Binding} (asked : element.Asks binding)
    (sound : ∀ tree, binding = .tree tree → Sound setting source tree)
    (distinct : (namesWithin (element :: rest)).Nodup) (adds : Adds setting source rest [] bindings) :
    Adds setting source (element :: rest) []
      (Dict.union bindings (entriesOf element.name? binding)) := by
  obtain ⟨entries, filling, soundRest, extended⟩ := adds
  rw [namesWithin_cons, ← asked.names_entriesOf] at distinct
  have apart : (Dict.names bindings ++ Dict.names (entriesOf element.name? binding)).Nodup := by
    have names : (Dict.names bindings).Perm (Dict.names entries) := extended.perm.map Prod.fst
    refine ((names.append_right _).trans List.perm_append_comm).nodup_iff.mpr ?_
    exact distinct.sublist (filling.names_sublist.append_left _)
  refine ⟨_, .element asked filling, (soundEntries_entriesOf sound).append soundRest, ?_, ?_⟩
  · exact ((Dict.perm_union apart).trans (extended.perm.append_right _)).trans List.perm_append_comm
  · exact fun ordered => Dict.ordered_union (extended.ordered ordered) _

/-- What was added to nothing fits the production, if its names are not given twice. -/
theorem fits {production : Production} (adds : Adds setting source production.elements [] result)
    (distinct : (namesWithin production.elements).Nodup) :
    Fits production result ∧ SoundEntries setting source result := by
  obtain ⟨entries, filling, sound, extended⟩ := adds
  refine ⟨fits_of_filling distinct filling extended.perm.symm (extended.ordered .nil), ?_⟩
  intro name tree mem
  exact sound name tree (extended.perm.mem_iff.mp mem)

end Adds

/-! ## Walks -/

theorem bindings_bound (progress : Progress) (name : Option String) (binding : Binding) :
    (progress.bound name binding).bindings = Dict.union progress.bindings (entriesOf name binding) := by
  cases name <;> rfl

/-- Every operand that is read from within the text is sound. -/
def SoundOperands (setting : Setting) (source : String)
    (Operand : Precedence → Cursor → Parsed → Prop) : Prop :=
  ∀ floor cursor parsed, Cursor.LiesIn source cursor → Operand floor cursor parsed →
    Sound setting source parsed.1

/-- A walk through elements adds the entries of a filling of them. -/
theorem Reads.adds {Operand : Precedence → Cursor → Parsed → Prop} {precedence : Precedence}
    (moving : Moving Operand) (operands : SoundOperands setting source Operand)
    {elements : List (Element Descriptor)} {progress final : Progress}
    (reads : Reads setting Operand precedence elements progress final)
    (nonempty : ∀ token ∈ patternTokens elements, token ≠ "")
    (inside : progress.cursor.LiesIn source)
    (distinct : (Dict.names progress.bindings ++ namesWithin elements).Nodup) :
    Adds setting source elements progress.bindings final.bindings := by
  induction reads with
  | done progress => exact .nothing _
  | text found _ ih =>
      have starts := Lexeme.starts_of_token? (nonempty _ List.mem_cons_self) found
      obtain ⟨entries, filling, rest⟩ := ih
        (fun token mem => nonempty token (List.mem_cons_of_mem _ mem))
        (inside.reaches ((Cursor.reaches_skipBlanks _).passes starts.2).reaches)
        (Adds.skip distinct)
      exact ⟨entries, .text filling, rest⟩
  | literal captured _ ih =>
      rw [bindings_bound, cursor_bound] at ih
      have passes := (Cursor.reaches_skipBlanks _).passes (passes_of_capture? captured)
      exact Adds.element (.literal (binds_of_capture? captured))
        (fun tree same => sound_of_capture? inside captured same) distinct
        (ih nonempty (inside.reaches passes.reaches))
  | operand read accepted _ ih =>
      rw [bindings_bound, cursor_bound] at ih
      refine Adds.element (.operand accepted) ?_ distinct
        (ih nonempty (inside.reaches (moving _ _ _ read).reaches))
      rintro tree same
      cases same
      exact operands _ _ _ inside read
  | present walked _ within ih =>
      rw [patternTokens, elementTokens] at nonempty
      have nonemptyGroup := fun token mem => nonempty token (List.mem_append_left _ mem)
      have distinctGroup := (List.nodup_append.mp distinct).2.1
      rw [namesWithin_cons, elementNames_optional] at distinctGroup
      have whole := within nonemptyGroup inside (List.nodup_append.mp distinctGroup).1
      exact Adds.present whole distinct
        (ih (fun token mem => nonempty token (List.mem_append_right _ mem))
          (inside.reaches (walked.moves moving nonemptyGroup).1))
  | absent _ ih =>
      rw [patternTokens, elementTokens] at nonempty
      obtain ⟨entries, filling, rest⟩ := ih
        (fun token mem => nonempty token (List.mem_append_right _ mem)) inside (Adds.skip distinct)
      exact ⟨entries, .absent filling, rest⟩

/-! ## Expressions -/

section Built

variable {definitions : List Definition} {parsed extended : Parsed}
  (built : Grammar.build definitions = .ok setting.grammar)
include built

theorem sound_nodeOf {production : Production} {bindings : Bindings} {start : Nat}
    (known : production ∈ setting.grammar.productions)
    (adds : Adds setting source production.elements [] bindings) :
    Sound setting source (nodeOf production bindings start next) := by
  have checked := Grammar.isChecked_of_mem built known
  obtain ⟨fits, sound⟩ := adds.fits checked.distinct
  intro inner mem
  rcases Tree.mem_subtrees.mp mem with rfl | ⟨operand, among, inside⟩
  · exact .node known (Grammar.node?_of_mem built known) checked.compiled fits
  · exact sound operand.1 operand.2 (Tree.mem_treesOf.mp among) inner inside

variable (moving : MovingOperand operand) (operands : SoundOperands setting source (Givable operand))
include moving operands

theorem sound_of_firstStart {productions : List Production}
    (known : ∀ production ∈ productions, production ∈ setting.grammar.productions)
    (inside : cursor.LiesIn source)
    (gives : (firstStart setting operand productions cursor).Gives (some parsed)) :
    Sound setting source parsed.1 := by
  obtain ⟨production, mem, found, matched, finished⟩ := firstStart_gives gives
  obtain ⟨rfl, _⟩ := finish_gives finished
  obtain ⟨final, reads, rfl⟩ := reads_of_matchPattern matched
  have checked := Grammar.isChecked_of_mem built (known production mem)
  exact sound_nodeOf built (known production mem)
    (reads.adds moving operands checked.nonempty inside checked.distinct)

theorem sound_of_firstExtension {floor : Precedence} (sound : Sound setting source parsed.1)
    (inside : parsed.2.LiesIn source)
    (gives : (firstExtension setting operand parsed.1 (setting.grammar.extendingFrom floor)
      parsed.2).Gives (some extended)) : Sound setting source extended.1 := by
  obtain ⟨level, production, found, known, extending, matched, finished⟩ :=
    matched_of_firstExtension built gives
  obtain ⟨rfl, _⟩ := finish_gives finished
  have checked := Grammar.isChecked_of_mem built known
  obtain ⟨constraint, name, rest, shape, _⟩ := checked.starts.extending extending
  have distinct := checked.distinct
  have nonempty := checked.nonempty_tail
  obtain ⟨taken, matched⟩ := matchExtending_gives matched
  rw [shape, List.tail_cons] at matched nonempty
  obtain ⟨final, reads, rfl⟩ := reads_of_matchPattern matched
  refine sound_nodeOf built known ?_
  rw [shape] at distinct ⊢
  have distinctRest : (namesWithin rest).Nodup := by
    rw [namesWithin_cons] at distinct
    exact (List.nodup_append.mp distinct).2.1
  have adds := reads.adds moving operands nonempty inside distinctRest
  have asked : (Element.operand .lhs constraint name).Asks (.tree parsed.1) := by
    refine .operand ?_
    rintro type rfl
    simpa [takes, leftConstraint, shape] using taken
  have soundLeft : ∀ tree, Binding.tree parsed.1 = .tree tree → Sound setting source tree := by
    rintro tree same
    cases same
    exact sound
  have bindings : withLeft production parsed.1 final.bindings =
      Dict.union final.bindings (entriesOf name (.tree parsed.1)) := by
    unfold withLeft
    rw [shape]
    cases name <;> rfl
  rw [bindings]
  exact adds.before asked soundLeft distinct

theorem sound_of_atom (inside : cursor.LiesIn source)
    (gives : (atom setting operand cursor).Gives parsed) : Sound setting source parsed.1 := by
  have there := inside.reaches (Cursor.reaches_skipBlanks cursor)
  cases atom_gives gives with
  | atom started =>
      exact sound_of_firstStart built moving operands
        (fun production mem => (Grammar.mem_of_mem_atoms built mem).1) there started
  | group opened within closed =>
      have opens := Lexeme.starts_of_token? (by decide) opened
      rw [Cursor.skipBlanks_skipBlanks] at opens
      exact (operands _ _ _ (there.reaches opens.2.reaches) within).widen _
  | constant _ found => exact sound_literal _ _
  | opener _ _ started =>
      exact sound_of_firstStart built moving operands
        (fun production mem => (Grammar.mem_of_mem_openers built mem).1) there started
  | reference _ _ _ found => exact sound_of_reference? there found

end Built

/-- Every expression conforms, with everything inside of it. -/
theorem sound_of_expression {definitions : List Definition}
    (built : Grammar.build definitions = .ok setting.grammar) (depth : Nat) :
    SoundOperands setting source (Givable (expression setting depth)) := by
  intro floor cursor parsed inside gives
  -- what extends an expression is read from its end, so that has to lie in the text too
  refine (expression_induction (fun cursor parsed => cursor.LiesIn source →
    Sound setting source parsed.1 ∧ parsed.2.LiesIn source) ?_ ?_ depth _ _ _ gives inside).1
  · intro depth operands cursor parsed started inside
    have moving := passes_of_expression built depth
    have sound := sound_of_atom built moving
      (fun _ _ _ inside gives => (operands _ _ _ gives inside).1) inside started
    exact ⟨sound, inside.reaches (passes_of_atom built moving started).reaches⟩
  · intro depth operands floor cursor parsed extended before extension inside
    have moving := passes_of_expression built depth
    obtain ⟨sound, there⟩ := before inside
    have further := sound_of_firstExtension built moving
      (fun _ _ _ inside gives => (operands _ _ _ gives inside).1) sound there extension
    exact ⟨further, there.reaches (passes_of_firstExtension built moving extension).reaches⟩

/-- In every tree that is read from the start of a text, each node is of a registered production
whose pattern its bindings fit and give its type from, and each reference stands for the field of the
schema that its own text names. -/
theorem conforms_of_atStart {definitions : List Definition} {grammar : Grammar}
    (built : Grammar.build definitions = .ok grammar) {schema : Schema} {limit : Nat}
    {source : String} {parsed : Partial}
    (read : atStart ⟨grammar, schema, limit⟩ source = .ok parsed) :
    ∀ inner ∈ parsed.tree.subtrees, Conforms grammar schema source inner := by
  unfold atStart at read
  split at read
  · next tree cursor ran =>
      cases read
      have gives : (expression ⟨grammar, schema, limit⟩ limit .loosest (.start source)).Gives
          (tree, cursor) := ⟨.empty, ran⟩
      exact sound_of_expression built limit _ _ _ (Cursor.liesIn_start source) gives
  · cases read

theorem conforms_of_atStart_pick :
    ∃ grammar, Grammar.build Grammar.sampleDefinitions = .ok grammar ∧
      ∃ schema, Schema.addField [] "price" "number" = .ok schema ∧
        ∃ parsed, atStart ⟨grammar, schema, 8⟩ "pick price at 3 + (pick price)" = .ok parsed ∧
          ∀ inner ∈ parsed.tree.subtrees,
            Conforms grammar schema "pick price at 3 + (pick price)" inner := by
  have accepted : (match Grammar.build Grammar.sampleDefinitions,
        Schema.addField [] "price" "number" with
      | .ok grammar, .ok schema =>
        (atStart ⟨grammar, schema, 8⟩ "pick price at 3 + (pick price)").isOk
      | _, _ => false) = true := by
    decide +kernel
  split at accepted
  · next grammar schema built added =>
      cases read : atStart ⟨grammar, schema, 8⟩ "pick price at 3 + (pick price)" with
      | error failure =>
          rw [read] at accepted
          cases accepted
      | ok parsed =>
          exact ⟨grammar, built, schema, added, parsed, read, conforms_of_atStart built read⟩
  · cases accepted

end Mixfix.Parse
