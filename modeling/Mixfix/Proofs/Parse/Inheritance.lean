import Mixfix.Proofs.Parse.Conformance

/-!
# Properties that trees inherit

A property of trees is inherited if literals and references have it, parentheses keep it, and a node
that a parse can make has it as soon as the trees it binds do. A node that a parse can make is of a
production of the grammar and no deeper than the limit.

Every tree that a parse comes to has the properties that are inherited (`Inherited.of_returns`). The
induction for expressions (`expression_induction`) leaves an atom and one extension to look at, and
in both of them the induction runs over the walk through a pattern for what the pattern binds
(`Inherited.of_reads`).
-/

set_option autoImplicit false

namespace Mixfix.Parse

/-- A parse of a text, or of the start of it, comes to a tree. -/
def Returns (setting : Setting) (source : String) (tree : Tree) : Prop :=
  whole setting source = .ok tree ∨ ∃ rest, atStart setting source = .ok ⟨tree, rest⟩

variable {setting : Setting} {source : String} {P : Tree → Prop}

/-- What a parse comes to is an expression at the start of the text. -/
theorem Returns.gives {tree : Tree} (returns : Returns setting source tree) :
    ∃ next, (expression setting setting.limit .loosest (.start source)).Gives (tree, next) := by
  rcases returns with filled | ⟨rest, started⟩
  · unfold whole at filled
    split at filled
    · cases filled
    · next found cursor trail ran =>
        dsimp only at filled
        split at filled
        · cases filled
          exact ⟨cursor, .empty, congrArg Prod.fst ran⟩
        · cases filled
  · unfold atStart at started
    split at started
    · next found cursor ran =>
        cases started
        exact ⟨cursor, .empty, ran⟩
    · cases started

/-! ## Bindings -/

/-- The trees among bindings have a property. -/
def BindsOnly (P : Tree → Prop) (bindings : Bindings) : Prop :=
  ∀ name tree, (name, .tree tree) ∈ bindings → P tree

theorem bindsOnly_nil : BindsOnly P [] := by
  intro name tree mem
  cases mem

theorem BindsOnly.union {bindings added : Bindings} (before : BindsOnly P bindings)
    (new : BindsOnly P added) : BindsOnly P (Dict.union bindings added) := by
  intro name tree mem
  exact (Dict.mem_of_mem_union mem).elim (before name tree) (new name tree)

theorem bindsOnly_entriesOf {name : Option String} {binding : Binding}
    (holds : ∀ tree, binding = .tree tree → P tree) : BindsOnly P (entriesOf name binding) := by
  intro key tree mem
  obtain ⟨_, _, same⟩ := List.mem_map.mp mem
  cases same
  exact holds tree rfl

/-! ## Inheritance -/

/-- A property that trees have from what they are made of. -/
structure Inherited (setting : Setting) (P : Tree → Prop) : Prop where
  literal (value : Value) (extent : Extent) : P (.literal value extent)
  reference {cursor : Cursor} {parsed : Parsed}
    (found : reference? setting.schema cursor = .ok (some parsed)) : P parsed.1
  widen {tree : Tree} (span : Span) (holds : P tree) : P (tree.widen span)
  node {production : Production} {bindings : Bindings} {start : Nat} {next : Cursor}
    (known : production ∈ setting.grammar.productions) (inside : BindsOnly P bindings)
    (shallow : (nodeOf production bindings start next).depth ≤ setting.limit) :
    P (nodeOf production bindings start next)

namespace Inherited

variable (inherited : Inherited setting P)
include inherited

/-- A walk through a pattern binds trees that have the property, if its operands have it. -/
theorem of_reads {Operand : Precedence → Cursor → Parsed → Prop}
    (operands : ∀ floor cursor parsed, Operand floor cursor parsed → P parsed.1)
    {precedence : Precedence} {elements : List (Element Descriptor)} {progress final : Progress}
    (walked : Reads setting Operand precedence elements progress final)
    (before : BindsOnly P progress.bindings) : BindsOnly P final.bindings := by
  induction walked with
  | done progress => exact before
  | text found _ ih => exact ih before
  | literal captured _ ih =>
      refine ih ?_
      rw [bindings_bound]
      refine BindsOnly.union before (bindsOnly_entriesOf fun tree same => ?_)
      obtain ⟨next, found⟩ := reference_of_capture? captured same
      exact inherited.reference found
  | operand read accepted _ ih =>
      refine ih ?_
      rw [bindings_bound]
      refine BindsOnly.union before (bindsOnly_entriesOf ?_)
      rintro tree ⟨⟩
      exact operands _ _ _ read
  | present _ _ within ih => exact ih (before.union (within bindsOnly_nil))
  | absent _ ih => exact ih before

section Operands

variable {operand : Operand} (operands : ∀ floor cursor parsed, Givable operand floor cursor parsed →
  P parsed.1) {cursor : Cursor} {parsed : Parsed}
include operands

theorem of_matchPattern {production : Production} {precedence : Precedence}
    {elements : List (Element Descriptor)} {found : Match}
    (gives : (matchPattern setting operand production precedence elements cursor).Gives
      (some found)) : BindsOnly P found.bindings := by
  obtain ⟨final, walked, rfl⟩ := reads_of_matchPattern gives
  exact inherited.of_reads operands walked bindsOnly_nil

theorem of_firstStart {productions : List Production}
    (known : ∀ production ∈ productions, production ∈ setting.grammar.productions)
    (gives : (firstStart setting operand productions cursor).Gives (some parsed)) : P parsed.1 := by
  obtain ⟨production, mem, found, matched, finished⟩ := firstStart_gives gives
  obtain ⟨rfl, shallow⟩ := finish_gives finished
  exact inherited.node (known production mem) (inherited.of_matchPattern operands matched) shallow

variable {definitions : List Definition} (built : Grammar.build definitions = .ok setting.grammar)
include built

theorem of_atom (gives : (atom setting operand cursor).Gives parsed) : P parsed.1 := by
  cases atom_gives gives with
  | atom started =>
      exact inherited.of_firstStart operands
        (fun production mem => (Grammar.mem_of_mem_atoms built mem).1) started
  | group opened within closed => exact inherited.widen _ (operands _ _ _ within)
  | constant shut found => exact inherited.literal _ _
  | opener shut noConstant started =>
      exact inherited.of_firstStart operands
        (fun production mem => (Grammar.mem_of_mem_openers built mem).1) started
  | reference shut noConstant notStarted found => exact inherited.reference found

/-- An expression that is extended becomes an operand of the node that extends it. -/
theorem of_firstExtension {floor : Precedence} {left : Tree} (holds : P left)
    (gives : (firstExtension setting operand left (setting.grammar.extendingFrom floor)
      cursor).Gives (some parsed)) : P parsed.1 := by
  obtain ⟨level, production, found, known, _, matched, finished⟩ :=
    matched_of_firstExtension built gives
  obtain ⟨rfl, shallow⟩ := finish_gives finished
  refine inherited.node known ?_ shallow
  have among := inherited.of_matchPattern operands (matchExtending_gives matched).2
  unfold withLeft
  split
  · intro name tree bound
    rcases Dict.mem_of_mem_insert bound with same | inside
    · cases same
      exact holds
    · exact among name tree inside
  · exact among

end Operands

theorem of_expression {definitions : List Definition}
    (built : Grammar.build definitions = .ok setting.grammar) (depth : Nat) :
    ∀ floor cursor parsed, Givable (expression setting depth) floor cursor parsed → P parsed.1 := by
  refine expression_induction (fun _ parsed => P parsed.1) ?_ ?_ depth
  · intro depth operands cursor parsed started
    exact inherited.of_atom operands built started
  · intro depth operands floor cursor parsed extended holds extension
    exact inherited.of_firstExtension operands built holds extension

/-- Every tree that a parse comes to has what is inherited. -/
theorem of_returns {definitions : List Definition}
    (built : Grammar.build definitions = .ok setting.grammar) {tree : Tree}
    (returns : Returns setting source tree) : P tree := by
  obtain ⟨next, gives⟩ := returns.gives
  exact inherited.of_expression built setting.limit _ _ _ gives

end Inherited

end Mixfix.Parse
