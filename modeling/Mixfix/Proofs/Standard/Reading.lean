import Mixfix.Proofs.Standard.Written

/-!
# The standard parser reads what is written

The parser of the standard language gives a tree between two cursors exactly if the tree is written
there (`gives_iff_written`), and then it yields it whatever it met before
(`yields_of_written`). Both directions follow the recursion over the depth that is left: an
expression is an atom and a chain of extensions, and the operands inside are expressions of a
smaller depth.
-/

set_option autoImplicit false

namespace Mixfix.Standard

open Parse Lexeme

/-- What a parse of the standard language goes by. -/
abbrev setting (schema : Schema) (limit : Nat) : Setting := ⟨table, schema, limit⟩

variable {schema : Schema} {limit depth : Nat} {floor : Precedence} {operand : Operand}

/-! ## What is given is written -/

/-- Whatever the operand reader gives is written with the depth, and ends there. -/
def Sound (schema : Schema) (limit depth : Nat) (operand : Operand) : Prop :=
  ∀ floor cursor tree next, (operand floor cursor).Gives (tree, next) →
    Written schema limit depth floor tree cursor next ∧ Stops floor tree next

theorem Opener.precedence_eq : ∀ op ∈ openers, op.production.precedence = openerFloor := by
  decide

theorem written_of_opener (sound : Sound schema limit depth operand) {cursor : Cursor}
    {parsed : Parsed} (shut : token? table.tokens openParen cursor = none)
    (noConstant : constant? cursor = .ok none)
    (gives : (firstStart (setting schema limit) operand table.openers cursor.skipBlanks).Gives
      (some parsed)) :
    Written schema limit (depth + 1) floor parsed.1 cursor parsed.2 := by
  obtain ⟨production, mem, found, matched, finished⟩ := firstStart_gives gives
  rw [openers_table] at mem
  obtain ⟨op, known, rfl⟩ := List.mem_map.mp mem
  obtain ⟨final, reads, rfl⟩ := reads_of_matchPattern matched
  obtain ⟨lexeme, tree, next, led, read, accepted, rfl⟩ := reads_opener.mp reads
  obtain ⟨rfl, shallow⟩ := finish_gives finished
  rw [token?_skipBlanks] at led
  rw [op.precedence_eq known] at read
  obtain ⟨inside, ends⟩ := sound _ _ _ _ read
  exact .opener known shut noConstant led inside ends accepted shallow

theorem written_of_atom (sound : Sound schema limit depth operand) {cursor : Cursor}
    {parsed : Parsed} (gives : (atom (setting schema limit) operand cursor).Gives parsed) :
    Written schema limit (depth + 1) floor parsed.1 cursor parsed.2 := by
  have origin := atom_gives gives
  cases origin with
  | atom started =>
      rw [atoms_table, firstStart] at started
      cases Step.Gives.of_pure started
  | group opened inside closed =>
      rw [token?_skipBlanks] at opened
      obtain ⟨written, ends⟩ := sound _ _ _ _ inside
      exact .group opened written ends closed
  | constant shut found =>
      rw [token?_skipBlanks] at shut
      rw [constant?_skipBlanks] at found
      exact .constant shut found
  | opener shut noConstant started =>
      rw [token?_skipBlanks] at shut
      rw [constant?_skipBlanks] at noConstant
      exact written_of_opener sound shut noConstant started
  | reference shut noConstant notStarted found =>
      rw [token?_skipBlanks] at shut
      rw [constant?_skipBlanks] at noConstant
      rw [reference?_skipBlanks] at found
      refine .field shut noConstant (fun op known => ?_) found
      have tried := firstStart_gives_none notStarted op.production
        (by rw [openers_table]; exact List.mem_map_of_mem known)
      have missing := token?_eq_none_of_gives_none tried
      rwa [token?_skipBlanks] at missing

/-- An extension of what is written is written, and takes characters ahead. -/
theorem written_of_extension (sound : Sound schema limit depth operand) {start middle : Cursor}
    {left : Tree} {parsed : Parsed} (before : Written schema limit (depth + 1) floor left start middle)
    (gives : (firstExtension (setting schema limit) operand left (table.extendingFrom floor)
      middle).Gives (some parsed)) :
    Written schema limit (depth + 1) floor parsed.1 start parsed.2 ∧
      parsed.2.rest.length < middle.rest.length := by
  obtain ⟨earlier, level, production, later, found, same, passed, matched, finished⟩ :=
    firstExtension_gives gives
  obtain ⟨taken, matched⟩ := matchExtending_gives matched
  obtain ⟨final, reads, rfl⟩ := reads_of_matchPattern matched
  rw [extendingFrom_table] at same
  have mem : (level, production) ∈ candidates.filter fun c => floor.atMost (.level c.1) := by
    rw [same]
    simp
  obtain ⟨mem, tight⟩ := List.mem_filter.mp mem
  -- the candidates before this one were passed over because they do not fit
  have first : ahead table production middle = true →
      extender? left middle = some (level, production) := by
    intro stands
    have found : (candidates.filter fun c => floor.atMost (.level c.1)).find? (fits left middle) =
        some (level, production) := by
      rw [List.find?_eq_some_iff_append]
      refine ⟨fits_iff.mpr ⟨taken, stands⟩, earlier, later, same, fun other inside => ?_⟩
      have other_mem : other ∈ candidates.filter fun c => floor.atMost (.level c.1) := by
        rw [same]
        exact List.mem_append_left _ inside
      have led := isLed_of_mem (List.mem_filter.mp other_mem).1
      have notBoth := not_ahead_of_matchExtending led (passed other inside)
      cases taken' : takes other.2 left with
      | false => simp [fits, taken']
      | true => simp [fits, notBoth taken']
    exact (find?_filter_candidates.mp found).1
  have shorter {next : Cursor} (passes : middle.skipBlanks.Passes next) :
      next.rest.length < middle.rest.length :=
    ((Cursor.reaches_skipBlanks middle).passes passes).length_lt
  rcases mem_candidates.mp mem with same | ⟨op, known, same⟩
  · obtain ⟨rfl, rfl⟩ := Prod.mk.inj same
    obtain ⟨mark, positive, behind, colon, negative, next, led, read, divided, last, rfl⟩ :=
      reads_choice.mp reads
    obtain ⟨rfl, shallow⟩ := finish_gives finished
    obtain ⟨inside, ends⟩ := sound _ _ _ _ read
    obtain ⟨last, lastEnds⟩ := sound _ _ _ _ last
    refine ⟨.chosen tight before (first (by rw [ahead_choice, led]; rfl)) led inside ends divided
      last lastEnds shallow, shorter ?_⟩
    have behindColon := passes_of_led choice_mem.2 divided last.stands.1
    exact passes_of_led choice_mem.1 led
      (inside.stands.1.trans_reaches ((Cursor.reaches_skipBlanks _).trans behindColon.reaches))
  · obtain ⟨rfl, rfl⟩ := Prod.mk.inj same
    obtain ⟨lexeme, right, next, led, read, accepted, rfl⟩ := reads_infixNode.mp reads
    obtain ⟨rfl, shallow⟩ := finish_gives finished
    obtain ⟨inside, ends⟩ := sound _ _ _ _ read
    refine ⟨.between known tight before (first (by rw [op.ahead_production, led]; rfl)) led inside
      ends accepted shallow, shorter ?_⟩
    exact passes_of_led (op.token_mem known) led inside.stands.1

/-- Whatever the parser gives is written there. -/
theorem written_of_gives (depth : Nat) :
    Sound schema limit depth (expression (setting schema limit) depth) := by
  induction depth with
  | zero =>
      intro floor cursor tree next gives
      exact absurd gives (Step.not_gives_raise _ _)
  | succ depth ih =>
      intro floor cursor tree next gives
      obtain ⟨first, isAtom, extended⟩ := Step.Gives.bind gives
      have started : Written schema limit (depth + 1) floor first.1 cursor first.2 :=
        written_of_atom ih isAtom
      obtain ⟨written, stopped⟩ := extend_gives
        (fun parsed => Written schema limit (depth + 1) floor parsed.1 cursor parsed.2)
        (fun _ _ holds gives => written_of_extension ih holds gives) (Nat.lt_succ_self _) started
        extended
      refine ⟨written, fun c mem tight taken => ?_⟩
      have inside : c ∈ table.extendingFrom floor := by
        rw [extendingFrom_table]
        exact List.mem_filter.mpr ⟨mem, tight⟩
      exact not_ahead_of_matchExtending (isLed_of_mem mem)
        (firstExtension_gives_none stopped c inside) taken

/-! ## What is written is yielded -/

/-- An atom is yielded, and a chain of extensions leads from it to the tree. -/
def Chained (schema : Schema) (limit depth : Nat) (floor : Precedence) (tree : Tree)
    (cursor next : Cursor) : Prop :=
  ∃ first, (atom (setting schema limit) (expression (setting schema limit) depth) cursor).Yields
      first ∧
    Relation.ReflTransGen (Extends (setting schema limit) (expression (setting schema limit) depth)
      (table.extendingFrom floor)) first (tree, next)

/-- Where no candidate fits, extending yields nothing. -/
theorem yields_none_of_stops {tree : Tree} {cursor : Cursor} (stops : Stops floor tree cursor) :
    (firstExtension (setting schema limit) operand tree (table.extendingFrom floor) cursor).Yields
      none := by
  refine firstExtension_yields_none fun c inside => ?_
  rw [extendingFrom_table] at inside
  obtain ⟨mem, tight⟩ := List.mem_filter.mp inside
  refine matchExtending_yields_none (isLed_of_mem mem) ?_
  cases taken : takes c.2 tree with
  | false => rfl
  | true => exact stops c mem tight taken

/-- A chain that ends where no candidate fits is what the parser yields. -/
theorem Chained.yields {tree : Tree} {cursor next : Cursor}
    (chained : Chained schema limit depth floor tree cursor next)
    (stops : Stops floor tree next) :
    (expression (setting schema limit) (depth + 1) floor cursor).Yields (tree, next) := by
  obtain ⟨first, isAtom, chain⟩ := chained
  exact isAtom.bind (extend_yields (Nat.lt_succ_self _) chain (yields_none_of_stops stops))

/-- The extension by the first candidate that fits. -/
theorem firstExtension_yields_of_fits {left : Tree} {cursor : Cursor} {level : UInt32}
    {production : Production} {found : Match} {parsed : Parsed}
    (tight : floor.atMost (.level level) = true)
    (first : extender? left cursor = some (level, production))
    (matched : (matchPattern (setting schema limit) operand production (.level level)
      production.elements.tail cursor).Yields (some found))
    (finished : (finish (setting schema limit) production
      (withLeft production left found.bindings) left.span.start found.next).Yields parsed) :
    (firstExtension (setting schema limit) operand left (table.extendingFrom floor) cursor).Yields
      (some parsed) := by
  have inFilter := find?_filter_candidates.mpr ⟨first, tight⟩
  obtain ⟨here, earlier, later, same, passed⟩ := List.find?_eq_some_iff_append.mp inFilter
  rw [extendingFrom_table, same]
  refine firstExtension_yields (fun other inside => ?_)
    (matchExtending_yields (fits_iff.mp here).1 matched) finished
  have mem : other ∈ candidates.filter fun c => floor.atMost (.level c.1) := by
    rw [same]
    exact List.mem_append_left _ inside
  refine matchExtending_yields_none (isLed_of_mem (List.mem_filter.mp mem).1) ?_
  have missed := passed other inside
  rwa [Bool.not_eq_true'] at missed

theorem Opener.pairwise_token : openers.Pairwise fun op other => op.token ≠ other.token := by
  decide

/-- No other token stands where the one of an operator does, so those tried before are given up. -/
theorem Opener.missing_before {op : Opener} (known : op ∈ openers) {earlier later : List Opener}
    (same : openers = earlier ++ op :: later) {cursor : Cursor} {lexeme : Lexeme String}
    (led : token? table.tokens op.token cursor = some lexeme) :
    ∀ other ∈ earlier, token? table.tokens other.token cursor = none := by
  intro other before
  have listed : other ∈ openers := by
    rw [same]
    exact List.mem_append_left _ before
  have differs : other.token ≠ op.token := by
    have apart := Opener.pairwise_token
    rw [same] at apart
    exact (List.pairwise_append.mp apart).2.2 other before op List.mem_cons_self
  cases found : token? table.tokens other.token cursor with
  | none => rfl
  | some another =>
      exact absurd (token?_unique (other.token_mem listed) (op.token_mem known)
        (Option.isSome_of_eq_some found) (Option.isSome_of_eq_some led)) differs

theorem firstStart_yields_opener {op : Opener} (known : op ∈ openers) {cursor : Cursor}
    {lexeme : Lexeme String} {tree : Tree} {next : Cursor}
    (led : token? table.tokens op.token cursor = some lexeme)
    (inside : (operand openerFloor lexeme.next).Yields (tree, next))
    (accepted : ∀ type ∈ op.demand.type?, type.accepts tree.type = true)
    (shallow : (op.node tree lexeme.span.start next).depth ≤ limit) :
    (firstStart (setting schema limit) operand table.openers cursor).Yields
      (some (op.node tree lexeme.span.start next, next)) := by
  obtain ⟨earlier, later, same⟩ := List.append_of_mem known
  have matched : (matchPattern (setting schema limit) operand op.production
      op.production.precedence op.production.elements cursor).Yields
      (some ⟨[("operand", .tree tree)], lexeme.span.start, next⟩) := by
    refine Reads.matchPattern (reads_opener.mpr ⟨_, _, _, led, ?_, accepted, rfl⟩)
      (by simp [Opener.production, Element.isPlain])
    rw [op.precedence_eq known]
    exact inside
  rw [openers_table, same, List.map_append, List.map_cons]
  refine firstStart_yields (fun other mem => ?_) matched (finish_yields shallow)
  obtain ⟨op', before, rfl⟩ := List.mem_map.mp mem
  exact matchPattern_yields_none (Opener.missing_before known same led op' before)

/-- What is written is reached by a chain of extensions from an atom. -/
theorem chained_of_written {tree : Tree} {cursor next : Cursor}
    (written : Written schema limit depth floor tree cursor next) :
    ∃ inner, depth = inner + 1 ∧ Chained schema limit inner floor tree cursor next := by
  induction written with
  | @constant depth floor cursor lexeme shut found =>
      refine ⟨depth, rfl, _, atom_yields_constant atoms_table ?_ ?_, .refl⟩
      · rwa [token?_skipBlanks]
      · rwa [constant?_skipBlanks]
  | @field depth floor cursor next tree shut noConstant noOpener found =>
      refine ⟨depth, rfl, _, atom_yields_reference atoms_table ?_ ?_ ?_ ?_, .refl⟩
      · rwa [token?_skipBlanks]
      · rwa [constant?_skipBlanks]
      · refine firstStart_yields_none fun production mem => ?_
        rw [openers_table] at mem
        obtain ⟨op, known, rfl⟩ := List.mem_map.mp mem
        refine matchPattern_yields_none ?_
        rw [token?_skipBlanks]
        exact noOpener op known
      · rwa [reference?_skipBlanks]
  | @group depth floor cursor next tree opening closing opened inside ends closed ih =>
      obtain ⟨inner, rfl, chained⟩ := ih
      refine ⟨inner + 1, rfl, _, atom_yields_group atoms_table ?_ (chained.yields ends) closed,
        .refl⟩
      rwa [token?_skipBlanks]
  | @opener depth floor cursor next operand op lexeme known shut noConstant led inside ends
      accepted shallow ih =>
      obtain ⟨inner, rfl, chained⟩ := ih
      refine ⟨inner + 1, rfl, _, atom_yields_opener atoms_table ?_ ?_
        (firstStart_yields_opener known ?_ (chained.yields ends) accepted shallow), .refl⟩
      · rwa [token?_skipBlanks]
      · rwa [constant?_skipBlanks]
      · rwa [token?_skipBlanks]
  | @between depth floor cursor middle next left right op lexeme known tight before chosen led inside
      ends accepted shallow left_ih right_ih =>
      obtain ⟨inner, rfl, chained⟩ := right_ih
      obtain ⟨_, same, first, isAtom, chain⟩ := left_ih
      cases same
      refine ⟨inner + 1, rfl, first, isAtom, chain.tail ⟨?_, ?_⟩⟩
      · refine firstExtension_yields_of_fits tight chosen (Reads.matchPattern
          (reads_infixNode.mpr ⟨_, _, _, led, chained.yields ends, accepted, rfl⟩) ?_)
          (finish_yields shallow)
        simp [Infix.production, Element.isPlain]
      · exact ((Cursor.reaches_skipBlanks middle).passes
          (passes_of_led (op.token_mem known) led inside.stands.1)).length_lt
  | @chosen depth floor cursor middle behind next condition positive negative mark colon tight before
      extended led inside ends divided last lastEnds shallow first_ih second_ih third_ih =>
      obtain ⟨inner, rfl, chained⟩ := second_ih
      obtain ⟨_, same, lastChained⟩ := third_ih
      cases same
      obtain ⟨_, same, first, isAtom, chain⟩ := first_ih
      cases same
      refine ⟨inner + 1, rfl, first, isAtom, chain.tail ⟨?_, ?_⟩⟩
      · refine firstExtension_yields_of_fits tight extended (Reads.matchPattern
          (reads_choice.mpr ⟨_, _, _, _, _, _, led, chained.yields ends, divided,
            lastChained.yields lastEnds, rfl⟩) ?_) (finish_yields shallow)
        simp [choice, Element.isPlain]
      · have behindColon := passes_of_led choice_mem.2 divided last.stands.1
        exact ((Cursor.reaches_skipBlanks middle).passes (passes_of_led choice_mem.1 led
          (inside.stands.1.trans_reaches
            ((Cursor.reaches_skipBlanks _).trans behindColon.reaches)))).length_lt

/-- What is written and ends there the parser yields. -/
theorem yields_of_written {tree : Tree} {cursor next : Cursor}
    (written : Written schema limit depth floor tree cursor next) (stops : Stops floor tree next) :
    (expression (setting schema limit) depth floor cursor).Yields (tree, next) := by
  obtain ⟨inner, rfl, chained⟩ := chained_of_written written
  exact chained.yields stops

/-- The parser gives exactly what is written and ends there. -/
theorem gives_iff_written {tree : Tree} {cursor next : Cursor} :
    (expression (setting schema limit) depth floor cursor).Gives (tree, next) ↔
      Written schema limit depth floor tree cursor next ∧ Stops floor tree next :=
  ⟨written_of_gives depth _ _ _ _,
    fun ⟨written, stops⟩ => (yields_of_written written stops).gives⟩

/-! ## Whole texts -/

theorem run_ok_iff {source : String} {tree : Tree} {next : Cursor} :
    (run (setting schema limit) source).1 = .ok (tree, next) ↔
      Written schema limit limit .loosest tree (.start source) next ∧
        Stops .loosest tree next :=
  ⟨fun ok => gives_iff_written.mp ⟨.empty, ok⟩,
    fun ⟨written, stops⟩ => yields_of_written written stops .empty⟩

/-- A text starts with an expression exactly if one is written there and ends. -/
theorem atStart_ok_iff {source : String} {tree : Tree} {rest : Cursor} :
    atStart (setting schema limit) source = .ok ⟨tree, rest⟩ ↔
      ∃ next, Written schema limit limit .loosest tree (.start source) next ∧
        Stops .loosest tree next ∧ rest = next.skipBlanks := by
  unfold atStart
  constructor
  · intro ok
    split at ok
    · next tree next ran =>
        cases ok
        exact ⟨next, (run_ok_iff.mp ran).1, (run_ok_iff.mp ran).2, rfl⟩
    · cases ok
  · rintro ⟨next, written, stops, rfl⟩
    rw [run_ok_iff.mpr ⟨written, stops⟩]

/-- A text is an expression exactly if one is written there with only blanks behind it. -/
theorem whole_ok_iff {source : String} {tree : Tree} :
    whole (setting schema limit) source = .ok tree ↔
      ∃ next, Written schema limit limit .loosest tree (.start source) next ∧
        Stops .loosest tree next ∧ next.skipBlanks.rest = [] := by
  unfold whole
  constructor
  · intro ok
    split at ok
    · cases ok
    · next found next trail ran =>
        dsimp only at ok
        split at ok
        · next atEnd =>
            cases ok
            have result := run_ok_iff.mp (congrArg Prod.fst ran)
            exact ⟨next, result.1, result.2, List.isEmpty_iff.mp atEnd⟩
        · cases ok
  · rintro ⟨next, written, stops, atEnd⟩
    have result := run_ok_iff.mpr ⟨written, stops⟩
    rcases ran : run (setting schema limit) source with ⟨outcome, trail⟩
    rw [ran] at result
    subst result
    simp only [atEnd, List.isEmpty_nil, if_true]

end Mixfix.Standard
