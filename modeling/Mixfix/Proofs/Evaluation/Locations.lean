import Mathlib.Data.List.Infix
import Mixfix.Proofs.Evaluation.Preconditions
import Mixfix.Proofs.Parse.Inheritance
import Mixfix.Proofs.Schema.Violations

/-!
# Where violations of the data are reported

Data that violates the schema is reported at the first reference that reads a violating field, and
at the start of the expression if there is none (`LocatedAt`). A reference reads a field if their
paths overlap: one of the two is the beginning of the other.

The paths are compared as they are written, with points between the names. The points at the ends
make this a comparison of names: two texts are compared by the names between their points
(`readsPath_iff`). The path of a reference is read back from its text, as words have no points. So
is the path of a field if its names are without points and the first of them is not empty
(`IsPlain`), as are all fields of a schema without such names (`isPlain_of_plainFields`).

For plain fields the location is the one by the paths, and for all fields it is the one by the names
in their texts (`locatedAt_of_violations`). The two differ: a field with a point in its name has the
written path of a field inside of an object (`not_locatedAt_of_violations`).
-/

set_option autoImplicit false

namespace Mixfix

namespace Schema

/-- The path of a field as violations name it. -/
def written (field : List String) : String := field.foldl below ""

/-- The data has a value in place of a field that the field does not describe. -/
def Violates (schema : Schema) (data : Value) (field : List String) : Prop :=
  ∃ entry value, schema.resolve field = some entry ∧ data.lookup field = some value ∧
    entry.descriptor.admits value = false

end Schema

namespace Parse

/-- A path that a reference can have. -/
def IsWords (path : List String) : Prop := path ≠ [] ∧ ∀ name ∈ path, isWord name = true

end Parse

namespace Evaluation

open Parse (IsWords isWord)
open Schema (written)

/-! ## Definitions -/

/-- Two paths overlap if one of them is the beginning of the other. -/
def Overlap (path other : List String) : Prop := path <+: other ∨ other <+: path

/-- The names between the points of a text. -/
def segments (text : String) : List String := (text.toList.splitOn '.').map String.ofList

/-- The path of a field that can be read back from its text: no name has a point, and the first name
is not empty. -/
def IsPlain (field : List String) : Prop :=
  field.head? ≠ some "" ∧ ∀ name ∈ field, '.' ∉ name.toList

/-- The place of what some references of a tree read: the start of the first such reference, or the
start of the tree. -/
inductive LocatedAt (tree : Tree) (reads : List String → Prop) : Nat → Prop
  | reference {path : List String} {span : Span} (mem : (path, span) ∈ tree.references)
      (holds : reads path)
      (first : ∀ other ∈ tree.references, reads other.1 → span.start ≤ other.2.start) :
      LocatedAt tree reads span.start
  | start (none : ∀ reference ∈ tree.references, ¬ reads reference.1) :
      LocatedAt tree reads tree.span.start

variable {path field : List String} {schema : Schema} {data : Value} {tree : Tree}

/-! ## Texts and their names -/

theorem intercalate_append_cons {mark : List Char} {groups : List (List Char)}
    (nonempty : groups ≠ []) (group : List Char) (later : List (List Char)) :
    mark.intercalate (groups ++ group :: later) =
      mark.intercalate groups ++ mark ++ mark.intercalate (group :: later) := by
  induction groups with
  | nil => exact absurd rfl nonempty
  | cons first groups ih =>
      cases groups with
      | nil => rw [List.singleton_append, List.intercalate_cons_cons, List.intercalate_singleton]
      | cons second groups =>
          have rest := ih (List.cons_ne_nil second groups)
          rw [List.cons_append] at rest ⊢
          rw [List.cons_append, List.intercalate_cons_cons, rest, List.intercalate_cons_cons]
          simp only [List.append_assoc]

/-- The pieces of a text begin those of another text if the other text goes on at a mark. -/
theorem splitOn_prefix_iff {mark : Char} {text other : List Char} :
    text.splitOn mark <+: other.splitOn mark ↔ text = other ∨ text ++ [mark] <+: other := by
  constructor
  · rintro ⟨later, same⟩
    have joined := congrArg [mark].intercalate same
    rw [List.intercalate_splitOn] at joined
    cases later with
    | nil =>
        rw [List.append_nil, List.intercalate_splitOn] at joined
        exact .inl joined
    | cons group later =>
        rw [intercalate_append_cons (List.splitOn_ne_nil mark text),
          List.intercalate_splitOn] at joined
        exact .inr ⟨_, joined⟩
  · rintro (rfl | ⟨behind, rfl⟩)
    · exact List.prefix_rfl
    · rw [List.append_assoc, List.singleton_append, List.splitOn_append_cons_self]
      exact List.prefix_append _ _

theorem segments_prefix_iff {text other : String} : segments text <+: segments other ↔
    text = other ∨ (text ++ ".").isPrefixOf other = true := by
  have ofList : Function.Injective String.ofList := fun _ _ same => String.ofList_injective same
  rw [segments, segments, List.prefix_map_iff_of_injective ofList, splitOn_prefix_iff,
    String.toList_inj, String.isPrefixOf, String.startsWith_string_iff, String.toList_append]
  rfl

/-- Written paths are compared by the names between their points. -/
theorem readsPath_iff {text : String} : readsPath path text = true ↔
    Overlap (segments (".".intercalate path)) (segments text) := by
  rw [Overlap, segments_prefix_iff, segments_prefix_iff, readsPath]
  simp only [Bool.or_eq_true, beq_iff_eq]
  grind

theorem segments_intercalate (nonempty : path ≠ []) (plain : ∀ name ∈ path, '.' ∉ name.toList) :
    segments (".".intercalate path) = path := by
  have pieces : ∀ piece ∈ path.map String.toList, '.' ∉ piece := List.forall_mem_map.mpr plain
  have split : (['.'].intercalate (path.map String.toList)).splitOn '.' = path.map String.toList :=
    List.splitOn_intercalate '.' pieces (by simpa using nonempty)
  rw [segments, String.toList_intercalate]
  refine (congrArg (List.map String.ofList) split).trans ?_
  simp

/-- Below a place that has a name each name follows a point. -/
theorem foldl_below {place : String} (named : place ≠ "") (field : List String) :
    (field.foldl Schema.below place).toList = place.toList ++ Parse.dotted field := by
  induction field generalizing place with
  | nil => simp [Parse.dotted]
  | cons name field ih =>
      have further : Schema.below place name = place ++ "." ++ name :=
        if_neg (by simpa using named)
      have nonempty : place ++ "." ++ name ≠ "" := by simp
      rw [List.foldl_cons, further, ih nonempty]
      simp [Parse.dotted]

theorem segments_written (plain : IsPlain field) (nonempty : field ≠ []) :
    segments (written field) = field := by
  have joined : written field = ".".intercalate field := by
    obtain ⟨name, field, rfl⟩ := List.exists_cons_of_ne_nil nonempty
    have named : name ≠ "" := fun empty => plain.1 (congrArg some empty)
    rw [← String.toList_inj, ← Parse.pathText_eq_intercalate]
    exact foldl_below named field
  rw [joined, segments_intercalate nonempty plain.2]

/-! ## Schemas with plain names -/

mutual
/-- Whether no name in the objects of a field is empty or has a point. -/
def plainEntry : Entry → Bool
  | .type _ => true
  | .nested fields => plainFields fields
/-- Whether no name of the fields, or in the objects of them, is empty or has a point. -/
def plainFields : List (String × Entry) → Bool
  | [] => true
  | (name, entry) :: fields =>
    name != "" && !name.toList.contains '.' && plainEntry entry && plainFields fields
end

theorem plain_of_get? {fields : List (String × Entry)} (plain : plainFields fields = true)
    {name : String} {entry : Entry} (found : Dict.get? fields name = some entry) :
    (name ≠ "" ∧ '.' ∉ name.toList) ∧ plainEntry entry = true := by
  induction fields with
  | nil => cases found
  | cons field fields ih =>
      obtain ⟨key, first⟩ := field
      simp only [plainFields, Bool.and_eq_true, bne_iff_ne, Bool.not_eq_true',
        List.contains_eq_mem, decide_eq_false_iff_not] at plain
      rw [Dict.get?_cons] at found
      split at found
      · next same =>
          cases found
          exact same ▸ plain.1
      · exact ih plain.2 found

theorem plain_of_follow {entry last : Entry} (plain : plainEntry entry = true)
    (followed : entry.follow path = some last) : ∀ name ∈ path, name ≠ "" ∧ '.' ∉ name.toList := by
  induction path generalizing entry with
  | nil => exact fun name mem => absurd mem List.not_mem_nil
  | cons name path ih =>
      cases entry with
      | type descriptor => cases followed
      | nested fields =>
          rw [Entry.follow] at followed
          split at followed
          · next inner found =>
              obtain ⟨here, below⟩ := plain_of_get? (by rwa [plainEntry] at plain) found
              exact List.forall_mem_cons.mpr ⟨here, ih below followed⟩
          · cases followed

/-- All fields of a schema with plain names are plain. -/
theorem isPlain_of_plainFields (plain : plainFields schema = true) {entry : Entry}
    (resolved : schema.resolve field = some entry) : IsPlain field := by
  have nested : plainEntry (.nested schema) = true := by rwa [plainEntry]
  have nonempty : field ≠ [] := by
    rintro rfl
    cases resolved
  rw [← Schema.follow_nested nonempty] at resolved
  have names := plain_of_follow nested resolved
  refine ⟨fun first => ?_, fun name mem => (names name mem).2⟩
  exact (names "" (List.mem_of_mem_head? first)).1 rfl

/-! ## Paths of words -/

theorem segments_of_isWords (words : IsWords path) : segments (".".intercalate path) = path := by
  refine segments_intercalate words.1 fun name mem point => ?_
  have inside := Parse.wordChars_of_isWord (words.2 name mem) '.' point
  exact absurd inside (by decide)

/-- A path of words does not overlap with a single name that is no word. -/
theorem not_overlap_of_not_isWord (words : IsWords path) {name : String}
    (noWord : isWord name = false) : ¬ Overlap path [name] := by
  obtain ⟨first, rest, rfl⟩ := List.exists_cons_of_ne_nil words.1
  have word := words.2 first List.mem_cons_self
  rintro (before | behind)
  · obtain ⟨rfl, -⟩ := List.cons_prefix_cons.mp before
    cases noWord.symm.trans word
  · obtain ⟨rfl, -⟩ := List.cons_prefix_cons.mp behind
    cases noWord.symm.trans word

/-- A path of words reads a violation if it overlaps with the written path of the field. That the
data as a whole is named by a dollar sign makes no difference. -/
theorem readsPath_placed_iff (words : IsWords path) (entry : Entry) (text : String) :
    readsPath path (entry.placed text) = true ↔ Overlap path (segments text) := by
  rw [readsPath_iff, segments_of_isWords words]
  unfold Entry.placed
  split
  · rfl
  · split
    · next empty =>
        rw [String.isEmpty_iff] at empty
        subst empty
        exact iff_of_false (not_overlap_of_not_isWord words (by decide))
          (not_overlap_of_not_isWord words (by decide))
    · rfl

/-- A path of words reads one of the violations if it overlaps with the written path of a violating
field. -/
theorem any_readsPath_iff (ordered : schema.Ordered) (words : IsWords path) :
    ((schema.violations data).any fun violation => readsPath path violation.path) = true ↔
      ∃ field, schema.Violates data field ∧ Overlap path (segments (written field)) := by
  rw [List.any_eq_true]
  cases data with
  | object fields =>
      have accounts := Schema.accounts_violations ordered fields
      constructor
      · rintro ⟨violation, mem, reads⟩
        obtain ⟨field, entry, value, resolved, there, refused, rfl⟩ := accounts.mem_iff.mp mem
        exact ⟨field, ⟨entry, value, resolved, there, refused⟩,
          (readsPath_placed_iff words entry _).mp reads⟩
      · rintro ⟨field, ⟨entry, value, resolved, there, refused⟩, overlap⟩
        exact ⟨_, accounts.mem_iff.mpr ⟨field, entry, value, resolved, there, refused, rfl⟩,
          (readsPath_placed_iff words entry _).mpr overlap⟩
  | _ =>
      -- Data that is no object has no fields, and its violation is that of the data as a whole.
      refine iff_of_false ?_ ?_
      · rintro ⟨violation, mem, reads⟩
        cases List.mem_singleton.mp mem
        have outside : ¬ Overlap path [""] := not_overlap_of_not_isWord words (by decide)
        exact outside ((readsPath_placed_iff words (.nested schema) "").mp reads)
      · rintro ⟨field, ⟨entry, value, resolved, there, -⟩, -⟩
        cases field with
        | nil => cases resolved
        | cons name field => cases there

open Parse in
/-- The references of a tree that a parse comes to have paths of words. -/
theorem isWords_of_returns {definitions : List Definition} {setting : Setting}
    (built : Grammar.build definitions = .ok setting.grammar) {source : String}
    (returns : Returns setting source tree) : ∀ path ∈ tree.paths, IsWords path := by
  have inherited : Inherited setting fun tree => ∀ path ∈ tree.paths, IsWords path := by
    constructor
    case literal => exact fun value extent path mem => absurd mem List.not_mem_nil
    case reference =>
      intro cursor parsed found
      obtain ⟨path, entry, -, words, nonempty, same, -⟩ := reference?_ok found
      rw [same]
      exact List.forall_mem_singleton.mpr ⟨nonempty, words⟩
    case widen =>
      intro tree span words
      rwa [Tree.paths_widen]
    case node =>
      intro production bindings start next _ inside _ path mem
      obtain ⟨reference, among, rfl⟩ := List.mem_map.mp mem
      obtain ⟨operand, known, within⟩ := Tree.mem_bindingReferences.mp among
      exact inside operand.1 operand.2 (Tree.mem_treesOf.mp known) _ (List.mem_map_of_mem within)
  exact inherited.of_returns built returns

/-! ## The location -/

theorem LocatedAt.congr {reads reads' : List String → Prop} {offset : Nat}
    (located : LocatedAt tree reads offset) (same : ∀ path ∈ tree.paths, reads path ↔ reads' path) :
    LocatedAt tree reads' offset := by
  have agree {reference : List String × Span} (mem : reference ∈ tree.references) :
      reads reference.1 ↔ reads' reference.1 := same _ (List.mem_map_of_mem mem)
  cases located with
  | reference mem holds first =>
      exact .reference mem ((agree mem).mp holds) fun other among passes =>
        first other among ((agree among).mpr passes)
  | start none => exact .start fun reference mem holds => none reference mem ((agree mem).mpr holds)

/-- The violations are located by the references that read one of them. -/
theorem locatedAt_violationOffset (tree : Tree) (violations : List Violation) :
    LocatedAt tree
      (fun path => (violations.any fun violation => readsPath path violation.path) = true)
      (violationOffset tree violations) := by
  unfold violationOffset
  split
  · next reference found =>
      have mem := mem_identifiers.mp (List.mem_of_find?_eq_some found)
      obtain ⟨holds, -⟩ := List.find?_eq_some_iff_append.mp found
      exact .reference mem holds fun other among passes => start_le_of_find? found among passes
  · next none =>
      exact .start fun reference mem => List.find?_eq_none.mp none _ (mem_identifiers.mpr mem)

/-- Data that violates the schema is reported before anything else. -/
theorem evaluate_of_violations (violated : schema.violations data ≠ []) (evaluator : Grammar)
    (tree : Tree) : evaluate evaluator schema data tree =
      .error ⟨violationOffset tree (schema.violations data),
        .dataViolation (schema.violations data)⟩ := by
  refine evaluate_of_unfit? ?_ evaluator
  unfold unfit?
  split
  · next clean => exact absurd clean violated
  · rfl

open Parse in
/-- **Violations are located.** An evaluation of what a parse came to, over data that violates the
schema, reports the violations at the first reference whose path overlaps with the written path of a
violating field, or at the start of the expression if there is none. If all violating fields are
plain, it is the first reference whose path overlaps with the path of such a field, name by name. -/
theorem locatedAt_of_violations {definitions : List Definition} {setting : Setting}
    (built : Grammar.build definitions = .ok setting.grammar) (ordered : setting.schema.Ordered)
    {source : String} (returns : Returns setting source tree)
    (violated : setting.schema.violations data ≠ []) (evaluator : Grammar) :
    ∃ offset, evaluate evaluator setting.schema data tree =
        .error ⟨offset, .dataViolation (setting.schema.violations data)⟩ ∧
      LocatedAt tree (fun path => ∃ field, setting.schema.Violates data field ∧
        Overlap path (segments (written field))) offset ∧
      ((∀ field, setting.schema.Violates data field → IsPlain field) →
        LocatedAt tree (fun path => ∃ field, setting.schema.Violates data field ∧
          Overlap path field) offset) := by
  have words := isWords_of_returns built returns
  have located := (locatedAt_violationOffset tree (setting.schema.violations data)).congr
    fun path mem => any_readsPath_iff ordered (words path mem)
  refine ⟨_, evaluate_of_violations violated evaluator tree, located,
    fun plain => located.congr fun path _ => ?_⟩
  refine exists_congr fun field => and_congr_right fun violates => ?_
  have nonempty : field ≠ [] := by
    rintro rfl
    obtain ⟨_, _, resolved, -⟩ := violates
    cases resolved
  rw [segments_written (plain field violates) nonempty]

open Parse in
/-- In the sample the age and the city are of a wrong kind, and the first reference that reads one
of them is the one to the age. -/
theorem locatedAt_of_violations_sample :
    ∃ grammar, Grammar.build Grammar.sampleDefinitions = .ok grammar ∧
      ∃ tree, whole ⟨grammar, Schema.sampleFields, 8⟩ "home.number + age" = .ok tree ∧
        ∃ offset, evaluate grammar Schema.sampleFields Schema.sampleData tree = .error
            ⟨offset, .dataViolation (Schema.sampleFields.violations Schema.sampleData)⟩ ∧
          LocatedAt tree (fun path => ∃ field,
            Schema.sampleFields.Violates Schema.sampleData field ∧ Overlap path field) offset := by
  have accepted : (match Grammar.build Grammar.sampleDefinitions with
      | .ok grammar => (whole ⟨grammar, Schema.sampleFields, 8⟩ "home.number + age").isOk
      | _ => false) = true := by
    decide +kernel
  have violated : Schema.sampleFields.violations Schema.sampleData ≠ [] := by
    decide +kernel
  have ordered : Schema.sampleFields.Ordered := by
    simp only [Schema.sampleFields, Schema.ordered_iff, Schema.Inside, Entry.Ordered, Dict.Ordered,
      Dict.names]
    decide
  have plain : plainFields Schema.sampleFields = true := by
    decide +kernel
  split at accepted
  · next grammar built =>
      cases read : whole ⟨grammar, Schema.sampleFields, 8⟩ "home.number + age" with
      | error failure =>
          rw [read] at accepted
          cases accepted
      | ok tree =>
          obtain ⟨offset, failed, -, located⟩ :=
            locatedAt_of_violations built ordered (.inl read) violated grammar
          refine ⟨grammar, built, tree, read, offset, failed, located fun field violates => ?_⟩
          obtain ⟨entry, value, resolved, -⟩ := violates
          exact isPlain_of_plainFields plain resolved
  · cases accepted

/-- A field whose name has a point in it, beside an object whose field has the same written path. -/
def pointedFields : Schema :=
  [("a", .nested [("b", .type .number)]), ("a.b", .type .number)]

/-- Data in which the field whose name has a point is of a wrong kind. -/
def pointedData : Value :=
  .object [("a", .object [("b", .integer 1)]), ("a.b", .string "x")]

/-- No path of a violating field overlaps with the path through the object. -/
theorem not_overlap_of_pointed (violates : pointedFields.Violates pointedData field) :
    ¬ Overlap ["a", "b"] field := by
  obtain ⟨entry, value, resolved, there, refused⟩ := violates
  rintro (⟨behind, rfl⟩ | before)
  · cases behind with
    | nil =>
        cases resolved
        cases there
        cases refused
    | cons name behind => cases resolved
  · have among : field ∈ [[], ["a"], ["a", "b"]] := (List.mem_inits field ["a", "b"]).mpr before
    simp only [List.mem_cons, List.not_mem_nil, or_false] at among
    obtain rfl | rfl | rfl := among <;> cases resolved <;> cases there <;> cases refused

open Parse in
/-- A violating field that no reference reads can have the written path of one that is read. -/
theorem not_locatedAt_of_violations :
    ¬ ∀ (definitions : List Definition) (setting : Setting) (source : String) (tree : Tree)
      (data : Value), Grammar.build definitions = .ok setting.grammar → setting.schema.Ordered →
        Returns setting source tree → setting.schema.violations data ≠ [] →
          ∃ offset, evaluate setting.grammar setting.schema data tree =
              .error ⟨offset, .dataViolation (setting.schema.violations data)⟩ ∧
            LocatedAt tree (fun path => ∃ field, setting.schema.Violates data field ∧
              Overlap path field) offset := by
  intro claimed
  have accepted : (match Grammar.build Grammar.sampleDefinitions with
      | .ok grammar =>
        (whole ⟨grammar, pointedFields, 8⟩ "1 + a.b").toOption.any fun tree =>
          tree.paths == [["a", "b"]] && tree.span.start == 0 &&
            violationOffset tree (pointedFields.violations pointedData) == 4
      | _ => false) = true := by
    decide +kernel
  have violated : pointedFields.violations pointedData ≠ [] := by
    decide +kernel
  have ordered : pointedFields.Ordered := by
    simp only [pointedFields, Schema.ordered_iff, Schema.Inside, Entry.Ordered, Dict.Ordered,
      Dict.names]
    decide
  split at accepted
  · next grammar built =>
      obtain ⟨tree, read, facts⟩ := exists_ok_of_any accepted
      simp only [Bool.and_eq_true, beq_iff_eq] at facts
      obtain ⟨⟨paths, start⟩, place⟩ := facts
      obtain ⟨offset, failed, located⟩ :=
        claimed _ ⟨grammar, pointedFields, 8⟩ _ tree pointedData built ordered (.inl read) violated
      cases (evaluate_of_violations violated grammar tree).symm.trans failed
      rw [place] at located
      generalize same : 4 = offset at located
      cases located with
      | @reference path span mem holds first =>
          obtain ⟨field, violates, overlap⟩ := holds
          have known : path ∈ tree.paths := List.mem_map_of_mem mem
          rw [paths, List.mem_singleton] at known
          subst known
          exact not_overlap_of_pointed violates overlap
      | start none => cases same.trans start
  · cases accepted

end Evaluation

end Mixfix
