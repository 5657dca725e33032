import Mixfix.Proofs.Standard.Enclosure
import Mixfix.Proofs.Standard.Notes

/-!
# Texts with one parenthesis too many

A text that is an expression is none with another parenthesis before or behind it. Everything up to
the fault is read as it is without the parenthesis (`Written.enclosed`), so the trail holds the notes
of the concatenations in the expression and no others (`leaves_of_written`).

The parenthesis is reported if there is no such note. Otherwise the note that lies farthest is
reported in its place: it tells that the left operand of a concatenation is no number, although the
concatenation has been read (`reports_of_whole`). At an opening parenthesis the note is preferred
because it lies behind it, at a closing one because it lies within the expression.
-/

set_option autoImplicit false

namespace Mixfix.Standard

open Parse Lexeme
open Descriptor (WellFormed)

variable {schema : Schema} {limit depth : Nat} {floor : Precedence} {tree left : Tree}
  {cursor next : Cursor} {notes : List Failure}

/-! ## Concatenations farther on in a text -/

theorem nodeName?_shifted (lead : Nat) (tree : Tree) :
    nodeName? (tree.shifted lead) = nodeName? tree := by
  cases tree <;> simp only [Tree.shifted, nodeName?]

theorem isJoined_shifted {lead : Nat} : IsJoined (tree.shifted lead) left ↔
    ∃ inner, IsJoined tree inner ∧ inner.shifted lead = left := by
  unfold IsJoined
  rw [Tree.subtrees_shifted]
  constructor
  · rintro ⟨_, mem, named, bound⟩
    obtain ⟨node, inside, rfl⟩ := List.mem_map.mp mem
    rw [nodeName?_shifted] at named
    rw [Tree.operands_shifted] at bound
    obtain ⟨⟨name, inner⟩, known, same⟩ := List.mem_map.mp bound
    obtain ⟨rfl, shifted⟩ := Prod.mk.inj same
    exact ⟨inner, ⟨node, inside, named, known⟩, shifted⟩
  · rintro ⟨inner, ⟨node, inside, named, known⟩, rfl⟩
    refine ⟨node.shifted lead, List.mem_map_of_mem inside, by rwa [nodeName?_shifted], ?_⟩
    rw [Tree.operands_shifted]
    exact List.mem_map_of_mem known

theorem Calm.enclosed {level : Nat} (calm : Calm level cursor) (enclosure : Enclosure) :
    Calm level (cursor.enclosed enclosure) := by
  intro c mem tight
  rw [sameAhead_enclosed enclosure cursor c mem]
  exact calm c mem tight

/-! ## Where concatenations stand -/

theorem IsJoined.mem_subtrees (joined : IsJoined tree left) : left ∈ tree.subtrees := by
  obtain ⟨inner, mem, _, bound⟩ := joined
  refine Tree.subtrees_subset tree mem (Tree.mem_subtrees.mpr (.inr ⟨_, bound, ?_⟩))
  exact left.self_mem_subtrees

/-- What is inside of a tree does not start before it. -/
theorem Written.start_le (written : Written schema limit depth floor tree cursor next)
    {inner : Tree} (mem : inner ∈ tree.subtrees) : tree.span.start ≤ inner.span.start := by
  obtain ⟨_, _, start, _, reaches, there⟩ := written.skipBlanks.of_subtree inner mem
  rw [written.stands.2, there.stands.2]
  exact (reaches.trans (Cursor.reaches_skipBlanks start)).offset_le

/-! ## The note that is kept -/

/-- A tree is the left operand of a concatenation inside of another one, and no such operand starts
farther on. -/
structure IsFarthestJoined (tree left : Tree) : Prop where
  joined : IsJoined tree left
  farthest : ∀ other, IsJoined tree other → other.span.start ≤ left.span.start

/-- Of the notes of all concatenations one that lies farthest is kept. -/
theorem Accounts.furthest (accounts : Accounts tree notes) :
    ((Trail.empty.noted notes).furthest = none ∧ ∀ left, ¬ IsJoined tree left) ∨
      ∃ left, (Trail.empty.noted notes).furthest = some (staleNote left) ∧
        IsFarthestJoined tree left := by
  obtain ⟨kept, bound⟩ := Trail.empty.furthest_noted notes
  cases furthest : (Trail.empty.noted notes).furthest with
  | none =>
      refine .inl ⟨rfl, fun left joined => ?_⟩
      obtain ⟨best, some, _⟩ := bound _ (.inl ((accounts _).mpr ⟨left, joined, rfl⟩))
      rw [furthest] at some
      cases some
  | some best =>
      have mem : best ∈ notes := (kept best furthest).resolve_right nofun
      obtain ⟨left, joined, rfl⟩ := (accounts best).mp mem
      refine .inr ⟨left, rfl, joined, fun other inside => ?_⟩
      obtain ⟨_, same, worse⟩ := bound _ (.inl ((accounts _).mpr ⟨other, inside, rfl⟩))
      cases furthest.symm.trans same
      rw [Failure.outranks_eq_false] at worse
      simp only [staleNote] at worse
      omega

/-! ## What is reported -/

/-- What is reported of a text that is an expression but for a parenthesis, by the tree of the
expression, how far on it is, and the failure of the parenthesis. -/
inductive Reports (tree : Tree) (lead : Nat) (parenthesis : Failure) : Failure → Prop
  /-- Without concatenations it is the parenthesis. -/
  | unjoined (without : ∀ left, ¬ IsJoined tree left) : Reports tree lead parenthesis parenthesis
  /-- With concatenations it is that a left operand of one is not what a sum asks for. -/
  | joined {left : Tree} (farthest : IsFarthestJoined tree left) :
      Reports tree lead parenthesis
        ⟨lead + left.span.start, .leftOperand "add" .number left.type⟩

theorem IsFarthestJoined.reports (farthest : IsFarthestJoined tree left) {parenthesis : Failure} :
    Reports tree 0 parenthesis (staleNote left) := by
  rw [staleNote, ← Nat.zero_add left.span.start]
  exact .joined farthest

theorem Reports.of_shifted {lead : Nat} {parenthesis failure : Failure}
    (reports : Reports (tree.shifted lead) 0 parenthesis failure) :
    Reports tree lead parenthesis failure := by
  cases reports with
  | unjoined without =>
      exact .unjoined fun left joined => without _ (isJoined_shifted.mpr ⟨left, joined, rfl⟩)
  | joined farthest =>
      obtain ⟨joined, bound⟩ := farthest
      obtain ⟨left, inside, rfl⟩ := isJoined_shifted.mp joined
      rw [Tree.type_shifted, Tree.span_shifted, Nat.zero_add]
      refine .joined ⟨inside, fun other known => ?_⟩
      have le := bound _ (isJoined_shifted.mpr ⟨other, known, rfl⟩)
      rw [Tree.span_shifted, Tree.span_shifted] at le
      exact Nat.le_of_add_le_add_left le

/-- The failure of a closing parenthesis behind an expression. -/
theorem reports_trailing (written : Written schema limit depth floor tree cursor next)
    (accounts : Accounts tree notes) (stray : next.skipBlanks.rest = [')']) :
    Reports tree 0 ⟨next.skipBlanks.offset, .trailing true "`)`"⟩
      (trailingFailure tree next.skipBlanks (Trail.empty.noted notes)) := by
  have found : (next.skipBlanks.strip? closeParen.toList).isSome = true := by
    simp [Cursor.strip?, stray, closeParen]
  have upcoming : next.skipBlanks.upcoming = "`)`" := by
    rw [Cursor.upcoming, Cursor.skipBlanks_skipBlanks, stray]
    decide
  unfold trailingFailure
  dsimp only
  rw [found, upcoming]
  rcases accounts.furthest with ⟨nothing, without⟩ | ⟨left, furthest, farthest⟩
  · rw [nothing]
    exact .unjoined without
  · have within : tree.span.start ≤ left.span.start :=
      written.start_le farthest.joined.mem_subtrees
    rw [furthest]
    dsimp only
    rw [if_pos]
    · exact farthest.reports
    · simp [staleNote, Failure.kind, Cause.kind, within]

/-- The failure of an opening parenthesis, which lies before an expression. -/
theorem reports_unclosed (accounts : Accounts tree notes) {parenthesis : Failure}
    (mild : parenthesis.isFatal = false)
    (before : ∀ left, IsJoined tree left → parenthesis.offset < left.span.start) :
    Reports tree 0 parenthesis (((Trail.empty.noted notes).see parenthesis).choose parenthesis) := by
  unfold Trail.choose Trail.see
  rw [if_neg (by rw [mild]; decide)]
  rcases accounts.furthest with ⟨nothing, without⟩ | ⟨left, furthest, farthest⟩
  · rw [nothing]
    exact .unjoined without
  · have behind : parenthesis.offset < (staleNote left).offset := before left farthest.joined
    rw [furthest]
    dsimp only
    rw [if_pos behind]
    exact farthest.reports

/-! ## Whole texts -/

/-- Reading an expression of a text in an enclosed text leaves the notes of its concatenations. -/
theorem leaves_enclosed (types : Schema.All WellFormed schema)
    (written : Written schema limit depth floor tree cursor next)
    (atEnd : next.skipBlanks.rest = []) (enclosure : Enclosure) (extra : Nat) :
    ∃ notes, Accounts (tree.shifted enclosure.lead) notes ∧
      (expression (setting schema (limit + 1)) (depth + extra) floor
        (cursor.enclosed enclosure)).Leaves
        (tree.shifted enclosure.lead, next.enclosed enclosure) notes :=
  leaves_of_written types (written.enclosed enclosure (Nat.le_succ limit) extra)
    fun level => (calm_of_atEnd atEnd level).enclosed enclosure

/-- A closing parenthesis behind a text. -/
def parenBehind : Enclosure := ⟨0, [')'], by simp⟩

/-- An opening parenthesis before a text. -/
def parenBefore : Enclosure := ⟨1, [], nofun⟩

theorem start_closed (source : String) :
    Cursor.start (source ++ ")") = (Cursor.start source).enclosed parenBehind := by
  simp [Cursor.start, Cursor.enclosed, parenBehind]

theorem skipBlanks_opened (source : String) :
    (Cursor.start ("(" ++ source)).skipBlanks = ⟨0, '(' :: source.toList⟩ := by
  have whole : Cursor.start ("(" ++ source) = ⟨0, '(' :: source.toList⟩ := by
    simp [Cursor.start]
  rw [whole]
  exact Cursor.advance_zero _

/-- An opening parenthesis at the start of a text is found. -/
theorem token?_opened (source : String) :
    token? table.tokens openParen (.start ("(" ++ source)) =
      some ⟨openParen, ⟨0, 1⟩, (Cursor.start source).enclosed parenBefore⟩ := by
  rw [token?_paren (.inl rfl) toList_openParen (skipBlanks_opened source)]
  simp [Cursor.enclosed, Cursor.start, parenBefore]

theorem reports_closed (types : Schema.All WellFormed schema) {source : String}
    (written : Written schema limit limit .loosest tree (.start source) next)
    (atEnd : next.skipBlanks.rest = []) :
    ∃ failure, whole (setting schema (limit + 1)) (source ++ ")") = .error failure ∧
      Reports tree 0 ⟨source.utf8ByteSize, .trailing true "`)`"⟩ failure := by
  obtain ⟨notes, accounts, read⟩ := leaves_enclosed types written atEnd parenBehind 1
  have ran : run (setting schema (limit + 1)) (source ++ ")") =
      (.ok (tree.shifted 0, next.enclosed parenBehind), Trail.empty.noted notes) := by
    rw [run, start_closed]
    exact read .empty
  have stray : (next.enclosed parenBehind).skipBlanks.rest = [')'] := by
    rw [Cursor.skipBlanks_enclosed, Cursor.enclosed, atEnd]
    rfl
  have behind : (next.enclosed parenBehind).skipBlanks.offset = source.utf8ByteSize := by
    have inside := (Cursor.liesIn_start source).reaches
      (written.reaches.trans (Cursor.reaches_skipBlanks next))
    rw [Cursor.skipBlanks_enclosed, Cursor.enclosed, ← inside.offset_eq atEnd]
    exact Nat.zero_add _
  have reports := reports_trailing (written.enclosed parenBehind (Nat.le_succ limit) 1) accounts stray
  rw [behind] at reports
  refine ⟨_, ?_, reports.of_shifted⟩
  unfold whole
  rw [ran]
  dsimp only
  rw [stray]
  rfl

/-- Behind an opening parenthesis an expression is read, and then the closing one is missing. -/
theorem run_opened {source : String} {parsed : Parsed}
    (read : (expression (setting schema limit) depth .loosest
      ((Cursor.start source).enclosed parenBefore)).Leaves parsed notes)
    (atEnd : parsed.2.skipBlanks.rest = []) :
    ((expression (setting schema limit) (depth + 1) .loosest (.start ("(" ++ source))).run.run
      .empty).1 = .error (((Trail.empty.noted notes).see ⟨0, .unclosedParen "end of input"⟩).choose
        ⟨0, .unclosedParen "end of input"⟩) := by
  have missing : token? table.tokens closeParen parsed.2 = none := by
    refine token?_eq_none_of_head (by decide) ?_
    rw [atEnd]
    decide
  have upcoming : parsed.2.upcoming = "end of input" := by
    rw [Cursor.upcoming, atEnd]
  rw [expression, climb, Step.run_bind, atom_of_noAtoms atoms_table, token?_opened]
  dsimp only
  rw [parenthesized, Step.run_bind, read .empty]
  dsimp only
  rw [missing, upcoming]
  rfl

theorem reports_opened (types : Schema.All WellFormed schema) {source : String}
    (written : Written schema limit limit .loosest tree (.start source) next)
    (atEnd : next.skipBlanks.rest = []) :
    ∃ failure, whole (setting schema (limit + 1)) ("(" ++ source) = .error failure ∧
      Reports tree 1 ⟨0, .unclosedParen "end of input"⟩ failure := by
  obtain ⟨notes, accounts, read⟩ := leaves_enclosed types written atEnd parenBefore 0
  have behind : (next.enclosed parenBefore).skipBlanks.rest = [] := by
    rw [Cursor.skipBlanks_enclosed, Cursor.enclosed, atEnd]
    rfl
  have inside : ∀ left, IsJoined (tree.shifted parenBefore.lead) left → 0 < left.span.start := by
    intro left joined
    obtain ⟨inner, _, rfl⟩ := isJoined_shifted.mp joined
    rw [Tree.span_shifted]
    exact Nat.lt_of_lt_of_le Nat.zero_lt_one (Nat.le_add_right _ _)
  have reports : Reports (tree.shifted parenBefore.lead) 0 ⟨0, .unclosedParen "end of input"⟩ _ :=
    reports_unclosed accounts rfl inside
  refine ⟨_, ?_, reports.of_shifted⟩
  have failed : (run (setting schema (limit + 1)) ("(" ++ source)).1 = .error _ :=
    run_opened read behind
  unfold whole
  rcases ran : run (setting schema (limit + 1)) ("(" ++ source) with ⟨outcome, trail⟩
  rw [ran] at failed
  dsimp only at failed
  rw [failed]

/-- A text that is an expression is none with another parenthesis, and what is reported then is the
parenthesis or, if there is a concatenation, that its left operand is no number. -/
theorem reports_of_whole {grammar : Grammar} (built : Standard.grammar = .ok grammar)
    (schemaBuilt : Schema.IsBuilt schema) {source : String}
    (read : whole ⟨grammar, schema, limit⟩ source = .ok tree) :
    (∃ failure, whole ⟨grammar, schema, limit + 1⟩ (source ++ ")") = .error failure ∧
      Reports tree 0 ⟨source.utf8ByteSize, .trailing true "`)`"⟩ failure) ∧
    ∃ failure, whole ⟨grammar, schema, limit + 1⟩ ("(" ++ source) = .error failure ∧
      Reports tree 1 ⟨0, .unclosedParen "end of input"⟩ failure := by
  obtain rfl : table = grammar := Except.ok.inj (grammar_eq.symm.trans built)
  obtain ⟨next, written, _, atEnd⟩ := whole_ok_iff.mp read
  exact ⟨reports_closed schemaBuilt.wellFormed written atEnd,
    reports_opened schemaBuilt.wellFormed written atEnd⟩

theorem reports_of_whole_joined :
    ∃ tree, whole ⟨table, [], 8⟩ "'a' + ('b' + 'c')" = .ok tree ∧
      (∃ failure, whole ⟨table, [], 9⟩ "'a' + ('b' + 'c'))" = .error failure ∧
        Reports tree 0 ⟨17, .trailing true "`)`"⟩ failure) ∧
      ∃ failure, whole ⟨table, [], 9⟩ "('a' + ('b' + 'c')" = .error failure ∧
        Reports tree 1 ⟨0, .unclosedParen "end of input"⟩ failure := by
  have accepted : (whole ⟨table, [], 8⟩ "'a' + ('b' + 'c')").isOk = true := by
    decide +kernel
  cases ok : whole ⟨table, [], 8⟩ "'a' + ('b' + 'c')" with
  | error failure =>
      rw [ok] at accepted
      cases accepted
  | ok tree =>
      have closes : "'a' + ('b' + 'c')" ++ ")" = "'a' + ('b' + 'c'))" := by decide
      have opens : "(" ++ "'a' + ('b' + 'c')" = "('a' + ('b' + 'c')" := by decide
      have size : "'a' + ('b' + 'c')".utf8ByteSize = 17 := by decide
      have reports := reports_of_whole grammar_eq .empty ok
      rw [closes, opens, size] at reports
      exact ⟨tree, rfl, reports⟩

/-- That a parenthesis is one too many is not always reported: behind the concatenation of two texts
it is reported that the first one is no number. -/
theorem not_unbalanced_of_whole :
    ¬ ∀ (grammar : Grammar), Standard.grammar = .ok grammar → ∀ (schema : Schema),
      Schema.IsBuilt schema → ∀ (limit : Nat) (source : String) (tree : Tree),
        whole ⟨grammar, schema, limit⟩ source = .ok tree →
        (∃ failure, whole ⟨grammar, schema, limit + 1⟩ (source ++ ")") = .error failure ∧
          failure.kind = .unbalancedParen ∧ failure.offset = source.utf8ByteSize) ∧
        ∃ failure, whole ⟨grammar, schema, limit + 1⟩ ("(" ++ source) = .error failure ∧
          failure.kind = .unbalancedParen ∧ failure.offset = 0 := by
  intro unbalanced
  have other : (match whole ⟨table, [], 8⟩ "'a' + 'b'", whole ⟨table, [], 9⟩ "'a' + 'b')" with
      | .ok _, .error failure => failure.kind == .typeMismatch
      | _, _ => false) = true := by
    decide +kernel
  split at other
  · next tree mismatch ok failed =>
      obtain ⟨⟨failure, same, kind, _⟩, _⟩ := unbalanced table grammar_eq [] .empty _ _ _ ok
      have closes : "'a' + 'b'" ++ ")" = "'a' + 'b')" := by decide
      rw [closes] at same
      cases failed.symm.trans same
      rw [kind] at other
      cases other
  · cases other

end Mixfix.Standard
