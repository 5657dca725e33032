import Mixfix.Proofs.Parse.Hosted
import Mixfix.Proofs.Parse.Inheritance
import Mixfix.Proofs.Tree.Shape

/-!
# Depths of parses and of trees

A parse is limited in two ways. An expression is refused when too many others have been entered and
not been left, and a node is refused when its tree is too deep; the latter bounds chains of
extensions, which grow without entering an expression.

**Trees.** The depth that a node keeps is the height of its tree, and in a tree that a parse comes to
neither exceeds the limit anywhere (`Truthful`). Both are inherited, since a node takes its depth
from the trees it binds.

**Calls.** The gauge of a parse is the count of expressions that were entered and not left. A parse
with a gauge raises and lowers it around every expression and compares it with the limit to refuse
one (`Gauged.expression`). Whatever the outcome of a part of the parse is, the gauge is back where
it was (`Steady`), so the parse does what the parser does, which goes by what is left of the limit;
and the expressions that are being climbed at a moment are never more than the limit
(`steady_expression`).
-/

set_option autoImplicit false

namespace Mixfix

/-! ## Depths of trees -/

/-- Everything inside of a tree is as deep as it says, and no deeper than a limit. -/
def Tree.Truthful (limit : Nat) (tree : Tree) : Prop :=
  ∀ inner ∈ tree.subtrees, inner.depth = inner.height ∧ inner.depth ≤ limit

namespace Parse

variable {α β : Type} {setting : Setting}

/-- That a tree says how deep it is, and is within the limit, is inherited. -/
theorem inherited_truthful (positive : 0 < setting.limit) :
    Inherited setting (Tree.Truthful setting.limit) where
  literal value extent := by
    intro inner mem
    rw [List.mem_singleton.mp mem]
    exact ⟨by rw [Tree.depth, Tree.height], positive⟩
  reference {cursor parsed} found := by
    obtain ⟨path, entry, _, _, _, same, _, _⟩ := reference?_ok found
    intro inner mem
    rw [same] at mem
    rw [List.mem_singleton.mp mem]
    exact ⟨by rw [Tree.depth, Tree.height], positive⟩
  widen {tree} span holds := by
    intro inner mem
    rcases Tree.mem_subtrees.mp mem with rfl | ⟨operand, known, inside⟩
    · rw [Tree.depth_widen, Tree.height_widen]
      exact holds tree tree.self_mem_subtrees
    · rw [Tree.operands_widen] at known
      exact holds inner (Tree.mem_subtrees.mpr (.inr ⟨operand, known, inside⟩))
  node {production bindings start next} _ inside shallow := by
    intro inner mem
    rcases Tree.mem_subtrees.mp mem with rfl | ⟨operand, known, within⟩
    · refine ⟨?_, shallow⟩
      rw [nodeOf, Tree.ofMatch, Tree.height]
      exact Bindings.depth_eq_height fun name tree bound =>
        (inside name tree bound tree tree.self_mem_subtrees).1
    · exact inside operand.1 operand.2 (Tree.mem_treesOf.mp known) inner within

/-- Under a limit of zero, no expression is read. -/
theorem limit_pos_of_returns {source : String} {tree : Tree}
    (returns : Returns setting source tree) : 0 < setting.limit := by
  obtain ⟨next, gives⟩ := returns.gives
  refine Nat.pos_of_ne_zero fun none => ?_
  rw [none] at gives
  exact Step.not_gives_raise _ _ gives

/-- In a tree that a parse comes to, everything is as deep as it says, and within the limit. -/
theorem truthful_of_returns {definitions : List Definition}
    (built : Grammar.build definitions = .ok setting.grammar) {source : String} {tree : Tree}
    (returns : Returns setting source tree) : tree.Truthful setting.limit :=
  (inherited_truthful (limit_pos_of_returns returns)).of_returns built returns

/-! ## Gauges -/

/-- How far a parse is in calls of itself. -/
structure Gauge where
  /-- The count of expressions that were entered and not left. -/
  entered : Nat
  /-- The count of expressions that are being climbed. -/
  climbing : Nat
  /-- All values that the count of expressions that are being climbed has had, the latest first. -/
  moments : List Nat

namespace Gauge

/-- Before a parse. -/
def zero : Gauge := ⟨0, 0, []⟩

/-- Enters an expression. -/
def enter (gauge : Gauge) : Gauge := { gauge with entered := gauge.entered + 1 }

/-- Leaves an expression. -/
def leave (gauge : Gauge) : Gauge := { gauge with entered := gauge.entered - 1 }

/-- Has another count of expressions that are being climbed. -/
def moved (gauge : Gauge) (climbing : Nat) : Gauge :=
  { gauge with climbing, moments := climbing :: gauge.moments }

/-- Starts to climb. -/
def start (gauge : Gauge) : Gauge := gauge.moved (gauge.climbing + 1)

/-- Stops climbing. -/
def stop (gauge : Gauge) : Gauge := gauge.moved (gauge.climbing - 1)

end Gauge

/-- An action of a parse with a gauge. It has no result where calls go deeper than it can follow. -/
abbrev Gauged := StateT Gauge (OptionT (StateM Trail))

namespace Gauged

/-- Reads an expression with a gauge, where calls are followed down to a depth. -/
def expression (setting : Setting) : Nat → HostedOperand Gauged
  | 0 => fun _ _ => ExceptT.mk failure
  | depth + 1 => fun floor cursor => ExceptT.mk do
    modify Gauge.enter
    let answer ← (if setting.limit < (← get).entered then
        liftM (Step.raise ⟨cursor.skipBlanks.offset, .tooDeep setting.limit⟩ : Step Parsed).run
      else do
        modify Gauge.start
        -- A failure is an answer as well, so what follows is done on every way out.
        let answer ← (Hosted.climb setting (expression setting depth) floor cursor).run
        modify Gauge.stop
        pure answer)
    modify Gauge.leave
    pure answer

/-- Runs an action from a gauge and a trail. -/
def runFrom (gauged : Gauged α) (gauge : Gauge) (trail : Trail) : Option (α × Gauge) × Trail :=
  ((gauged.run gauge).run).run trail

theorem runFrom_bind (gauged : Gauged α) (next : α → Gauged β) (gauge : Gauge) (trail : Trail) :
    (gauged >>= next).runFrom gauge trail =
      match gauged.runFrom gauge trail with
      | (some (a, gauge'), trail') => (next a).runFrom gauge' trail'
      | (none, trail') => (none, trail') := by
  unfold runFrom
  rw [StateT.run_bind, OptionT.run_bind, Option.elimM, StateT.run_bind]
  rcases (gauged.run gauge).run.run trail with ⟨_ | ⟨a, gauge'⟩, trail'⟩
  · rfl
  · rfl

@[simp]
theorem runFrom_pure (a : α) (gauge : Gauge) (trail : Trail) :
    (pure a : Gauged α).runFrom gauge trail = (some (a, gauge), trail) := rfl

@[simp]
theorem runFrom_get (gauge : Gauge) (trail : Trail) :
    (get : Gauged Gauge).runFrom gauge trail = (some (gauge, gauge), trail) := rfl

@[simp]
theorem runFrom_modify (change : Gauge → Gauge) (gauge : Gauge) (trail : Trail) :
    (modify change : Gauged Unit).runFrom gauge trail = (some ((), change gauge), trail) := rfl

@[simp]
theorem runFrom_liftM (action : StateM Trail α) (gauge : Gauge) (trail : Trail) :
    (liftM action : Gauged α).runFrom gauge trail =
      (some ((action.run trail).1, gauge), (action.run trail).2) := rfl

variable {depth : Nat} {floor : Precedence} {cursor : Cursor} {gauge : Gauge} {trail : Trail}

/-- Above the limit, an expression is entered, refused and left. -/
theorem runFrom_refused (above : setting.limit < gauge.enter.entered) :
    (expression setting (depth + 1) floor cursor).run.runFrom gauge trail =
      (some (((Parse.expression setting 0 floor cursor).run.run trail).1, gauge.enter.leave),
        ((Parse.expression setting 0 floor cursor).run.run trail).2) := by
  simp only [expression, ExceptT.run_mk, runFrom_bind, runFrom_modify, runFrom_get, if_pos above,
    runFrom_liftM, runFrom_pure]
  rfl

/-- Within the limit, an expression is entered, climbed and left. -/
theorem runFrom_climbed (within : gauge.enter.entered ≤ setting.limit)
    {answer : Except Failure Parsed} {gauge' : Gauge} {trail' : Trail}
    (climbed : (Hosted.climb setting (expression setting depth) floor cursor).run.runFrom
      gauge.enter.start trail = (some (answer, gauge'), trail')) :
    (expression setting (depth + 1) floor cursor).run.runFrom gauge trail =
      (some (answer, gauge'.stop.leave), trail') := by
  simp only [expression, ExceptT.run_mk, runFrom_bind, runFrom_modify, runFrom_get,
    if_neg (Nat.not_lt.mpr within), climbed, runFrom_pure]

end Gauged

/-! ## What is steady -/

/-- From a gauge at a count, an action does what the parser's does and leaves the gauge at this
count, and in between never more expressions are being climbed than the limit. -/
def Steady (limit count : Nat) (gauged : Gauged α) (action : StateM Trail α) : Prop :=
  ∀ moments trail, (∀ climbing ∈ moments, climbing ≤ limit) →
    ∃ later, (∀ climbing ∈ later, climbing ≤ limit) ∧
      gauged.runFrom ⟨count, count, moments⟩ trail =
        (some ((action.run trail).1, ⟨count, count, later⟩), (action.run trail).2)

/-- What is steady is kept when actions are put together. -/
def steady (limit count : Nat) : Simulation Gauged where
  Rel := Steady limit count
  of_pure a := fun moments trail bounded => ⟨moments, bounded, rfl⟩
  bind first rest := by
    intro moments trail bounded
    obtain ⟨between, bounded', ran⟩ := first moments trail bounded
    obtain ⟨later, bounded'', ran'⟩ := rest _ between _ bounded'
    refine ⟨later, bounded'', ?_⟩
    rw [Gauged.runFrom_bind, ran]
    exact ran'
  of_lift action := fun moments trail bounded => ⟨moments, bounded, rfl⟩

/-- An expression that is read with a gauge at a count is steady, if what the parser has left of the
limit is what is missing to it from the count. -/
theorem steady_expression {depth count left : Nat} (shared : count + left = setting.limit)
    (enough : left < depth) :
    (steady setting.limit count).RelOperand (Gauged.expression setting depth)
      (expression setting left) := by
  -- The calls of an expression have one less left and find the gauge at one more.
  induction left generalizing count depth with
  | zero =>
      obtain ⟨depth, rfl⟩ := Nat.exists_eq_succ_of_ne_zero (Nat.ne_of_gt enough)
      intro floor cursor moments trail bounded
      have above : setting.limit < (Gauge.enter ⟨count, count, moments⟩).entered :=
        Nat.lt_succ_of_le (Nat.le_of_eq shared.symm)
      exact ⟨moments, bounded, Gauged.runFrom_refused above⟩
  | succ left ih =>
      obtain ⟨depth, rfl⟩ := Nat.exists_eq_succ_of_ne_zero (Nat.ne_of_gt (Nat.zero_lt_of_lt enough))
      have calls : (steady setting.limit (count + 1)).RelOperand (Gauged.expression setting depth)
          (expression setting left) := ih (by omega) (Nat.lt_of_succ_lt_succ enough)
      intro floor cursor moments trail bounded
      have within : (Gauge.enter ⟨count, count, moments⟩).entered ≤ setting.limit := by
        show count + 1 ≤ setting.limit
        omega
      obtain ⟨later, bounded', climbed⟩ := Simulation.rel_climb _ calls floor cursor
        ((count + 1) :: moments) trail (List.forall_mem_cons.mpr ⟨within, bounded⟩)
      exact ⟨count :: later, List.forall_mem_cons.mpr ⟨Nat.le_of_succ_le within, bounded'⟩,
        Gauged.runFrom_climbed within climbed⟩

/-- Runs a parse of a text from its start with a gauge. -/
def runGauged (setting : Setting) (source : String) (depth : Nat) :
    Option (Except Failure Parsed × Gauge) × Trail :=
  (Gauged.expression setting depth .loosest (.start source)).run.runFrom .zero .empty

/-- **Depths are truthful and bounded.** With any grammar that was built, any schema and any limit,
every tree inside of a tree that a parse comes to is as deep as it says, and no deeper than the
limit. A parse with a gauge whose calls are followed farther down than the limit has the outcome of
the parse, be it a tree or a failure; it ends with nothing entered, and at no moment were more
expressions being climbed than the limit. -/
theorem depths_bounded {definitions : List Definition}
    (built : Grammar.build definitions = .ok setting.grammar) (source : String) :
    (∀ tree, Returns setting source tree → ∀ inner ∈ tree.subtrees,
      inner.depth = inner.height ∧ inner.depth ≤ setting.limit) ∧
      ∀ depth, setting.limit < depth → ∃ moments,
        runGauged setting source depth =
          (some ((run setting source).1, ⟨0, 0, moments⟩), (run setting source).2) ∧
        ∀ climbing ∈ moments, climbing ≤ setting.limit := by
  refine ⟨fun tree returns => truthful_of_returns built returns, fun depth enough => ?_⟩
  obtain ⟨moments, bounded, ran⟩ := steady_expression (Nat.zero_add setting.limit) enough .loosest
    (.start source) [] .empty (List.forall_mem_nil _)
  exact ⟨moments, ran, bounded⟩

theorem depths_bounded_nested :
    ∃ grammar, Grammar.build Grammar.sampleDefinitions = .ok grammar ∧
      ∃ tree, whole ⟨grammar, [], 4⟩ "1 + ((2) + 3)" = .ok tree ∧ tree.depth = 3 ∧
        (∀ inner ∈ tree.subtrees, inner.depth = inner.height ∧ inner.depth ≤ 4) ∧
        ∃ moments, runGauged ⟨grammar, [], 4⟩ "1 + ((2) + 3)" 5 =
            (some ((run ⟨grammar, [], 4⟩ "1 + ((2) + 3)").1, ⟨0, 0, moments⟩),
              (run ⟨grammar, [], 4⟩ "1 + ((2) + 3)").2) ∧
          ∀ climbing ∈ moments, climbing ≤ 4 := by
  have accepted : (match Grammar.build Grammar.sampleDefinitions with
      | .ok grammar => (whole ⟨grammar, [], 4⟩ "1 + ((2) + 3)").toOption.any (·.depth == 3)
      | .error _ => false) = true := by
    decide +kernel
  split at accepted
  · next grammar built =>
      obtain ⟨tree, read, deep⟩ := exists_ok_of_any accepted
      have bounded := @depths_bounded ⟨grammar, [], 4⟩ _ built "1 + ((2) + 3)"
      exact ⟨grammar, built, tree, read, beq_iff_eq.mp deep, bounded.1 tree (.inl read),
        bounded.2 5 (Nat.lt_succ_self 4)⟩
  · cases accepted

/-- Two expressions are climbed when the third one is refused. -/
example : (match Grammar.build Grammar.sampleDefinitions with
    | .ok grammar => (runGauged ⟨grammar, [], 2⟩ "1 + ((2) + 3)" 3).1.map (·.2.moments)
    | .error _ => none) = some [0, 1, 2, 1] := by
  decide +kernel

end Parse

end Mixfix
