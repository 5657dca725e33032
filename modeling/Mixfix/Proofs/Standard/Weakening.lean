import Mixfix.Proofs.Schema.Fitness
import Mixfix.Proofs.Standard.Relaxing
import Mixfix.Proofs.Standard.Settled

/-!
# Expressions of a weaker schema

A text that is one expression need not be one any more when the descriptor of a field is replaced by
`unknown`. The first operator that takes the left operand is committed to, and with a left operand of
any type this is the sum, also where a text is concatenated (`not_whole_retyped`).

Nothing else can go wrong. Where operands end does not depend on types, so both parses divide the text
in the same way, and step by step the second one reads what the first one has read, with other types
(`agrees_settled`). It comes to an end exactly if all concatenations can be chosen anew
(`whole_retyped_iff`).
-/

set_option autoImplicit false

namespace Mixfix.Standard

open Parse Lexeme
open Descriptor (WellFormed)

variable {schema other : Schema} {limit depth : Nat} {floor : Precedence} {tree : Tree}
  {cursor next : Cursor}

/-! ## Reading with another schema -/

/-- Operands are written with another schema as they are read anew, and not in another way. -/
structure Agrees (other : Schema) (Operand Operand' : Writing) : Prop where
  keeps {floor : Precedence} {tree tree' : Tree} {cursor next : Cursor}
    (here : Operand floor tree cursor next) (read : reread? other tree = some tree') :
    Operand' floor tree' cursor next
  unique {floor : Precedence} {tree tree' : Tree} {cursor next next' : Cursor}
    (here : Operand floor tree cursor next) (there : Operand' floor tree' cursor next')
    (calm : Calm floor.rank next) (calm' : Calm floor.rank next') :
    reread? other tree = some tree' ∧ next' = next

section Agrees

variable (weakens : Weakens schema other) {Operand Operand' : Writing}
  (agrees : Agrees other Operand Operand')
  (written : ∀ floor tree cursor next, Operand floor tree cursor next →
    Written schema limit depth floor tree cursor next)
include weakens agrees written

theorem Started.keeps (started : Started schema limit Operand tree cursor next) {tree' : Tree}
    (read : reread? other tree = some tree') : Started other limit Operand' tree' cursor next := by
  cases started with
  | constant shut found =>
      cases read
      exact .constant shut found
  | field shut noConstant noOpener found =>
      obtain ⟨path, _, entry', extent, _, resolved', rfl, found'⟩ :=
        reference?_of_sameShape weakens.shape found
      rw [reread?, resolved'] at read
      cases read
      exact .field shut noConstant noOpener found'
  | group opened inside closed =>
      rw [reread?_widen] at read
      obtain ⟨inner, within, rfl⟩ := Option.map_eq_some_iff.mp read
      exact .group opened (agrees.keeps inside within) closed
  | @opener _ next operand op lexeme known shut noConstant led inside calm accepted shallow =>
      have notText : ∀ op ∈ openers, op.demand ≠ .text := by decide
      obtain ⟨operand', within, rfl⟩ := (reread?_opener known).mp read
      have rereads := (written _ _ _ _ inside).rereads weakens within
      have accepted' := rereads.relaxes _ (notText op known) (Demand.takes_iff.mpr accepted)
      have same := (Rereads.opener known rereads lexeme.span.start next).depth
      exact .opener known shut noConstant led (agrees.keeps inside within) calm
        (Demand.takes_iff.mp accepted') (same ▸ shallow)

omit written in
theorem Started.unique {tree' : Tree} {next' : Cursor}
    (started : Started schema limit Operand tree cursor next)
    (started' : Started other limit Operand' tree' cursor next') :
    reread? other tree = some tree' ∧ next' = next := by
  cases started with
  | constant shut found =>
      cases started' with
      | constant _ found' =>
          rw [found] at found'
          cases found'
          exact ⟨rfl, rfl⟩
      | field _ noConstant' => exact nomatch found.symm.trans noConstant'
      | group opened' => exact nomatch shut.symm.trans opened'
      | opener _ _ noConstant' => exact nomatch found.symm.trans noConstant'
  | field shut noConstant noOpener found =>
      cases started' with
      | constant _ found' => exact nomatch noConstant.symm.trans found'
      | field _ _ _ found' =>
          obtain ⟨path, _, entry', extent, _, resolved', rfl, read⟩ :=
            reference?_of_sameShape weakens.shape found
          rw [read] at found'
          cases found'
          exact ⟨by rw [reread?, resolved', Option.map_some], rfl⟩
      | group opened' => exact nomatch shut.symm.trans opened'
      | opener known' _ _ led' => exact nomatch (noOpener _ known').symm.trans led'
  | group opened inside closed =>
      cases started' with
      | constant shut' => exact nomatch shut'.symm.trans opened
      | field shut' => exact nomatch shut'.symm.trans opened
      | group opened' inside' closed' =>
          rw [opened] at opened'
          cases opened'
          obtain ⟨read, rfl⟩ := agrees.unique inside inside' (calm_of_token (.inl rfl) closed _)
            (calm_of_token (.inl rfl) closed' _)
          rw [closed] at closed'
          cases closed'
          exact ⟨by rw [reread?_widen, read, Option.map_some], rfl⟩
      | opener _ shut' => exact nomatch shut'.symm.trans opened
  | opener known shut noConstant led inside calm accepted shallow =>
      cases started' with
      | constant _ found' => exact nomatch noConstant.symm.trans found'
      | field _ _ noOpener' => exact nomatch (noOpener' _ known).symm.trans led
      | group opened' => exact nomatch shut.symm.trans opened'
      | opener known' _ _ led' inside' calm' =>
          have token := token?_unique (Opener.token_mem _ known) (Opener.token_mem _ known')
            (Option.isSome_of_eq_some led) (Option.isSome_of_eq_some led')
          have distinct : (openers.map Opener.token).Nodup := by decide
          obtain rfl := List.inj_on_of_nodup_map distinct known known' token
          rw [led] at led'
          cases led'
          obtain ⟨read, rfl⟩ := agrees.unique inside inside' calm calm'
          exact ⟨(reread?_opener known).mpr ⟨_, read, rfl⟩, rfl⟩

theorem Joined.keeps {first second : Parsed} {node : Tree}
    (joined : Joined limit Operand floor first second)
    (before : Written schema limit (depth + 1) floor first.1 cursor first.2)
    (read : reread? other second.1 = some node) :
    ∃ left', reread? other first.1 = some left' ∧
      Joined limit Operand' floor (left', first.2) (node, second.2) := by
  have same := ((joined.written written before).rereads weakens read).depth
  cases joined with
  | between known tight chosen led inside calm accepted shallow =>
      obtain ⟨left', right', op', here, there, anew, rfl⟩ := (reread?_between known).mp read
      obtain ⟨known', chosen', accepted'⟩ := (anew?_eq_some_iff known
        (before.rereads weakens here).relaxes ((written _ _ _ _ inside).rereads weakens there).relaxes
        chosen (Demand.takes_iff.mpr accepted)).mp anew
      obtain ⟨token, floors, level⟩ := Infix.alike known known' chosen chosen'
      refine ⟨left', here, .between known' (level ▸ tight) chosen' (token ▸ led) ?_ ?_
        (Demand.takes_iff.mp accepted') (same ▸ shallow)⟩
      · exact floors ▸ agrees.keeps inside there
      · exact floors ▸ calm
  | chosen tight extended led inside divided last calm shallow =>
      obtain ⟨condition', positive', negative', here, there, behind, rfl⟩ := reread?_choice.mp read
      refine ⟨condition', here, .chosen tight ?_ led (agrees.keeps inside there) divided
        (agrees.keeps last behind) calm (same ▸ shallow)⟩
      exact extender?_choice_of_relaxes extended (before.rereads weakens here).relaxes

theorem Joined.unique {first second second' : Parsed} {left' : Tree}
    (joined : Joined limit Operand floor first second)
    (before : Written schema limit (depth + 1) floor first.1 cursor first.2)
    (read : reread? other first.1 = some left')
    (joined' : Joined limit Operand' floor (left', first.2) second') :
    reread? other second.1 = some second'.1 ∧ second'.2 = second.2 := by
  have relaxes := (before.rereads weakens read).relaxes
  cases joined with
  | between known tight chosen led inside calm accepted shallow =>
      cases joined' with
      | between known' _ chosen' led' inside' calm' accepted' =>
          obtain ⟨token, floors, _⟩ := Infix.alike known known' chosen chosen'
          rw [token, led] at led'
          cases led'
          rw [floors] at inside' calm'
          obtain ⟨there, rfl⟩ := agrees.unique inside inside' calm calm'
          have anew := (anew?_eq_some_iff known relaxes
            ((written _ _ _ _ inside).rereads weakens there).relaxes chosen
            (Demand.takes_iff.mpr accepted)).mpr ⟨known', chosen', Demand.takes_iff.mpr accepted'⟩
          exact ⟨(reread?_between known).mpr ⟨_, _, _, read, there, anew, rfl⟩, rfl⟩
      | chosen _ extended' _ _ _ _ _ =>
          exact absurd (tokenOf_eq_of_ahead choice_mem_candidates (Infix.candidate_mem known)
            (extender?_spec extended').2.2 (extender?_spec chosen).2.2).symm
            (Infix.token_ne_choice _ known)
  | chosen tight extended led inside divided last calm shallow =>
      cases joined' with
      | between known' _ chosen' =>
          exact absurd (tokenOf_eq_of_ahead (Infix.candidate_mem known') choice_mem_candidates
            (extender?_spec chosen').2.2 (extender?_spec extended).2.2)
            (Infix.token_ne_choice _ known')
      | chosen _ _ led' inside' divided' last' calm' =>
          rw [led] at led'
          cases led'
          obtain ⟨there, rfl⟩ := agrees.unique inside inside' (calm_of_token (.inr rfl) divided _)
            (calm_of_token (.inr rfl) divided' _)
          rw [divided] at divided'
          cases divided'
          obtain ⟨behind, rfl⟩ := agrees.unique last last' calm calm'
          exact ⟨reread?_choice.mpr ⟨_, _, _, read, there, behind, rfl⟩, rfl⟩

end Agrees

/-- Where an expression is extended an operator stands. -/
theorem Joined.not_calm {Operand : Writing} {first second : Parsed}
    (joined : Joined limit Operand floor first second) : ¬ Calm floor.rank first.2 := by
  intro calm
  cases joined with
  | between known tight chosen =>
      obtain ⟨mem, _, stands⟩ := extender?_spec chosen
      rw [calm _ mem (of_decide_eq_true tight)] at stands
      cases stands
  | chosen tight extended =>
      obtain ⟨mem, _, stands⟩ := extender?_spec extended
      rw [calm _ mem (of_decide_eq_true tight)] at stands
      cases stands

/-- Two chains of extensions, from an expression and from the same one read anew, go on in the same
way until no operator stands ahead. -/
theorem unique_of_chains (weakens : Weakens schema other) {Operand Operand' : Writing}
    (agrees : Agrees other Operand Operand')
    (written : ∀ floor tree cursor next, Operand floor tree cursor next →
      Written schema limit depth floor tree cursor next)
    {first last last' : Parsed} {first' : Tree}
    (chain : Relation.ReflTransGen (Joined limit Operand floor) first last)
    (chain' : Relation.ReflTransGen (Joined limit Operand' floor) (first', first.2) last')
    (before : Written schema limit (depth + 1) floor first.1 cursor first.2)
    (read : reread? other first.1 = some first') (calm : Calm floor.rank last.2)
    (calm' : Calm floor.rank last'.2) :
    reread? other last.1 = some last'.1 ∧ last'.2 = last.2 := by
  induction chain using Relation.ReflTransGen.head_induction_on generalizing first' with
  | refl =>
      rcases chain'.cases_head with rfl | ⟨_, joined', _⟩
      · exact ⟨read, rfl⟩
      · exact absurd calm joined'.not_calm
  | head joined _ ih =>
      rcases chain'.cases_head with rfl | ⟨second', joined', further⟩
      · exact absurd calm' joined.not_calm
      · obtain ⟨reread, same⟩ := joined.unique weakens agrees written before read joined'
        refine ih ?_ (joined.written written before) reread
        rw [← same]
        exact further

/-- What is settled with a schema is settled with a weaker one as it is read anew, if at all. -/
theorem agrees_settled (weakens : Weakens schema other) (depth : Nat) :
    Agrees other (Settled schema limit depth) (Settled other limit depth) := by
  induction depth with
  | zero => exact ⟨fun here _ => here.elim, fun here _ _ _ => here.elim⟩
  | succ depth ih =>
      have written : ∀ floor tree cursor next, Settled schema limit depth floor tree cursor next →
          Written schema limit depth floor tree cursor next := fun _ _ _ _ => Settled.written
      constructor
      · rintro floor tree tree' cursor next ⟨atom, middle, started, chain⟩ read
        suffices ∀ last : Parsed, Relation.ReflTransGen (Joined limit (Settled schema limit depth)
            floor) (atom, middle) last → ∀ last', reread? other last.1 = some last' →
            Settled other limit (depth + 1) floor last' cursor last.2 from this _ chain _ read
        intro last chain
        induction chain with
        | refl =>
            intro last' read
            exact ⟨last', middle, started.keeps weakens ih written read, .refl⟩
        | tail before joined extended =>
            intro last' read
            have settled : Settled schema limit (depth + 1) floor _ cursor _ :=
              ⟨atom, middle, started, before⟩
            obtain ⟨left', readLeft, joined'⟩ := joined.keeps weakens ih written settled.written read
            obtain ⟨atom', middle', started', chain'⟩ := extended left' readLeft
            exact ⟨atom', middle', started', chain'.tail joined'⟩
      · rintro floor tree tree' cursor next next' ⟨atom, middle, started, chain⟩
          ⟨atom', middle', started', chain'⟩ calm calm'
        obtain ⟨read, rfl⟩ := started.unique weakens ih started'
        exact unique_of_chains weakens ih written chain chain' (started.written written) read calm
          calm'

/-! ## Trees that can be read anew -/

/-- Another schema has the same types for all fields that a tree reads. -/
def SameTypes (schema other : Schema) (tree : Tree) : Prop :=
  ∀ path ∈ tree.paths, ∀ entry, schema.resolve path = some entry →
    ∃ entry', other.resolve path = some entry' ∧ entry'.descriptor = entry.descriptor

theorem SameTypes.operand (same : SameTypes schema other tree) {operand : String × Tree}
    (mem : operand ∈ tree.operands) : SameTypes schema other operand.2 :=
  fun path inside => same path (Tree.paths_operand mem inside)

/-- A tree whose fields have the same types is the same tree when it is read anew. -/
theorem Written.reread?_of_sameTypes (written : Written schema limit depth floor tree cursor next)
    (same : SameTypes schema other tree) : reread? other tree = some tree := by
  induction written with
  | constant shut found => rfl
  | field shut noConstant noOpener found =>
      obtain ⟨path, entry, resolved, _, _, rfl, _, _⟩ := reference?_ok found
      obtain ⟨entry', resolved', type⟩ := same path List.mem_cons_self entry resolved
      rw [reread?, resolved', Option.map_some, type]
  | group opened inside ends closed ih =>
      rw [SameTypes, Tree.paths_widen] at same
      rw [reread?_widen, ih same, Option.map_some]
  | opener known shut noConstant led inside ends accepted shallow ih =>
      exact (reread?_opener known).mpr ⟨_, ih (same.operand List.mem_cons_self), rfl⟩
  | between known tight before chosen led inside ends accepted shallow left_ih right_ih =>
      have anew := (anew?_eq_some_iff known (.refl _) (.refl _) chosen
        (Demand.takes_iff.mpr accepted)).mpr ⟨known, chosen, Demand.takes_iff.mpr accepted⟩
      exact (reread?_between known).mpr ⟨_, _, _, left_ih (same.operand List.mem_cons_self),
        right_ih (same.operand (List.mem_cons_of_mem _ List.mem_cons_self)), anew, rfl⟩
  | chosen tight before extended led inside ends divided last lastEnds shallow first_ih second_ih
      third_ih =>
      have inNegative := same.operand (List.mem_cons_of_mem _ List.mem_cons_self)
      have inPositive := same.operand
        (List.mem_cons_of_mem _ (List.mem_cons_of_mem _ List.mem_cons_self))
      exact reread?_choice.mpr ⟨_, _, _, first_ih (same.operand List.mem_cons_self),
        second_ih inPositive, third_ih inNegative, rfl⟩

/-- A tree can be read anew if the fields that its concatenations read have the same types. -/
theorem Written.exists_reread? (shape : schema.SameShape other)
    (written : Written schema limit depth floor tree cursor next)
    (same : ∀ inner ∈ tree.subtrees, nodeName? inner = some concat.name →
      SameTypes schema other inner) : ∃ tree', reread? other tree = some tree' := by
  have inside {tree : Tree} {operand : String × Tree} (mem : operand ∈ tree.operands)
      (same : ∀ inner ∈ tree.subtrees, nodeName? inner = some concat.name →
        SameTypes schema other inner) : ∀ inner ∈ operand.2.subtrees,
        nodeName? inner = some concat.name → SameTypes schema other inner :=
    fun inner there => same inner (Tree.mem_subtrees.mpr (.inr ⟨operand, mem, there⟩))
  induction written with
  | constant shut found => exact ⟨_, rfl⟩
  | field shut noConstant noOpener found =>
      obtain ⟨path, _, entry', _, _, resolved', rfl, _⟩ := reference?_of_sameShape shape found
      exact ⟨_, by rw [reread?, resolved', Option.map_some]⟩
  | @group _ _ _ _ tree _ _ opened within ends closed ih =>
      obtain ⟨tree', read⟩ := ih fun inner mem named => by
        rcases Tree.mem_subtrees.mp mem with rfl | ⟨operand, known, there⟩
        · have whole := same _ (Tree.self_mem_subtrees _) (by rwa [nodeName?_widen])
          rwa [SameTypes, Tree.paths_widen] at whole
        · rw [← Tree.operands_widen tree ⟨_, _⟩] at known
          exact inside known same inner there named
      exact ⟨_, by rw [reread?_widen, read, Option.map_some]⟩
  | opener known shut noConstant led within ends accepted shallow ih =>
      obtain ⟨operand', read⟩ := ih (inside List.mem_cons_self same)
      exact ⟨_, (reread?_opener known).mpr ⟨operand', read, rfl⟩⟩
  | @between _ _ _ _ _ left right op lexeme known tight before chosen led within ends accepted
      shallow left_ih right_ih =>
      by_cases named : op.name = concat.name
      · have here := same _ (Tree.self_mem_subtrees _) (named ▸ nodeName?_infixNode op left right _)
        have node : Written schema limit _ _ _ _ _ :=
          .between known tight before chosen led within ends accepted shallow
        exact ⟨_, node.reread?_of_sameTypes here⟩
      · obtain ⟨left', readLeft⟩ := left_ih (inside List.mem_cons_self same)
        obtain ⟨right', readRight⟩ :=
          right_ih (inside (List.mem_cons_of_mem _ List.mem_cons_self) same)
        exact ⟨_, (reread?_between known).mpr
          ⟨left', right', op, readLeft, readRight, (anew?_of_name named).mpr rfl, rfl⟩⟩
  | @chosen _ _ _ _ _ _ condition positive negative _ _ tight before extended led within ends divided
      last lastEnds shallow first_ih second_ih third_ih =>
      obtain ⟨condition', first⟩ := first_ih (inside List.mem_cons_self same)
      obtain ⟨positive', second⟩ := second_ih (inside
        (List.mem_cons_of_mem _ (List.mem_cons_of_mem _ List.mem_cons_self)) same)
      obtain ⟨negative', third⟩ :=
        third_ih (inside (List.mem_cons_of_mem _ List.mem_cons_self) same)
      exact ⟨_, reread?_choice.mpr ⟨condition', positive', negative', first, second, third, rfl⟩⟩

/-! ## Whole texts -/

/-- A text that is an expression is one with a field's descriptor replaced by `unknown` exactly if the
tree can be read anew: every `+` that concatenates has to be one that adds or concatenates what its
operands have become. Then this is its tree. In particular it is one if no concatenation reads the
field. -/
theorem whole_retyped_iff {grammar : Grammar} (built : Standard.grammar = .ok grammar)
    (fields : schema.IsBuilt) {path : List String} {type : Descriptor}
    (field : schema.resolve path = some (.type type)) {source : String}
    (ok : whole ⟨grammar, schema, limit⟩ source = .ok tree) :
    (∀ tree', whole ⟨grammar, schema.retyped .unknown path, limit⟩ source = .ok tree' ↔
      reread? (schema.retyped .unknown path) tree = some tree') ∧
    ((∀ inner ∈ tree.subtrees, nodeName? inner = some concat.name → path ∉ inner.paths) →
      ∃ tree', whole ⟨grammar, schema.retyped .unknown path, limit⟩ source = .ok tree') := by
  obtain rfl : table = grammar := Except.ok.inj (grammar_eq.symm.trans built)
  have weakens := weakens_retyped fields.wellFormed field
  obtain ⟨next, settled, atEnd⟩ := (whole_ok_iff_settled weakens.types).mp ok
  have agrees : Agrees (schema.retyped .unknown path) (Settled schema limit limit)
      (Settled (schema.retyped .unknown path) limit limit) := agrees_settled weakens limit
  have reads : ∀ tree', whole ⟨table, schema.retyped .unknown path, limit⟩ source = .ok tree' ↔
      reread? (schema.retyped .unknown path) tree = some tree' := by
    intro tree'
    refine (whole_ok_iff_settled weakens.others).trans ⟨?_, fun read => ?_⟩
    · rintro ⟨next', settled', atEnd'⟩
      exact (agrees.unique settled settled' (calm_of_atEnd atEnd _) (calm_of_atEnd atEnd' _)).1
    · exact ⟨next, agrees.keeps settled read, atEnd⟩
  refine ⟨reads, fun unread => ?_⟩
  obtain ⟨tree', read⟩ := settled.written.exists_reread? weakens.shape
    fun inner mem named place inside entry resolved => by
      have differs : place ≠ path := by
        rintro rfl
        exact unread inner mem named inside
      have view := @Schema.resolve_retyped _ _ .unknown _ field place
      rw [if_neg differs, resolved] at view
      obtain ⟨entry', there, same⟩ := Option.map_eq_some_iff.mp view
      exact ⟨entry', there, congrArg Prod.fst same⟩
  exact ⟨tree', (reads tree').mpr read⟩

/-- An order with a note. -/
def notedOrder : Schema := [("order", .nested [("note", .type .string)])]

theorem isBuilt_notedOrder : notedOrder.IsBuilt :=
  .nested "order" .empty (.field .empty (rfl : Schema.addField [] "note" "string" = .ok _))

theorem resolve_notedOrder :
    notedOrder.resolve ["order", "note"] = some (.type .string) := rfl

theorem whole_retyped_iff_doubled : ∃ tree tree',
    whole ⟨table, notedOrder, 8⟩ "order.note == '' ? '-' : order.note + order.note" = .ok tree ∧
      reread? (notedOrder.retyped .unknown ["order", "note"]) tree = some tree' ∧
      whole ⟨table, notedOrder.retyped .unknown ["order", "note"], 8⟩
        "order.note == '' ? '-' : order.note + order.note" = .ok tree' := by
  have accepted : ((whole ⟨table, notedOrder, 8⟩
        "order.note == '' ? '-' : order.note + order.note").toOption.any fun tree =>
      (reread? (notedOrder.retyped .unknown ["order", "note"]) tree).isSome) = true := by
    decide +kernel
  obtain ⟨tree, ok, rereads⟩ := exists_ok_of_any accepted
  obtain ⟨tree', read⟩ := Option.isSome_iff_exists.mp rereads
  obtain ⟨reads, _⟩ := whole_retyped_iff grammar_eq isBuilt_notedOrder resolve_notedOrder ok
  exact ⟨tree, tree', ok, read, (reads tree').mpr read⟩

/-- A text may be no expression any more when a descriptor is replaced by `unknown`: what was
concatenated is added then, and a text cannot be added to it. -/
theorem not_whole_retyped :
    ¬ ∀ (schema : Schema), schema.IsBuilt → ∀ (path : List String) (type : Descriptor),
      schema.resolve path = some (.type type) → ∀ (limit : Nat) (source : String) (tree : Tree),
        whole ⟨table, schema, limit⟩ source = .ok tree →
        ∃ tree', whole ⟨table, schema.retyped .unknown path, limit⟩ source = .ok tree' := by
  intro weaker
  have accepted : ((whole ⟨table, notedOrder, 8⟩ "order.note + '!'").toOption.any fun _ =>
      true) = true := by
    decide +kernel
  have refused : (whole ⟨table, notedOrder.retyped .unknown ["order", "note"], 8⟩
      "order.note + '!'").toOption.isNone = true := by
    decide +kernel
  obtain ⟨tree, ok, _⟩ := exists_ok_of_any accepted
  obtain ⟨tree', retyped⟩ :=
    weaker notedOrder isBuilt_notedOrder ["order", "note"] .string resolve_notedOrder 8 _ tree ok
  rw [retyped] at refused
  cases refused

end Mixfix.Standard
