import Mixfix.Proofs.Parse.Inlining
import Mixfix.Proofs.Schema.Fitness
import Mixfix.Proofs.Standard.Clipping

/-!
# Expressions with a number in place of a field

An expression is still one when the digits of a number are written in place of a field whose type is
`number`. Its tree has a literal in place of the field, with one exception: behind a minus without a
blank between them, the minus is part of the number. As long as the field is the operand of the minus
the negative number takes the place of both. But the minus of `-x ** 2` is that of a power, and the
minus of `-5 ** 2` that of the five, so here a power with a negative base takes the place of the
opposite of a power (`Inlines`).
-/

set_option autoImplicit false

namespace Mixfix.Standard

open Parse Lexeme
open Unicode (isAsciiDigit)

/-! ## Trees -/

/-- The operator for the opposite of a number. -/
def opposition : Opener := ⟨unary "neg" "-" "number" opposite, .number, "-", .number⟩

theorem opposition_mem : opposition ∈ openers := List.mem_cons_self

theorem exponentiation_mem : exponentiation ∈ infixes :=
  List.mem_append_right _ List.mem_cons_self

/-- How a tree changes when a number is written in place of a field. -/
inductive Inlines (name : String) (n : Int64) : Tree → Tree → Prop
  | constant (value : Value) (extent extent' : Extent) :
      Inlines name n (.literal value extent) (.literal value extent')
  | field {path : List String} (type : Descriptor) (extent extent' : Extent)
      (differs : path ≠ [name]) :
      Inlines name n (.identifier path type extent) (.identifier path type extent')
  | replaced (extent extent' : Extent) :
      Inlines name n (.identifier [name] .number extent) (.literal (.integer n) extent')
  | group {tree tree' : Tree} (span span' : Span) (inside : Inlines name n tree tree') :
      Inlines name n (tree.widen span) (tree'.widen span')
  | opener {op : Opener} {operand operand' : Tree} (known : op ∈ openers) (start start' : Nat)
      (next next' : Cursor) (inside : Inlines name n operand operand') :
      Inlines name n (op.node operand start next) (op.node operand' start' next')
  | between {op : Infix} {left left' right right' : Tree} (known : op ∈ infixes)
      (next next' : Cursor) (first : Inlines name n left left') (second : Inlines name n right right') :
      Inlines name n (op.node left right next) (op.node left' right' next')
  | chosen {condition condition' positive positive' negative negative' : Tree} (next next' : Cursor)
      (first : Inlines name n condition condition') (second : Inlines name n positive positive')
      (third : Inlines name n negative negative') :
      Inlines name n (choiceNode condition positive negative next)
        (choiceNode condition' positive' negative' next')
  | negative (start : Nat) (next : Cursor) (extent extent' : Extent) :
      Inlines name n (opposition.node (.identifier [name] .number extent) start next)
        (.literal (.integer (-n)) extent')
  | power {right right' : Tree} {start : Nat} {extent : Extent} (next next' last : Cursor)
      (extent' : Extent) (adjacent : extent.core.start = start + 1)
      (inside : Inlines name n right right') :
      Inlines name n
        (opposition.node (exponentiation.node (.identifier [name] .number extent) right last) start
          next)
        (exponentiation.node (.literal (.integer (-n)) extent') right' next')

variable {name : String} {n : Int64} {tree tree' : Tree}

section Nodes

variable {left right operand : Tree} {next : Cursor}

theorem Infix.paths_node (op : Infix) :
    (op.node left right next).paths = left.paths ++ right.paths := by
  simp [Infix.node, nodeOf, Tree.ofMatch, Tree.paths, Tree.references, Tree.bindingReferences]

theorem Opener.paths_node (op : Opener) {start : Nat} :
    (op.node operand start next).paths = operand.paths := by
  simp [Opener.node, nodeOf, Tree.ofMatch, Tree.paths, Tree.references, Tree.bindingReferences]

theorem paths_choiceNode {condition positive negative : Tree} :
    (choiceNode condition positive negative next).paths =
      condition.paths ++ (negative.paths ++ positive.paths) := by
  simp [choiceNode, nodeOf, Tree.ofMatch, Tree.paths, Tree.references, Tree.bindingReferences]

theorem paths_literal (value : Value) (extent : Extent) : (Tree.literal value extent).paths = [] := rfl

theorem paths_identifier (path : List String) (type : Descriptor) (extent : Extent) :
    (Tree.identifier path type extent).paths = [path] := rfl

end Nodes

namespace Inlines

/-- The type stays. -/
theorem type (inlines : Inlines name n tree tree') : tree'.type = tree.type := by
  induction inlines with
  | constant value extent extent' => rfl
  | field type extent extent' differs => rfl
  | replaced extent extent' => rfl
  | group span span' inside ih => rw [Tree.type_widen, Tree.type_widen, ih]
  | opener known start start' next next' inside ih =>
      rw [Opener.type_node known, Opener.type_node known, ih]
  | between known next next' first second left right =>
      rw [Infix.type_node, Infix.type_node, left, right]
  | chosen next next' first second third condition positive negative =>
      rw [type_choiceNode, type_choiceNode, positive, negative]
  | negative start next extent extent' =>
      rw [Opener.type_node opposition_mem]
      rfl
  | power next next' last extent' adjacent inside ih =>
      rw [Opener.type_node opposition_mem, Infix.type_node]
      rfl

/-- No tree becomes deeper. -/
theorem depth_le (inlines : Inlines name n tree tree') : tree'.depth ≤ tree.depth := by
  induction inlines with
  | constant value extent extent' => exact Nat.le_refl _
  | field type extent extent' differs => exact Nat.le_refl _
  | replaced extent extent' => exact Nat.le_refl _
  | group span span' inside ih => rwa [Tree.depth_widen, Tree.depth_widen]
  | opener known start start' next next' inside ih =>
      rw [Opener.depth_node, Opener.depth_node]
      omega
  | between known next next' first second left right =>
      rw [Infix.depth_node, Infix.depth_node]
      omega
  | chosen next next' first second third condition positive negative =>
      rw [depth_choiceNode, depth_choiceNode]
      omega
  | negative start next extent extent' =>
      rw [Opener.depth_node]
      exact Nat.le_add_right 1 _
  | power next next' last extent' adjacent inside ih =>
      rw [Opener.depth_node, Infix.depth_node, Infix.depth_node, Tree.depth, Tree.depth]
      omega

/-- The references that are left are those to other fields. -/
theorem mem_paths_iff (inlines : Inlines name n tree tree') {path : List String} :
    path ∈ tree'.paths ↔ path ∈ tree.paths ∧ path ≠ [name] := by
  induction inlines with
  | constant value extent extent' => simp [paths_literal]
  | field type extent extent' differs =>
      rw [paths_identifier, paths_identifier, List.mem_singleton]
      exact ⟨fun same => ⟨same, same ▸ differs⟩, fun both => both.1⟩
  | replaced extent extent' => simp [paths_literal, paths_identifier]
  | group span span' inside ih => rw [Tree.paths_widen, Tree.paths_widen, ih]
  | opener known start start' next next' inside ih =>
      rw [Opener.paths_node, Opener.paths_node, ih]
  | between known next next' first second left right =>
      rw [Infix.paths_node, Infix.paths_node, List.mem_append, List.mem_append, left, right,
        ← or_and_right]
  | chosen next next' first second third condition positive negative =>
      rw [paths_choiceNode, paths_choiceNode]
      simp only [List.mem_append, condition, positive, negative, ← or_and_right]
  | negative start next extent extent' =>
      rw [Opener.paths_node]
      simp [paths_literal, paths_identifier]
  | power next next' last extent' adjacent inside ih =>
      rw [Opener.paths_node, Infix.paths_node, Infix.paths_node, List.mem_append, List.mem_append,
        ih, paths_literal, paths_identifier, List.mem_singleton]
      constructor
      · rintro (mem | ⟨mem, differs⟩)
        · cases mem
        · exact ⟨.inr mem, differs⟩
      · rintro ⟨same | mem, differs⟩
        · exact absurd same differs
        · exact .inr ⟨mem, differs⟩

end Inlines

/-! ## Numerals -/

/-- A number in decimal digits. -/
def numeral (n : Int64) : List Char := (toString n.toInt).toList

section Numerals

variable (natural : 0 ≤ n)
include natural

theorem numeral_eq : numeral n = Nat.toDigits 10 n.toInt.toNat := by
  have positive : 0 ≤ n.toInt := Int64.le_iff_toInt_le.mp natural
  rw [numeral, Numeral.toList_toString, if_neg (Int.not_lt.mpr positive), List.nil_append]
  congr 1
  omega

/-- The opposite of a number that is not negative is an integer of 64 bits. -/
theorem toInt64?_opposite : Numeral.toInt64? (-n.toInt) = some (-n) := by
  have positive : 0 ≤ n.toInt := Int64.le_iff_toInt_le.mp natural
  have small := n.toInt_lt
  have opposite : (-n).toInt = -n.toInt := by
    rw [Int64.toInt_neg]
    exact Int.bmod_eq_of_le (by omega) (by omega)
  rw [← opposite, Numeral.toInt64?_toInt]

/-- With a minus before its digits a number is read as its opposite. -/
theorem isLiteral_minus : IsLiteral ('-' :: numeral n) (.integer (-n)) := by
  have positive : 0 ≤ n.toInt := Int64.le_iff_toInt_le.mp natural
  have fits : Numeral.toInt64? (withSign true n.toInt.toNat) = some (-n) := by
    rw [withSign, if_pos rfl, Int.toNat_of_nonneg positive, toInt64?_opposite natural]
  rw [numeral_eq natural]
  exact isLiteral_digits true _ fits

theorem head?_numeral : (numeral n).head?.any Unicode.isAsciiDigit = true := by
  obtain ⟨c, rest, first, digit⟩ := Numeral.exists_toDigits n.toInt.toNat
  rw [numeral_eq natural, first, List.head?_cons, Option.any_some]
  exact digit

end Numerals

/-! ## Marks -/

section Marks

variable {cursor cursor' : Cursor} {token : String} {lexeme : Lexeme String}

/-- All registered texts are made of characters that are tokens of their own. -/
theorem marks_table :
    ∀ token ∈ table.tokens, IsMark token ∧ ∀ c ∈ token.toList, isLone c = true := by
  have lone : table.tokens.all (fun token => token.toList.all isLone) = true := by
    rw [tokens_table]
    decide
  exact fun token registered => ⟨isMark_table token registered,
    List.all_eq_true.mp (List.all_eq_true.mp lone token registered)⟩

theorem endsPath_of_skipBlanks (ends : endsPath cursor.skipBlanks.rest = true) :
    endsPath cursor.rest = true := by
  rw [Cursor.skipBlanks, Cursor.rest_skipWhile] at ends
  cases same : cursor.rest with
  | nil => rfl
  | cons c rest =>
      rw [same] at ends
      by_cases blank : Cursor.isBlank c = true
      · have notWord := isWordChar_of_isBlank blank
        have notPoint : c ≠ '.' := by
          rintro rfl
          cases blank
        simp [endsPath, notWord, notPoint]
      · rwa [List.dropWhile_cons_of_neg blank] at ends

/-- Before a registered text a path ends. -/
theorem endsPath_of_led (registered : token ∈ table.tokens)
    (led : token? table.tokens token cursor = some lexeme) : endsPath cursor.rest = true := by
  have marks : ∀ token ∈ table.tokens, token ≠ "" ∧ endsPath token.toList = true := by
    rw [tokens_table]
    decide
  obtain ⟨nonempty, ends⟩ := marks token registered
  obtain ⟨behind, written⟩ := prefix_of_standsAt (standsAt_of_token? led)
  refine endsPath_of_skipBlanks ?_
  rw [← written]
  cases text : token.toList with
  | nil => exact absurd (String.toList_eq_nil_iff.mp text) nonempty
  | cons c rest =>
      rw [text] at ends
      exact ends

variable (natural : 0 ≤ n) (place : InPlace name (numeral n) cursor cursor')
include natural place

theorem sameMarks_inPlace : SameMarks cursor' cursor := fun _ registered =>
  (place.token?_iff (head?_numeral natural) marks_table registered).1

theorem led_inPlace (registered : token ∈ table.tokens)
    (led : token? table.tokens token cursor = some lexeme) :
    ∃ lexeme', token? table.tokens token cursor' = some lexeme' ∧
      InPlace name (numeral n) lexeme.next lexeme'.next := by
  obtain ⟨lexeme', led'⟩ := (sameMarks_inPlace natural place).exists_led registered led
  obtain ⟨_, behind⟩ := place.token?_iff (head?_numeral natural) marks_table registered
  exact ⟨lexeme', led', behind lexeme lexeme' led led'⟩

theorem missing_inPlace (registered : token ∈ table.tokens)
    (missing : token? table.tokens token cursor = none) :
    token? table.tokens token cursor' = none :=
  (sameMarks_inPlace natural place).missing registered missing

theorem sameAhead_inPlace : SameAhead cursor' cursor := (sameMarks_inPlace natural place).sameAhead

end Marks

/-! ## Reading both texts -/

/-- What is written is also written with a number in place of a field. -/
def Inlinable (schema : Schema) (limit : Nat) (name : String) (n : Int64) (depth : Nat)
    (floor : Precedence) (tree : Tree) (cursor next : Cursor) : Prop :=
  floor.atMost (.level exponentiation.level) = true → endsPath next.rest = true →
    ∀ cursor', InPlace name (numeral n) cursor cursor' →
      ∃ tree' next', InPlace name (numeral n) next next' ∧
        Written schema limit depth floor tree' cursor' next' ∧ Inlines name n tree tree'

variable {schema : Schema} {limit depth : Nat} {floor : Precedence} {cursor middle next : Cursor}

section Inlinable

variable (natural : 0 ≤ n)
include natural

theorem inlinable_constant {lexeme : Lexeme Value}
    (shut : token? table.tokens openParen cursor = none)
    (found : constant? cursor = .ok (some lexeme)) :
    Inlinable schema limit name n (depth + 1) floor (literalTree lexeme).1 cursor lexeme.next := by
  intro _ ends cursor' place
  obtain ⟨lexeme', found', content, behind⟩ := place.constant? (head?_numeral natural) found ends
  refine ⟨_, _, behind, .constant (missing_inPlace natural place paren_mem.1 shut) found', ?_⟩
  rw [literalTree, literalTree, content]
  exact .constant _ _ _

theorem inlinable_field (field : schema.resolve [name] = some (.type .number))
    (shut : token? table.tokens openParen cursor = none)
    (noConstant : constant? cursor = .ok none)
    (noOpener : ∀ op ∈ openers, token? table.tokens op.token cursor = none)
    (found : reference? schema cursor = .ok (some (tree, next))) :
    Inlinable schema limit name n (depth + 1) floor tree cursor next := by
  intro _ ends cursor' place
  have digits := head?_numeral natural
  have shut' := missing_inPlace natural place paren_mem.1 shut
  rcases place.reference? digits found noConstant ends with
    ⟨path, type, extent, extent', next', differs, rfl, found', noConstant', behind⟩ | starts
  · have noOpener' : ∀ op ∈ openers, token? table.tokens op.token cursor' = none :=
      fun op known => missing_inPlace natural place (op.token_mem known) (noOpener op known)
    exact ⟨_, next', behind, .field shut' noConstant' noOpener' found', .field _ _ _ differs⟩
  · obtain ⟨_, again, _, _, written⟩ := starts.reference? field
    cases found.symm.trans again
    obtain ⟨lexeme', found', content, behind⟩ :=
      place.literal digits starts (isLiteral_toString n) ends written
    refine ⟨_, _, behind, .constant shut' found', ?_⟩
    rw [literalTree, content]
    exact .replaced _ _

theorem Inlinable.group {opening closing : Lexeme String}
    (opened : token? table.tokens openParen cursor = some opening)
    (inside : Inlinable schema limit name n depth .loosest tree opening.next next)
    (ends : Stops .loosest tree next)
    (closed : token? table.tokens closeParen next = some closing) :
    Inlinable schema limit name n (depth + 1) floor
      (tree.widen ⟨opening.span.start, closing.span.stop⟩) cursor closing.next := by
  intro _ _ cursor' place
  obtain ⟨opening', opened', start⟩ := led_inPlace natural place paren_mem.1 opened
  obtain ⟨tree', next', behind, within, inlines⟩ :=
    inside rfl (endsPath_of_led paren_mem.2 closed) _ start
  obtain ⟨closing', closed', last⟩ := led_inPlace natural behind paren_mem.2 closed
  have ends' := ends.congr inlines.type (sameAhead_inPlace natural behind).covered
  exact ⟨_, _, last, .group opened' within ends' closed', .group _ _ inlines⟩

theorem Inlinable.between {left right : Tree} {op : Infix} {lexeme : Lexeme String}
    (known : op ∈ infixes) (tight : floor.atMost (.level op.level) = true)
    (before : Inlinable schema limit name n (depth + 1) floor left cursor middle)
    (chosen : extender? left middle = some op.candidate)
    (led : token? table.tokens op.token middle = some lexeme)
    (inside : Inlinable schema limit name n depth op.rightFloor right lexeme.next next)
    (ends : Stops op.rightFloor right next)
    (accepted : ∀ type ∈ op.demand.type?, type.accepts right.type = true)
    (shallow : (op.node left right next).depth ≤ limit) :
    Inlinable schema limit name n (depth + 1) floor (op.node left right next) cursor next := by
  intro loose clear cursor' place
  have rightLoose : ∀ op ∈ infixes, op.rightFloor.atMost (.level exponentiation.level) = true := by
    decide
  obtain ⟨left', middle', there, first, leftInlines⟩ :=
    before loose (endsPath_of_led (op.token_mem known) led) cursor' place
  obtain ⟨lexeme', led', start⟩ := led_inPlace natural there (op.token_mem known) led
  obtain ⟨right', next', behind, second, rightInlines⟩ :=
    inside (rightLoose op known) clear _ start
  have inlines : Inlines name n (op.node left right next) (op.node left' right' next') :=
    .between known next next' leftInlines rightInlines
  rw [← extender?_congr leftInlines.type (sameAhead_inPlace natural there)] at chosen
  exact ⟨_, next', behind, .between known tight first chosen led' second
    (ends.congr rightInlines.type (sameAhead_inPlace natural behind).covered)
    (by rwa [rightInlines.type]) (Nat.le_trans inlines.depth_le shallow), inlines⟩

theorem Inlinable.chosen {behind : Cursor} {condition positive negative : Tree}
    {mark colon : Lexeme String} (tight : floor.atMost choiceFloor = true)
    (before : Inlinable schema limit name n (depth + 1) floor condition cursor middle)
    (extended : extender? condition middle = some (1, choice))
    (led : token? table.tokens "?" middle = some mark)
    (inside : Inlinable schema limit name n depth .loosest positive mark.next behind)
    (ends : Stops .loosest positive behind)
    (divided : token? table.tokens ":" behind = some colon)
    (last : Inlinable schema limit name n depth choiceFloor negative colon.next next)
    (lastEnds : Stops choiceFloor negative next)
    (shallow : (choiceNode condition positive negative next).depth ≤ limit) :
    Inlinable schema limit name n (depth + 1) floor (choiceNode condition positive negative next)
      cursor next := by
  intro loose clear cursor' place
  obtain ⟨condition', middle', there, first, conditionInlines⟩ :=
    before loose (endsPath_of_led choice_mem.1 led) cursor' place
  obtain ⟨mark', led', start⟩ := led_inPlace natural there choice_mem.1 led
  obtain ⟨positive', behind', further, second, positiveInlines⟩ :=
    inside rfl (endsPath_of_led choice_mem.2 divided) _ start
  obtain ⟨colon', divided', lastStart⟩ := led_inPlace natural further choice_mem.2 divided
  obtain ⟨negative', next', final, third, negativeInlines⟩ := last rfl clear _ lastStart
  have inlines : Inlines name n (choiceNode condition positive negative next)
      (choiceNode condition' positive' negative' next') :=
    .chosen next next' conditionInlines positiveInlines negativeInlines
  rw [← extender?_congr conditionInlines.type (sameAhead_inPlace natural there)] at extended
  exact ⟨_, next', final, .chosen tight first extended led' second
    (ends.congr positiveInlines.type (sameAhead_inPlace natural further).covered) divided' third
    (lastEnds.congr negativeInlines.type (sameAhead_inPlace natural final).covered)
    (Nat.le_trans inlines.depth_le shallow), inlines⟩

end Inlinable

/-! ## Behind a minus -/

theorem written_of_led {token : String} {lexeme : Lexeme String}
    (led : token? table.tokens token cursor = some lexeme) :
    cursor.skipBlanks.rest = token.toList ++ lexeme.next.rest := by
  obtain ⟨stands, _, rfl⟩ := token?_eq_some_iff.mp led
  obtain ⟨behind, written⟩ := prefix_of_standsAt stands
  rw [Lexeme.ahead, Cursor.advance, ← written, List.drop_left]

/-- The mark of an operator before its operand is no literal in another text either, if no digit
comes to stand behind a minus. -/
theorem Opener.noConstant_moved {op : Opener} (known : op ∈ openers)
    (noConstant : constant? cursor = .ok none) {lexeme lexeme' : Lexeme String}
    (led : token? table.tokens op.token cursor = some lexeme) {cursor' : Cursor}
    (led' : token? table.tokens op.token cursor' = some lexeme')
    (noDigit : op.token = "-" →
      lexeme.next.rest.head?.all (fun c => !isAsciiDigit c) = true →
      lexeme'.next.rest.head?.all (fun c => !isAsciiDigit c) = true) :
    constant? cursor' = .ok none := by
  have marks : ∀ op ∈ openers, op.token = "-" ∨ op.token = "!" := by decide
  have written := written_of_led led
  have written' := written_of_led led'
  rcases marks op known with minus | other
  · rw [minus] at written written'
    exact constant?_sign (.inl rfl) written' fun _ =>
      noDigit minus (notDigit_of_noConstant noConstant written)
  · rw [other] at written'
    exact constant?_sign (.inr rfl) written' fun minus => absurd minus (by decide)

/-- The mark of an operator before its operand becomes part of a literal only if it is a minus and
the field stands directly behind it. -/
theorem Opener.noConstant_inPlace (natural : 0 ≤ n) {cursor' : Cursor}
    (place : InPlace name (numeral n) cursor cursor') {op : Opener} (known : op ∈ openers)
    (noConstant : constant? cursor = .ok none) {lexeme : Lexeme String}
    (led : token? table.tokens op.token cursor = some lexeme)
    (apart : ¬ (op.token = "-" ∧ StartsWith name lexeme.next.rest)) :
    constant? cursor' = .ok none := by
  obtain ⟨lexeme', led', behind⟩ := led_inPlace natural place (op.token_mem known) led
  refine op.noConstant_moved known noConstant led led' fun minus noDigit => ?_
  rw [InPlace] at behind
  rw [behind]
  cases ahead : lexeme.next.rest with
  | nil => rfl
  | cons c rest =>
      obtain ⟨d, head, shape⟩ := @head?_inlined name _ (head?_numeral natural) c rest
      rw [ahead, List.head?_cons, Option.all_some] at noDigit
      rw [head, Option.all_some]
      rcases shape with rfl | ⟨_, starts⟩
      · exact noDigit
      · exact absurd ⟨minus, ahead ▸ starts⟩ apart

/-- Of the operators between operands only the power is as tight as those before their operand. -/
theorem eq_exponentiation {op : Infix} (known : op ∈ infixes)
    (tight : openerFloor.atMost (.level op.level) = true) : op = exponentiation := by
  have loose : ∀ op ∈ chained, openerFloor.atMost (.level op.level) = false := by decide
  rcases List.mem_append.mp known with inChain | last
  · rw [loose op inChain] at tight
    cases tight
  · exact List.mem_singleton.mp last

/-- A power whose base is a leaf, by what is written behind the leaf. -/
structure PowerBehind (schema : Schema) (limit depth : Nat) (leaf : Tree) (middle : Cursor)
    (right : Tree) (next : Cursor) : Prop where
  chosen : extender? leaf middle = some exponentiation.candidate
  exponent : ∃ lexeme, token? table.tokens "**" middle = some lexeme ∧
    Written schema limit depth exponentiation.rightFloor right lexeme.next next
  ends : Stops exponentiation.rightFloor right next
  accepted : Descriptor.number.accepts right.type = true
  shallow : (exponentiation.node leaf right next).depth ≤ limit

/-- The operand of an operator before it that starts with a reference is the reference, or a power of
it. -/
theorem Written.of_reference (written : Written schema limit depth openerFloor tree cursor next)
    {leaf : Tree} (found : reference? schema cursor = .ok (some (leaf, middle)))
    (noConstant : constant? cursor = .ok none) :
    tree = leaf ∧ next = middle ∨
      ∃ depth' right, depth = depth' + 1 ∧ tree = exponentiation.node leaf right next ∧
        PowerBehind schema limit depth' leaf middle right next := by
  have noToken {token : String} (registered : token ∈ table.tokens) {lexeme : Lexeme String}
      (led : token? table.tokens token cursor = some lexeme) : False := by
    rw [token?_eq_none_of_reference? registered found] at led
    cases led
  have noChoice : ¬ openerFloor.atMost choiceFloor = true := by decide
  cases written with
  | constant shut literal =>
      rw [noConstant] at literal
      cases literal
  | field shut noConstantHere noOpener again =>
      cases found.symm.trans again
      exact .inl ⟨rfl, rfl⟩
  | group opened inside ends closed => exact (noToken paren_mem.1 opened).elim
  | opener known shut noConstantHere led inside ends accepted shallow =>
      exact (noToken (Opener.token_mem _ known) led).elim
  | between known tight before chosen led inside ends accepted shallow =>
      obtain rfl := eq_exponentiation known tight
      cases before with
      | constant shut literal =>
          rw [noConstant] at literal
          cases literal
      | field shut noConstantHere noOpener again =>
          cases found.symm.trans again
          exact .inr ⟨_, _, rfl, rfl, chosen, ⟨_, led, inside⟩, ends, accepted _ rfl, shallow⟩
      | group opened inside ends closed => exact (noToken paren_mem.1 opened).elim
      | opener known shut noConstantHere led inside ends accepted shallow =>
          exact (noToken (Opener.token_mem _ known) led).elim
      | between innerKnown innerTight before innerChosen innerLed innerInside innerEnds innerAccepted
          innerShallow =>
          -- the second power would have been part of the exponent of the first one
          obtain rfl := eq_exponentiation innerKnown innerTight
          have stands := (extender?_spec chosen).2.2
          have stops := innerEnds exponentiation.candidate (Infix.candidate_mem known) rfl
            (innerAccepted _ rfl)
          rw [stops] at stands
          cases stands
      | chosen tight before extended led inside ends divided last lastEnds shallow =>
          exact absurd tight noChoice
  | chosen tight before extended led inside ends divided last lastEnds shallow =>
      exact absurd tight noChoice

theorem skipBlanks_of_startsWith (starts : StartsWith name cursor.rest) :
    cursor.skipBlanks = cursor := by
  cases ahead : cursor.rest with
  | nil => rw [Cursor.skipBlanks, Cursor.skipWhile, ahead, List.takeWhile_nil, List.length_nil,
      Cursor.advance_zero]
  | cons c rest =>
      rw [ahead] at starts
      have solid : ¬ Cursor.isBlank c = true := by
        intro blank
        have notLetter := (isLone_iff.mp (isLone_of_isBlank blank)).2.2.2
        rw [starts.letter] at notLetter
        cases notLetter
      rw [Cursor.skipBlanks, Cursor.skipWhile, ahead, List.takeWhile_cons_of_neg solid,
        List.length_nil, Cursor.advance_zero]

/-- A minus directly before the field and the number in place of the field are one literal. -/
theorem literal_of_minus (natural : 0 ≤ n) {cursor' : Cursor}
    (place : InPlace name (numeral n) cursor cursor') {lexeme : Lexeme String}
    (led : token? table.tokens "-" cursor = some lexeme) (starts : StartsWith name lexeme.next.rest)
    (clear : endsPath middle.rest = true) (ahead : lexeme.next.rest = name.toList ++ middle.rest) :
    ∃ literal, constant? cursor' = .ok (some literal) ∧ literal.content = .integer (-n) ∧
      InPlace name (numeral n) middle literal.next := by
  have digits := head?_numeral natural
  have registered : "-" ∈ table.tokens := opposition.token_mem opposition_mem
  obtain ⟨lexeme', led', behind⟩ := led_inPlace natural place registered led
  have ahead' : cursor'.skipBlanks.rest =
      '-' :: numeral n ++ inlined name (numeral n) middle.rest := by
    rw [InPlace] at behind
    rw [written_of_led led', behind, ahead, inlined_name starts.1 clear]
    rfl
  exact ⟨_, constant?_of_isLiteral (isLiteral_minus natural) (endsPath_inlined digits clear) ahead',
    rfl, .advance ahead'⟩

/-- A minus takes one byte. -/
theorem offset_of_minus {lexeme : Lexeme String}
    (led : token? table.tokens "-" cursor = some lexeme) :
    lexeme.next.offset = lexeme.span.start + 1 := by
  obtain ⟨stands, _, rfl⟩ := token?_eq_some_iff.mp led
  obtain ⟨behind, written⟩ := prefix_of_standsAt stands
  rw [Lexeme.ahead, Cursor.advance, ← written, List.take_left]
  rfl

section Openers

variable (natural : 0 ≤ n)
  (smaller : ∀ depth' < depth + 1, ∀ {tree : Tree} {floor : Precedence} {cursor next : Cursor},
    Written schema limit depth' floor tree cursor next →
      Inlinable schema limit name n depth' floor tree cursor next)
  {cursor' : Cursor} (place : InPlace name (numeral n) cursor cursor')
  (loose : floor.atMost (.level exponentiation.level) = true) (clear : endsPath next.rest = true)
  (shut : token? table.tokens openParen cursor = none) {lexeme : Lexeme String} {operand : Tree}
include natural smaller place clear shut

/-- An operator stays before its operand if it does not become part of a literal. -/
theorem opener_inPlace {op : Opener} (known : op ∈ openers)
    (noConstant : constant? cursor' = .ok none)
    (led : token? table.tokens op.token cursor = some lexeme)
    (inside : Written schema limit depth openerFloor operand lexeme.next next)
    (ends : Stops openerFloor operand next)
    (accepted : ∀ type ∈ op.demand.type?, type.accepts operand.type = true)
    (shallow : (op.node operand lexeme.span.start next).depth ≤ limit) :
    ∃ tree' next', InPlace name (numeral n) next next' ∧
      Written schema limit (depth + 1) floor tree' cursor' next' ∧
        Inlines name n (op.node operand lexeme.span.start next) tree' := by
  have shut' := missing_inPlace natural place paren_mem.1 shut
  obtain ⟨lexeme', led', start⟩ := led_inPlace natural place (op.token_mem known) led
  obtain ⟨operand', next', behind, within, inlines⟩ :=
    smaller depth (Nat.lt_succ_self depth) inside rfl clear _ start
  have node : Inlines name n (op.node operand lexeme.span.start next)
      (op.node operand' lexeme'.span.start next') := .opener known _ _ _ _ inlines
  exact ⟨_, next', behind, .opener known shut' noConstant led' within
    (ends.congr inlines.type (sameAhead_inPlace natural behind).covered)
    (by rwa [inlines.type]) (Nat.le_trans node.depth_le shallow), node⟩

include loose

/-- A minus directly before the field becomes part of the literal, also where the field is the base
of a power. -/
theorem opposition_inPlace (field : schema.resolve [name] = some (.type .number))
    (led : token? table.tokens "-" cursor = some lexeme) (starts : StartsWith name lexeme.next.rest)
    (inside : Written schema limit depth openerFloor operand lexeme.next next)
    (shallow : (opposition.node operand lexeme.span.start next).depth ≤ limit) :
    ∃ tree' next', InPlace name (numeral n) next next' ∧
      Written schema limit (depth + 1) floor tree' cursor' next' ∧
        Inlines name n (opposition.node operand lexeme.span.start next) tree' := by
  have shut' := missing_inPlace natural place paren_mem.1 shut
  have here := skipBlanks_of_startsWith starts
  have startsHere : StartsWith name lexeme.next.skipBlanks.rest := here.symm ▸ starts
  obtain ⟨middle, found, noConstant, clearMiddle, ahead⟩ := startsHere.reference? field
  rw [here] at found ahead
  obtain ⟨literal, found', content, behind⟩ :=
    literal_of_minus natural place led starts clearMiddle ahead
  have leaf : (literalTree literal).1 = .literal (.integer (-n)) ⟨literal.span, literal.span⟩ := by
    rw [literalTree, content]
  have constant (depth : Nat) : Written schema limit (depth + 1) floor
      (.literal (.integer (-n)) ⟨literal.span, literal.span⟩) cursor' literal.next :=
    leaf ▸ .constant shut' found'
  rcases inside.of_reference found noConstant with
    ⟨rfl, rfl⟩ | ⟨depth', right, rfl, rfl, power⟩
  · exact ⟨_, _, behind, constant _, .negative _ _ _ _⟩
  · obtain ⟨chosen, ⟨sign, signed, exponent⟩, ends, accepted, _⟩ := power
    obtain ⟨sign', signed', start⟩ :=
      led_inPlace natural behind (exponentiation.token_mem exponentiation_mem) signed
    obtain ⟨right', next', last, within, inlines⟩ :=
      smaller depth' (by omega) exponent rfl clear _ start
    have node : Inlines name n
        (opposition.node (exponentiation.node (.identifier [name] .number
          (Extent.bare lexeme.next.offset middle.offset)) right next) lexeme.span.start next)
        (exponentiation.node _ right' next') :=
      .power next next' next ⟨literal.span, literal.span⟩ (offset_of_minus led) inlines
    rw [← extender?_congr rfl (sameAhead_inPlace natural behind)] at chosen
    exact ⟨_, next', last, .between exponentiation_mem loose (constant _) chosen signed'
      (within.deeper (Nat.le_succ depth'))
      (ends.congr inlines.type (sameAhead_inPlace natural last).covered)
      (by rintro _ ⟨⟩; rwa [inlines.type]) (Nat.le_trans node.depth_le shallow), node⟩

end Openers

/-- An operator before its operand, if all that is written with less depth is inlinable. -/
theorem inlinable_opener (natural : 0 ≤ n) (field : schema.resolve [name] = some (.type .number))
    (smaller : ∀ depth' < depth + 1, ∀ {tree : Tree} {floor : Precedence} {cursor next : Cursor},
      Written schema limit depth' floor tree cursor next →
        Inlinable schema limit name n depth' floor tree cursor next)
    {op : Opener} {lexeme : Lexeme String} {operand : Tree} (known : op ∈ openers)
    (shut : token? table.tokens openParen cursor = none) (noConstant : constant? cursor = .ok none)
    (led : token? table.tokens op.token cursor = some lexeme)
    (inside : Written schema limit depth openerFloor operand lexeme.next next)
    (ends : Stops openerFloor operand next)
    (accepted : ∀ type ∈ op.demand.type?, type.accepts operand.type = true)
    (shallow : (op.node operand lexeme.span.start next).depth ≤ limit) :
    Inlinable schema limit name n (depth + 1) floor (op.node operand lexeme.span.start next) cursor
      next := by
  intro loose clear cursor' place
  by_cases direct : op.token = "-" ∧ StartsWith name lexeme.next.rest
  · obtain ⟨minus, starts⟩ := direct
    have isOpposition : ∀ op ∈ openers, op.token = "-" → op = opposition := by
      intro op known minus
      rcases List.mem_cons.mp known with rfl | other
      · rfl
      · rw [List.mem_singleton.mp other] at minus
        exact absurd minus (by decide)
    obtain rfl := isOpposition op known minus
    exact opposition_inPlace natural smaller place loose clear shut field led starts inside shallow
  · have noConstant' := Opener.noConstant_inPlace natural place known noConstant led direct
    exact opener_inPlace natural smaller place clear shut known noConstant' led inside ends accepted
      shallow

/-- What is written is also written with a number in place of a field. -/
theorem Written.inlinable (natural : 0 ≤ n) (field : schema.resolve [name] = some (.type .number))
    (written : Written schema limit depth floor tree cursor next) :
    Inlinable schema limit name n depth floor tree cursor next := by
  induction depth using Nat.strongRecOn generalizing floor tree cursor next with
  | _ depth smaller =>
      induction written with
      | constant shut found => exact inlinable_constant natural shut found
      | field shut noConstant noOpener found =>
          exact inlinable_field natural field shut noConstant noOpener found
      | group opened inside ends closed ih =>
          exact .group natural opened (smaller _ (Nat.lt_succ_self _) inside) ends closed
      | opener known shut noConstant led inside ends accepted shallow ih =>
          exact inlinable_opener natural field smaller known shut noConstant led inside ends accepted
            shallow
      | between known tight before chosen led inside ends accepted shallow left right =>
          exact .between natural known tight (left smaller) chosen led
            (smaller _ (Nat.lt_succ_self _) inside) ends accepted shallow
      | chosen tight before extended led inside ends divided last lastEnds shallow first =>
          exact .chosen natural tight (first smaller) extended led
            (smaller _ (Nat.lt_succ_self _) inside) ends divided
            (smaller _ (Nat.lt_succ_self _) last) lastEnds shallow

/-- A text with a number in place of a field. -/
def inlinedText (name : String) (n : Int64) (source : String) : String :=
  String.ofList (inlined name (numeral n) source.toList)

/-- A text that is an expression is one with a number in place of a field. -/
theorem exists_whole_inlinedText (natural : 0 ≤ n)
    (field : schema.resolve [name] = some (.type .number)) {source : String}
    (ok : whole (setting schema limit) source = .ok tree) :
    ∃ tree', whole (setting schema limit) (inlinedText name n source) = .ok tree' ∧
      Inlines name n tree tree' := by
  obtain ⟨next, written, ends, atEnd⟩ := whole_ok_iff.mp ok
  have place : InPlace name (numeral n) (.start source) (.start (inlinedText name n source)) :=
    String.toList_ofList
  have clear : endsPath next.rest = true := endsPath_of_skipBlanks (by rw [atEnd]; rfl)
  obtain ⟨tree', next', behind, written', inlines⟩ :=
    written.inlinable natural field rfl clear _ place
  have atEnd' : next'.skipBlanks.rest = [] := by
    have last := behind.skipBlanks (head?_numeral natural)
    rwa [InPlace, atEnd, inlined_nil] at last
  have ends' := ends.congr inlines.type (covered_of_atEnd atEnd')
  exact ⟨tree', whole_ok_iff.mpr ⟨next', written', ends', atEnd'⟩, inlines⟩

end Mixfix.Standard
