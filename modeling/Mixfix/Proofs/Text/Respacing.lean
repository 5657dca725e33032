import Mathlib.Data.List.TakeWhile
import Mixfix.Proofs.Text.Literals
import Mixfix.Proofs.Text.Slices

/-!
# Other blanks between two tokens

Two texts are the same but for one run of blanks (`Gap`). A cursor goes through each of them; up to
blanks, both stand at the same place (`Alongside`). What the first one finds ahead the second one finds
as well, and behind it they stand at the same place again (`Alongside.spells`), unless it is a text that
goes on across the gap. Marks, paths, numbers and keywords do not, since they contain no blanks; only a
string can.
-/

set_option autoImplicit false

namespace Mixfix.Parse

open Lexeme
open Unicode (isAsciiDigit)
open Cursor (isBlank)

variable {text behind : List Char} {value : Value}

theorem rest_skipBlanks (cursor : Cursor) : cursor.skipBlanks.rest = cursor.rest.dropWhile isBlank :=
  Cursor.rest_skipWhile isBlank cursor

/-! ## Literals without blanks -/

theorem notBlank_of_isWordChar {c : Char} (word : isWordChar c = true) : isBlank c = false := by
  rw [Bool.eq_false_iff]
  intro blank
  rw [isWordChar_of_isBlank blank] at word
  cases word

section Blanks

variable {c : Char} (blank : isBlank c = true)
include blank

theorem mem_splitMinus (mem : c ∈ text) : c ∈ (splitMinus text).2 := by
  unfold splitMinus
  split
  · rcases List.mem_cons.mp mem with rfl | later
    · cases blank
    · exact later
  · exact mem

theorem mem_splitSign (mem : c ∈ text) : c ∈ (splitSign text).2 := by
  unfold splitSign
  split
  · rcases List.mem_cons.mp mem with rfl | later
    · cases blank
    · exact later
  · rcases List.mem_cons.mp mem with rfl | later
    · cases blank
    · exact later
  · exact mem

theorem mem_splitDigits (mem : c ∈ text) : c ∈ (splitDigits text).2 := by
  rw [← splitDigits_append text] at mem
  refine (List.mem_append.mp mem).resolve_left fun digit => ?_
  have solid := notBlank_of_isWordChar (isWordChar_of_isAsciiDigit
    (isAsciiDigit_of_mem_splitDigits digit))
  rw [solid] at blank
  cases blank

theorem mem_splitFraction (mem : c ∈ text) : c ∈ (splitFraction text).2 := by
  unfold splitFraction
  split
  · next rest =>
      have inside : c ∈ rest := by
        rcases List.mem_cons.mp mem with rfl | later
        · cases blank
        · exact later
      have left := mem_splitDigits blank inside
      split
      · exact mem
      · next divided =>
          rw [divided] at left
          exact left
  · exact mem

theorem mem_splitExponent (mem : c ∈ text) : c ∈ (splitExponent text).2 := by
  cases text with
  | nil => cases mem
  | cons mark rest =>
      rw [splitExponent]
      split
      · next marked =>
          have inside : c ∈ rest := by
            rcases List.mem_cons.mp mem with rfl | later
            · rw [Bool.or_eq_true, decide_eq_true_eq, decide_eq_true_eq] at marked
              rcases marked with rfl | rfl <;> cases blank
            · exact later
          have left := mem_splitDigits blank (mem_splitSign blank inside)
          dsimp only
          split
          · exact mem
          · next divided =>
              rw [divided] at left
              exact left
      · exact mem

/-- No part of a number contains a blank, so all blanks are behind it. -/
theorem mem_behind_number {parts : NumberParts} (divided : splitNumber text = some (parts, behind))
    (mem : c ∈ text) : c ∈ behind := by
  simp only [splitNumber] at divided
  split at divided
  · cases divided
  · next found =>
      cases divided
      have left := mem_splitDigits blank (mem_splitMinus blank mem)
      rw [found] at left
      exact mem_splitExponent blank (mem_splitFraction blank left)

end Blanks

/-- A literal with a blank in it is a string. -/
theorem IsLiteral.solid_or_string (literal : IsLiteral text value) :
    (∀ c ∈ text, isBlank c = false) ∨ ∃ content, value = .string content := by
  cases literal with
  | number divided =>
      refine .inl fun c mem => ?_
      rw [Bool.eq_false_iff]
      exact fun blank => nomatch mem_behind_number blank divided mem
  | string quoted closed => exact .inr ⟨_, rfl⟩
  | keyword keyword => exact .inl fun c mem => notBlank_of_isWordChar (isWordChar_keyword keyword c mem)

theorem solid_dotted {segments : List String} (words : ∀ segment ∈ segments, isWord segment = true) :
    ∀ c ∈ dotted segments, isBlank c = false := by
  intro c mem
  obtain ⟨segment, known, inside⟩ := List.mem_flatMap.mp mem
  rcases List.mem_cons.mp inside with rfl | letter
  · rfl
  · exact notBlank_of_isWordChar (wordChars_of_isWord (words segment known) c letter)

/-- No path contains a blank. -/
theorem solid_pathText {path : List String} (words : ∀ segment ∈ path, isWord segment = true) :
    ∀ c ∈ pathText path, isBlank c = false := by
  cases path with
  | nil => simp [pathText]
  | cons name segments =>
      intro c mem
      rcases List.mem_append.mp mem with first | later
      · exact notBlank_of_isWordChar (wordChars_of_isWord (words name List.mem_cons_self) c first)
      · exact solid_dotted (fun segment known => words segment (List.mem_cons_of_mem _ known)) c later

/-! ## Gaps -/

/-- A place in a text where blanks stand, or the text ends, and what stands there in another text: the
same after other blanks. -/
structure Gap where
  /-- The place in the one text. -/
  start : Cursor
  /-- What lies ahead there in the other text. -/
  tail : List Char
  blank : start.rest.head?.all isBlank = true
  tailBlank : tail.head?.all isBlank = true
  same : tail.dropWhile isBlank = start.rest.dropWhile isBlank

/-- Whether a text ends in a character that is no blank. -/
def endsSolid (text : List Char) : Bool := text.getLast?.any fun c => !isBlank c

theorem dropWhile_ne_nil (solid : endsSolid text = true) : text.dropWhile isBlank ≠ [] := by
  intro none
  have blank := List.dropWhile_eq_nil_iff.mp none
  obtain ⟨c, last, notBlank⟩ := (Option.any_eq_true _ _).mp solid
  rw [blank c (List.mem_of_getLast? last)] at notBlank
  cases notBlank

theorem byteLength_pos (solid : endsSolid text = true) : 0 < byteLength text := by
  cases text with
  | nil => cases solid
  | cons c text =>
      have positive := c.utf8Size_pos
      rw [byteLength_cons]
      omega

theorem dropWhile_append_of_solid (solid : endsSolid text = true) :
    (text ++ behind).dropWhile isBlank = text.dropWhile isBlank ++ behind := by
  rw [List.dropWhile_append, if_neg]
  rw [List.isEmpty_iff]
  exact dropWhile_ne_nil solid

/-- What a text ends in ends as the text does. -/
theorem endsSolid_of_append {more : List Char} (solid : endsSolid (text ++ more) = true)
    (nonempty : more ≠ []) : endsSolid more = true := by
  obtain ⟨last, same⟩ := Option.isSome_iff_exists.mp (List.getLast?_isSome.mpr nonempty)
  rwa [endsSolid, List.getLast?_append, same, Option.some_or, ← same] at solid

/-- A text that does not go on across the blanks behind another one ends within it. -/
theorem exists_more {left tail : List Char} (blank : tail.head?.all isBlank = true)
    (same : left ++ tail = text ++ behind)
    (fits : (∀ c ∈ text, isBlank c = false) ∨ byteLength text ≤ byteLength left) :
    ∃ more, left = text ++ more ∧ behind = more ++ tail := by
  rcases List.append_eq_append_iff.mp same with ⟨across, rfl, rfl⟩ | ⟨more, rfl, rfl⟩
  · cases across with
    | nil => exact ⟨[], by simp, rfl⟩
    | cons c across =>
        exfalso
        rcases fits with solid | short
        · rw [List.cons_append, List.head?_cons, Option.all_some,
            solid c (List.mem_append_right _ List.mem_cons_self)] at blank
          cases blank
        · have positive := c.utf8Size_pos
          rw [byteLength_append, byteLength_cons] at short
          omega
  · exact ⟨more, rfl, rfl⟩

/-- Where a text without blanks stands does not depend on what follows the blanks behind it. -/
theorem prefix_append_blank {wanted tail : List Char} (solid : ∀ c ∈ wanted, isBlank c = false)
    (blank : tail.head?.all isBlank = true) : wanted <+: text ++ tail ↔ wanted <+: text := by
  constructor
  · rintro ⟨behind, same⟩
    obtain ⟨more, rfl, _⟩ := exists_more blank same.symm (.inl solid)
    exact List.prefix_append _ _
  · exact fun stands => stands.trans (List.prefix_append _ _)

/-! ## Cursors in both texts -/

/-- A cursor in the one text and a cursor in the other one stand at the same place, up to blanks. -/
inductive Alongside (gap : Gap) (cursor cursor' : Cursor) : Prop
  | before {text : List Char} (solid : endsSolid text = true) (here : cursor.Spells text gap.start)
      (there : cursor'.rest = text ++ gap.tail)
  | behind (same : cursor'.skipBlanks.rest = cursor.skipBlanks.rest)

namespace Alongside

variable {gap : Gap} {cursor cursor' next : Cursor} {tokens : List String} {token : String}

/-- Behind their blanks both cursors stand before a text and the gap, or else before the same text. -/
theorem skipBlanks (along : Alongside gap cursor cursor') :
    (∃ text, endsSolid text = true ∧ cursor.skipBlanks.Spells text gap.start ∧
      cursor'.skipBlanks.rest = text ++ gap.tail) ∨
    cursor'.skipBlanks.rest = cursor.skipBlanks.rest := by
  cases along with
  | behind same => exact .inr same
  | @before text solid here there =>
      left
      obtain ⟨blanks, skipped, _⟩ := cursor.spells_skipBlanks
      have ahead : cursor.skipBlanks.rest = text.dropWhile isBlank ++ gap.start.rest := by
        rw [rest_skipBlanks, here.1, dropWhile_append_of_solid solid]
      have divided : text = blanks ++ text.dropWhile isBlank := by
        have both := here.1.symm.trans skipped.1
        rw [ahead, ← List.append_assoc] at both
        exact List.append_cancel_right both
      refine ⟨text.dropWhile isBlank, ?_, ⟨ahead, ?_⟩, ?_⟩
      · rw [divided] at solid
        exact endsSolid_of_append solid (dropWhile_ne_nil (divided ▸ solid))
      · have bytes := congrArg byteLength divided
        rw [byteLength_append] at bytes
        rw [here.2, skipped.2, bytes, Nat.add_assoc]
      · rw [rest_skipBlanks, there, dropWhile_append_of_solid solid]

/-- Where only blanks are left only blanks are left in the other text. -/
theorem atEnd (along : Alongside gap cursor cursor') (last : cursor.skipBlanks.rest = []) :
    cursor'.skipBlanks.rest = [] := by
  rcases along.skipBlanks with ⟨text, solid, before, _⟩ | same
  · obtain ⟨rfl, _⟩ := List.append_eq_nil_iff.mp (before.1.symm.trans last)
    cases solid
  · rw [same, last]

/-- What lies ahead in the one text lies ahead in the other one, unless it goes on across the gap.
Behind it the cursors are at the same place, and before the same character or before a blank. -/
theorem spells (along : Alongside gap cursor cursor') (here : cursor.skipBlanks.Spells text next)
    (apart : (∀ c ∈ text, isBlank c = false) ∨ next.offset ≤ gap.start.offset ∨
      gap.start.offset ≤ cursor.skipBlanks.offset) :
    ∃ behind, cursor'.skipBlanks.rest = text ++ behind ∧
      Alongside gap next (cursor'.skipBlanks.advance text.length) ∧
      (behind.head? = next.rest.head? ∨ behind.head?.all isBlank = true) := by
  have advanced {behind : List Char} (ahead' : cursor'.skipBlanks.rest = text ++ behind) :
      (cursor'.skipBlanks.advance text.length).rest = behind := by
    rw [Cursor.advance, ahead', List.drop_left]
  rcases along.skipBlanks with ⟨left, solid, before, ahead'⟩ | same
  · have fits : (∀ c ∈ text, isBlank c = false) ∨ byteLength text ≤ byteLength left := by
      refine apart.imp_right fun outside => ?_
      have start := before.2
      have stop := here.2
      have positive := byteLength_pos solid
      omega
    obtain ⟨more, rfl, rest⟩ := exists_more gap.blank (before.1.symm.trans here.1) fits
    rw [List.append_assoc] at ahead'
    refine ⟨more ++ gap.tail, ahead', ?_⟩
    by_cases nothing : more = []
    · subst nothing
      refine ⟨.behind ?_, .inr gap.tailBlank⟩
      rw [rest_skipBlanks, rest_skipBlanks, advanced ahead', rest]
      exact gap.same
    · refine ⟨.before (endsSolid_of_append solid nothing) ⟨rest, ?_⟩ (advanced ahead'), .inl ?_⟩
      · rw [before.2, here.2, byteLength_append, Nat.add_assoc]
      · obtain ⟨c, more, rfl⟩ := List.exists_cons_of_ne_nil nothing
        rw [rest]
        rfl
  · have ahead' := same.trans here.1
    refine ⟨next.rest, ahead', .behind ?_, .inl rfl⟩
    rw [rest_skipBlanks, rest_skipBlanks, advanced ahead']

end Alongside

/-- Where no path can go on none can go on before the same character or a blank. -/
theorem endsPath_of_heads {behind' : List Char}
    (heads : behind'.head? = behind.head? ∨ behind'.head?.all isBlank = true)
    (ends : endsPath behind = true) : endsPath behind' = true := by
  rcases heads with same | blank
  · rwa [endsPath, same]
  · exact endsPath_of_blank blank

namespace Alongside

variable {gap : Gap} {cursor cursor' next : Cursor} {tokens : List String} {token : String}

/-! ## Marks -/

theorem standsAt (along : Alongside gap cursor cursor') (mark : IsMark token)
    (solid : ∀ c ∈ token.toList, isBlank c = false) :
    Lexeme.standsAt token.toList cursor'.skipBlanks =
      Lexeme.standsAt token.toList cursor.skipBlanks := by
  rw [Bool.eq_iff_iff, mark.standsAt_iff, mark.standsAt_iff]
  rcases along.skipBlanks with ⟨left, _, before, ahead'⟩ | same
  · rw [ahead', before.1, prefix_append_blank solid gap.blank, prefix_append_blank solid gap.tailBlank]
  · rw [same]

/-- The same marks stand in both texts. -/
theorem token?_isSome (along : Alongside gap cursor cursor')
    (marks : ∀ token ∈ tokens, IsMark token ∧ ∀ c ∈ token.toList, isBlank c = false)
    (registered : token ∈ tokens) :
    (token? tokens token cursor').isSome = (token? tokens token cursor).isSome := by
  obtain ⟨mark, solid⟩ := marks token registered
  have stands := along.standsAt mark solid
  have shadowed : isShadowed tokens token.toList cursor'.skipBlanks =
      isShadowed tokens token.toList cursor.skipBlanks := by
    rw [Bool.eq_iff_iff, isShadowed, isShadowed, List.any_eq_true, List.any_eq_true]
    refine exists_congr fun longer => and_congr_right fun known => ?_
    dsimp only
    rw [along.standsAt (marks longer known).1 (marks longer known).2]
  simp only [token?, stands, shadowed]
  split <;> rfl

theorem next_of_token? (along : Alongside gap cursor cursor')
    (solid : ∀ c ∈ token.toList, isBlank c = false) {lexeme lexeme' : Lexeme String}
    (found : token? tokens token cursor = some lexeme)
    (found' : token? tokens token cursor' = some lexeme') :
    Alongside gap lexeme.next lexeme'.next ∧
      (lexeme'.next.rest.head? = lexeme.next.rest.head? ∨
        lexeme'.next.rest.head?.all isBlank = true) := by
  obtain ⟨behind, ahead', there, heads⟩ := along.spells (spells_of_token? found) (.inl solid)
  obtain ⟨_, _, rfl⟩ := token?_eq_some_iff.mp found'
  have rest : (cursor'.skipBlanks.advance token.toList.length).rest = behind := by
    rw [Cursor.advance, ahead', List.drop_left]
  exact ⟨there, by rwa [Lexeme.ahead, rest]⟩

end Alongside

end Mixfix.Parse
