import Mathlib.Data.List.MinMax
import Mixfix.Proofs.Parse.Index
import Mixfix.Proofs.Text.Tokens

/-!
# The longest registered text

Several registered texts can stand at one place: all of them are beginnings of what lies ahead, so of
two that stand there the shorter one begins the longer one (`prefix_of_stands`). A text that ends in a
word character stands only where no word character follows, so the longest beginning that is registered
need not stand while a shorter one does.

Of those that stand exactly one is found, the longest (`isSome_token?_iff`). Since this depends on what
is registered only and not on the order of the registered texts, the order makes no difference to the
candidates that match, nor to a parse (`longest_token_wins`).
-/

set_option autoImplicit false

namespace Mixfix

namespace Lexeme

variable {tokens others : List String} {text other : String} {cursor : Cursor}

/-! ## Texts that stand ahead -/

/-- A text stands at the beginning of what lies ahead, and not with its end inside a word. -/
def Stands (text : String) (ahead : List Char) : Prop :=
  ∃ behind, ahead = text.toList ++ behind ∧
    ∀ last ∈ text.toList.getLast?, ∀ next ∈ behind.head?,
      ¬ (isWordChar last = true ∧ isWordChar next = true)

/-- The longest of the registered texts that stand ahead; lengths are in bytes. -/
structure IsLongestToken (tokens : List String) (ahead : List Char) (text : String) : Prop where
  mem : text ∈ tokens
  stands : Stands text ahead
  longest : ∀ other ∈ tokens, Stands other ahead → byteLength other.toList ≤ byteLength text.toList

theorem endsAt_iff {text behind : List Char} : endsAt text behind = true ↔
    ∀ last ∈ text.getLast?, ∀ next ∈ behind.head?,
      ¬ (isWordChar last = true ∧ isWordChar next = true) := by
  rw [endsAt, Bool.not_eq_true', ← Bool.not_eq_true, Bool.and_eq_true, Option.any_eq_true,
    Option.any_eq_true]
  constructor
  · rintro apart last isLast next isNext ⟨word, goesOn⟩
    exact apart ⟨⟨last, isLast, word⟩, next, isNext, goesOn⟩
  · rintro apart ⟨⟨last, isLast, word⟩, next, isNext, goesOn⟩
    exact apart last isLast next isNext ⟨word, goesOn⟩

theorem stands_iff : Stands text cursor.rest ↔ standsAt text.toList cursor = true := by
  rw [standsAt, Bool.and_eq_true, List.isPrefixOf_iff_prefix]
  constructor
  · rintro ⟨behind, whole, ends⟩
    rw [whole, List.drop_left]
    exact ⟨List.prefix_append _ _, endsAt_iff.mpr ends⟩
  · rintro ⟨⟨behind, whole⟩, ends⟩
    rw [← whole, List.drop_left] at ends
    exact ⟨behind, whole.symm, endsAt_iff.mp ends⟩

/-- Of two texts that stand at a place, the one with fewer characters begins the other one. -/
theorem prefix_of_stands {ahead : List Char} (stands : Stands text ahead)
    (other_stands : Stands other ahead) (shorter : text.toList.length ≤ other.toList.length) :
    text.toList <+: other.toList := by
  obtain ⟨behind, rfl, -⟩ := stands
  obtain ⟨behind', whole, -⟩ := other_stands
  exact List.prefix_of_prefix_length_le (List.prefix_append _ _) ⟨behind', whole.symm⟩ shorter

/-- A text that stands ahead is shadowed by the registered texts with more bytes that stand there. -/
theorem isShadowed_iff (stands : Stands text cursor.rest) :
    isShadowed tokens text.toList cursor = true ↔
      ∃ other ∈ tokens, Stands other cursor.rest ∧
        byteLength text.toList < byteLength other.toList := by
  rw [isShadowed, List.any_eq_true]
  refine exists_congr fun other => and_congr_right fun _ => ?_
  rw [Bool.and_eq_true, Bool.and_eq_true, decide_eq_true_eq, List.isPrefixOf_iff_prefix,
    ← stands_iff]
  constructor
  · rintro ⟨⟨shorter, begins⟩, other_stands⟩
    exact ⟨other_stands, (Cursor.byteLength_lt_iff begins).mpr shorter⟩
  · rintro ⟨other_stands, fewer⟩
    -- the other way round the shorter text would have at least as many bytes
    have shorter : text.toList.length < other.toList.length := by
      by_contra notShorter
      obtain ⟨more, same⟩ := prefix_of_stands other_stands stands (Nat.le_of_not_lt notShorter)
      rw [← same, byteLength_append] at fewer
      omega
    have begins := prefix_of_stands stands other_stands (Nat.le_of_lt shorter)
    exact ⟨⟨shorter, begins⟩, other_stands⟩

/-- A registered text is found exactly if it is the longest of those that stand ahead. -/
theorem isSome_token?_iff (registered : text ∈ tokens) :
    (token? tokens text cursor).isSome = true ↔ IsLongestToken tokens cursor.skipBlanks.rest text := by
  have found : (token? tokens text cursor).isSome = true ↔
      standsAt text.toList cursor.skipBlanks = true ∧
        isShadowed tokens text.toList cursor.skipBlanks = false := by
    rw [Option.isSome_iff_exists]
    simp only [token?_eq_some_iff, exists_and_left, exists_eq, and_true]
  rw [found, ← stands_iff]
  constructor
  · rintro ⟨stands, clear⟩
    refine ⟨registered, stands, fun other mem other_stands => Nat.le_of_not_lt fun fewer => ?_⟩
    rw [(isShadowed_iff stands).mpr ⟨other, mem, other_stands, fewer⟩] at clear
    cases clear
  · intro longest
    refine ⟨longest.stands, eq_false_of_ne_true fun shadowed => ?_⟩
    obtain ⟨other, mem, other_stands, fewer⟩ := (isShadowed_iff longest.stands).mp shadowed
    exact Nat.not_lt.mpr (longest.longest other mem other_stands) fewer

/-- Where a registered text stands, one of those that stand there is the longest. -/
theorem exists_isLongestToken {ahead : List Char} (registered : text ∈ tokens)
    (stands : Stands text ahead) : ∃ winner, IsLongestToken tokens ahead winner := by
  classical
  have standing {other : String} :
      other ∈ tokens.filter (Stands · ahead) ↔ other ∈ tokens ∧ Stands other ahead := by
    rw [List.mem_filter, decide_eq_true_eq]
  let size (other : String) : Nat := byteLength other.toList
  cases best : (tokens.filter (Stands · ahead)).argmax size with
  | none =>
      rw [List.argmax_eq_none] at best
      have mem := standing.mpr ⟨registered, stands⟩
      rw [best] at mem
      cases mem
  | some winner =>
      obtain ⟨mem, winner_stands⟩ := standing.mp (List.argmax_mem best)
      exact ⟨winner, mem, winner_stands, fun other other_mem other_stands =>
        List.le_of_mem_argmax (f := size) (standing.mpr ⟨other_mem, other_stands⟩) best⟩

/-- What is found does not depend on the order of the registered texts. -/
theorem token?_of_perm (reordered : others.Perm tokens) (text : String) (cursor : Cursor) :
    token? others text cursor = token? tokens text cursor := by
  have shadowed (wanted : List Char) (place : Cursor) :
      isShadowed others wanted place = isShadowed tokens wanted place := by
    rw [Bool.eq_iff_iff, isShadowed, isShadowed, List.any_eq_true, List.any_eq_true]
    simp only [reordered.mem_iff]
  simp only [token?, shadowed]

end Lexeme

/-! ## Parsing with registered texts in another order -/

/-- A setting with another list of registered texts. -/
def Setting.withTokens (setting : Setting) (tokens : List String) : Setting :=
  { setting with grammar := { setting.grammar with tokens } }

theorem Setting.agrees_withTokens {setting : Setting} {tokens : List String}
    (reordered : tokens.Perm setting.grammar.tokens) : (setting.withTokens tokens).Agrees setting :=
  ⟨rfl, rfl, fun _ => rfl, Lexeme.token?_of_perm reordered, rfl, rfl⟩

namespace Parse

open Lexeme

/-- **One registered text is found at each place.** Whatever texts are registered, those that are found
at a place are the longest of those that stand there as words or marks of their own: exactly one if any
of them does. In another order of the registered texts the same one is found, the same candidates match
with the same result, and all texts have the same parse. -/
theorem longest_token_wins (tokens : List String) :
    (∀ cursor, ∀ text ∈ tokens, (token? tokens text cursor).isSome = true ↔
      IsLongestToken tokens cursor.skipBlanks.rest text) ∧
    (∀ cursor, (∃ text ∈ tokens, Stands text cursor.skipBlanks.rest) →
      ∃! text, text ∈ tokens ∧ (token? tokens text cursor).isSome = true) ∧
    (∀ cursor, ∀ first ∈ tokens, ∀ second ∈ tokens, first ≠ second →
      token? tokens first cursor = none ∨ token? tokens second cursor = none) ∧
    ∀ others, others.Perm tokens →
      (∀ text cursor, token? others text cursor = token? tokens text cursor) ∧
      ∀ setting : Setting, setting.grammar.tokens = tokens →
        (∀ operand production precedence elements cursor,
          matchPattern (setting.withTokens others) operand production precedence elements cursor =
            matchPattern setting operand production precedence elements cursor) ∧
        ∀ source, atStart (setting.withTokens others) source = atStart setting source ∧
          whole (setting.withTokens others) source = whole setting source := by
  refine ⟨fun cursor text mem => isSome_token?_iff mem, ?_, ?_, ?_⟩
  · rintro cursor ⟨text, mem, stands⟩
    obtain ⟨winner, longest⟩ := exists_isLongestToken mem stands
    have found := (isSome_token?_iff longest.mem).mpr longest
    exact ⟨winner, ⟨longest.mem, found⟩,
      fun other ⟨other_mem, also⟩ => token?_unique other_mem longest.mem also found⟩
  · intro cursor first first_mem second second_mem differ
    by_contra both
    rw [not_or, ← ne_eq, ← ne_eq, Option.ne_none_iff_isSome, Option.ne_none_iff_isSome] at both
    exact differ (token?_unique first_mem second_mem both.1 both.2)
  · intro others reordered
    refine ⟨token?_of_perm reordered, ?_⟩
    rintro setting rfl
    have agrees := Setting.agrees_withTokens reordered
    exact ⟨matchPattern_of_agrees agrees,
      fun source => ⟨atStart_of_agrees agrees source, whole_of_agrees agrees source⟩⟩

/-- Where `<=x` would end inside a word, the shorter `<=` is the only one that is found, and `<` is
shadowed by it. -/
theorem longest_token_wins_insideWord :
    Stands "<" "<=xy".toList ∧
      ∃! text, text ∈ ["<=x", "<=", "<"] ∧
        (token? ["<=x", "<=", "<"] text (Cursor.start " <=xy")).isSome = true := by
  have stands : Stands "<" (Cursor.start " <=xy").skipBlanks.rest := by
    rw [stands_iff]
    decide
  refine ⟨stands, ?_⟩
  exact (longest_token_wins ["<=x", "<=", "<"]).2.1 (Cursor.start " <=xy") ⟨"<", by decide, stands⟩

end Parse

end Mixfix
