import Mixfix.Proofs.Text.Movement

/-!
# Registered texts

Readers skip blanks, so where they start among blanks makes no difference. Of the registered texts
at most one stands at a place: of two that match there one is a part of the other, and the shorter
one is shadowed (`token?_unique`). A registered text stands where it is written out with a blank or
nothing behind it (`token?_spaced`).
-/

set_option autoImplicit false

namespace Mixfix.Lexeme

open Cursor (isBlank)

variable {tokens : List String} {text other : String} {cursor : Cursor}

/-! ## Blanks ahead -/

@[simp]
theorem token?_skipBlanks (tokens : List String) (text : String) (cursor : Cursor) :
    token? tokens text cursor.skipBlanks = token? tokens text cursor := by
  simp only [token?, Cursor.skipBlanks_skipBlanks]

@[simp]
theorem keyword?_skipBlanks (keyword : Keyword) (cursor : Cursor) :
    keyword? keyword cursor.skipBlanks = keyword? keyword cursor := by
  simp only [keyword?, Cursor.skipBlanks_skipBlanks]

@[simp]
theorem identifier?_skipBlanks (cursor : Cursor) :
    identifier? cursor.skipBlanks = identifier? cursor := by
  simp only [identifier?, Cursor.skipBlanks_skipBlanks]

@[simp]
theorem number?_skipBlanks (cursor : Cursor) : number? cursor.skipBlanks = number? cursor := by
  simp only [number?, Cursor.skipBlanks_skipBlanks]

@[simp]
theorem string?_skipBlanks (cursor : Cursor) : string? cursor.skipBlanks = string? cursor := by
  simp only [string?, Cursor.skipBlanks_skipBlanks]

/-! ## Exact texts -/

/-- An exact text is found where it stands and no longer registered text does. -/
theorem token?_eq_some_iff {lexeme : Lexeme String} :
    token? tokens text cursor = some lexeme ↔
      standsAt text.toList cursor.skipBlanks = true ∧
        isShadowed tokens text.toList cursor.skipBlanks = false ∧
        lexeme = ahead cursor.skipBlanks text.toList.length text := by
  simp only [token?]
  split
  · next stands =>
      simp only [Bool.and_eq_true, Bool.not_eq_true'] at stands
      simp only [stands, Option.some.injEq, true_and]
      exact eq_comm
  · next missing =>
      simp only [Bool.and_eq_true, Bool.not_eq_true', not_and] at missing
      constructor
      · intro found
        cases found
      · rintro ⟨stands, clear, -⟩
        exact absurd clear (missing stands)

theorem standsAt_of_token? {lexeme : Lexeme String}
    (found : token? tokens text cursor = some lexeme) :
    standsAt text.toList cursor.skipBlanks = true :=
  (token?_eq_some_iff.mp found).1

theorem prefix_of_standsAt {wanted : List Char} (stands : standsAt wanted cursor = true) :
    wanted <+: cursor.rest := by
  simp only [standsAt, Bool.and_eq_true, List.isPrefixOf_iff_prefix] at stands
  exact stands.1

/-- A longer registered text that stands ahead keeps a part of it from being found. -/
theorem not_shorter_of_token? {lexeme longer : Lexeme String}
    (found : token? tokens text cursor = some lexeme)
    (other_found : token? tokens other cursor = some longer) (registered : other ∈ tokens) :
    ¬ text.toList.length < other.toList.length := by
  intro shorter
  obtain ⟨stands, clear, -⟩ := token?_eq_some_iff.mp found
  have stands' := standsAt_of_token? other_found
  have part : text.toList <+: other.toList :=
    List.prefix_of_prefix_length_le (prefix_of_standsAt stands) (prefix_of_standsAt stands')
      (Nat.le_of_lt shorter)
  have shadowed : isShadowed tokens text.toList cursor.skipBlanks = true := by
    rw [isShadowed, List.any_eq_true]
    refine ⟨other, registered, ?_⟩
    simp only [shorter, stands', List.isPrefixOf_iff_prefix.mpr part, decide_true, Bool.and_true]
  rw [clear] at shadowed
  cases shadowed

/-- At most one of the registered texts stands at a place. -/
theorem token?_unique (registered : text ∈ tokens) (other_registered : other ∈ tokens)
    (found : (token? tokens text cursor).isSome = true)
    (other_found : (token? tokens other cursor).isSome = true) : text = other := by
  obtain ⟨lexeme, here⟩ := Option.isSome_iff_exists.mp found
  obtain ⟨lexeme', here'⟩ := Option.isSome_iff_exists.mp other_found
  have notShorter := not_shorter_of_token? here here' other_registered
  have notLonger := not_shorter_of_token? here' here registered
  have part : text.toList <+: other.toList :=
    List.prefix_of_prefix_length_le (prefix_of_standsAt (standsAt_of_token? here))
      (prefix_of_standsAt (standsAt_of_token? here')) (by omega)
  exact String.toList_inj.mp (part.eq_of_length (by omega))

/-! ## Exact texts that are written out -/

theorem isWordChar_of_isBlank {c : Char} (blank : isBlank c = true) : isWordChar c = false := by
  simp only [isBlank, Bool.or_eq_true, beq_iff_eq] at blank
  rcases blank with ((rfl | rfl) | rfl) | rfl <;> decide

/-- A text that blanks or nothing follow may end there. -/
theorem endsAt_blank {wanted behind : List Char} (spaced : behind.head?.all isBlank = true) :
    endsAt wanted behind = true := by
  cases behind with
  | nil => simp [endsAt]
  | cons c behind =>
      have notWord := isWordChar_of_isBlank (by simpa using spaced)
      simp [endsAt, notWord]

/-- A registered text is found where it is written out with a blank or nothing behind it, if no
registered text contains blanks. -/
theorem token?_spaced {behind : List Char}
    (solid : ∀ token ∈ tokens, ∀ c ∈ token.toList, isBlank c = false)
    (written : cursor.skipBlanks.rest = text.toList ++ behind)
    (spaced : behind.head?.all isBlank = true) :
    token? tokens text cursor = some (ahead cursor.skipBlanks text.toList.length text) := by
  rw [token?_eq_some_iff]
  refine ⟨?_, ?_, rfl⟩
  · rw [standsAt, written, List.drop_left, endsAt_blank spaced, Bool.and_true,
      List.isPrefixOf_iff_prefix]
    exact List.prefix_append _ _
  · rw [isShadowed, List.any_eq_false]
    rintro longer registered shadows
    simp only [Bool.and_eq_true, decide_eq_true_eq, List.isPrefixOf_iff_prefix] at shadows
    obtain ⟨⟨shorter, more, same⟩, stands⟩ := shadows
    have begins := prefix_of_standsAt stands
    rw [written, ← same, List.prefix_append_right_inj] at begins
    -- the first character of what is longer is the blank behind the text
    cases more with
    | nil => simp [← same] at shorter
    | cons c more =>
        obtain ⟨rest, rfl⟩ := begins
        have blank : isBlank c = true := by simpa using spaced
        have inside : c ∈ longer.toList := by simp [← same]
        rw [solid longer registered c inside] at blank
        cases blank

/-- An exact text is not found where another character stands than its first. -/
theorem token?_eq_none_of_head (nonempty : text ≠ "")
    (differs : cursor.skipBlanks.rest.head? ≠ text.toList.head?) :
    token? tokens text cursor = none := by
  cases found : token? tokens text cursor with
  | none => rfl
  | some lexeme =>
      obtain ⟨rest, same⟩ := prefix_of_standsAt (standsAt_of_token? found)
      exfalso
      apply differs
      rw [← same]
      cases chars : text.toList with
      | nil => exact absurd (String.toList_eq_nil_iff.mp chars) nonempty
      | cons c chars => rfl

end Mixfix.Lexeme
