import Mixfix.Proofs.Text.Tokens

/-!
# Pieces of a source text

A test on byte offsets selects characters of a text (`select`); the text of a span is what lies in
it (`slice`). The selection is made piece by piece: between two cursors it is either everything,
where the test holds throughout, or nothing, where it never holds, and selections from pieces that
follow each other are joined (`Selects`). Blanks are left out of what is selected, so it does not
matter what the test says of them.
-/

set_option autoImplicit false

namespace Mixfix

/-! ## Selections -/

/-- The characters of a text with their byte offsets, from an offset on. -/
def located (offset : Nat) : List Char → List (Nat × Char)
  | [] => []
  | c :: text => (offset, c) :: located (offset + c.utf8Size) text

/-- The characters of a text whose byte offsets satisfy a test. -/
def select (test : Nat → Bool) (offset : Nat) (text : List Char) : List Char :=
  ((located offset text).filter fun place => test place.1).map Prod.snd

/-- Whether a byte offset lies in a span. -/
def Span.covers (span : Span) (offset : Nat) : Bool :=
  span.start ≤ offset && offset < span.stop

/-- The text of a span. -/
def slice (source : String) (span : Span) : List Char := select span.covers 0 source.toList

/-- A text without its blanks. -/
def withoutBlanks (text : List Char) : List Char := text.filter fun c => !Cursor.isBlank c

@[simp]
theorem withoutBlanks_append (text more : List Char) :
    withoutBlanks (text ++ more) = withoutBlanks text ++ withoutBlanks more :=
  List.filter_append _ _

theorem withoutBlanks_of_solid {text : List Char} (solid : ∀ c ∈ text, Cursor.isBlank c = false) :
    withoutBlanks text = text :=
  List.filter_eq_self.mpr fun c mem => by simp [solid c mem]

theorem withoutBlanks_of_blanks {text : List Char} (blanks : ∀ c ∈ text, Cursor.isBlank c = true) :
    withoutBlanks text = [] :=
  List.filter_eq_nil_iff.mpr fun c mem => by simp [blanks c mem]

theorem located_append (offset : Nat) (text more : List Char) :
    located offset (text ++ more) = located offset text ++ located (offset + byteLength text) more := by
  induction text generalizing offset with
  | nil => simp [located, byteLength]
  | cons c text ih => simp [located, ih, byteLength_cons, Nat.add_assoc]

theorem bounds_of_located {offset : Nat} {text : List Char} {place : Nat × Char}
    (mem : place ∈ located offset text) :
    offset ≤ place.1 ∧ place.1 < offset + byteLength text ∧ place.2 ∈ text := by
  induction text generalizing offset with
  | nil => simp [located] at mem
  | cons c text ih =>
      have positive := c.utf8Size_pos
      rw [located, List.mem_cons] at mem
      rw [byteLength_cons]
      rcases mem with rfl | later
      · exact ⟨Nat.le_refl _, by omega, List.mem_cons_self⟩
      · obtain ⟨lower, upper, inside⟩ := ih later
        exact ⟨by omega, by omega, List.mem_cons_of_mem _ inside⟩

variable {test : Nat → Bool} {offset : Nat}

theorem select_append (test : Nat → Bool) (offset : Nat) (text more : List Char) :
    select test offset (text ++ more) =
      select test offset text ++ select test (offset + byteLength text) more := by
  simp [select, located_append]

theorem map_snd_located (offset : Nat) (text : List Char) :
    (located offset text).map Prod.snd = text := by
  induction text generalizing offset with
  | nil => rfl
  | cons c text ih => rw [located, List.map_cons, ih]

theorem select_all {text : List Char}
    (holds : ∀ place, offset ≤ place → place < offset + byteLength text → test place = true) :
    select test offset text = text := by
  have whole : ((located offset text).filter fun place => test place.1) = located offset text :=
    List.filter_eq_self.mpr fun place mem =>
      holds place.1 (bounds_of_located mem).1 (bounds_of_located mem).2.1
  rw [select, whole, map_snd_located]

theorem select_none {text : List Char}
    (fails : ∀ place, offset ≤ place → place < offset + byteLength text → test place = false) :
    select test offset text = [] := by
  have nothing : ((located offset text).filter fun place => test place.1) = [] :=
    List.filter_eq_nil_iff.mpr fun place mem => by
      simp [fails place.1 (bounds_of_located mem).1 (bounds_of_located mem).2.1]
  rw [select, nothing, List.map_nil]

theorem mem_of_mem_select {text : List Char} {c : Char} (mem : c ∈ select test offset text) :
    c ∈ text := by
  obtain ⟨place, kept, rfl⟩ := List.mem_map.mp mem
  exact (bounds_of_located (List.mem_filter.mp kept).1).2.2

theorem select_congr {other : Nat → Bool} {text : List Char}
    (same : ∀ place, offset ≤ place → place < offset + byteLength text → test place = other place) :
    select test offset text = select other offset text := by
  have kept : ((located offset text).filter fun place => test place.1) =
      (located offset text).filter fun place => other place.1 :=
    List.filter_congr fun place mem =>
      same place.1 (bounds_of_located mem).1 (bounds_of_located mem).2.1
  rw [select, select, kept]

/-! ## Between cursors -/

namespace Cursor

/-- The text between two cursors. -/
def Spells (cursor : Cursor) (text : List Char) (next : Cursor) : Prop :=
  cursor.rest = text ++ next.rest ∧ next.offset = cursor.offset + byteLength text

variable {cursor middle next : Cursor}

theorem Spells.trans {text more : List Char} (first : Spells cursor text middle)
    (second : Spells middle more next) : Spells cursor (text ++ more) next := by
  refine ⟨?_, ?_⟩
  · rw [first.1, second.1, List.append_assoc]
  · rw [second.2, first.2, byteLength_append, Nat.add_assoc]

theorem spells_advance (cursor : Cursor) (count : Nat) :
    Spells cursor (cursor.rest.take count) (cursor.advance count) :=
  ⟨(List.take_append_drop count cursor.rest).symm, rfl⟩

theorem Reaches.spells (reaches : Reaches cursor next) : ∃ text, Spells cursor text next := by
  obtain ⟨count, _, rfl⟩ := reaches
  exact ⟨_, spells_advance cursor count⟩

/-- A text that stands ahead is what lies before the cursor behind it. -/
theorem spells_of_prefix {text : List Char} (stands : text <+: cursor.rest) :
    Spells cursor text (cursor.advance text.length) := by
  obtain ⟨behind, same⟩ := stands
  have taken : cursor.rest.take text.length = text := by
    rw [← same, List.take_left]
  have spells := spells_advance cursor text.length
  rwa [taken] at spells

/-- Before the first character that is not blank there are only blanks. -/
theorem spells_skipBlanks (cursor : Cursor) :
    ∃ blanks, Spells cursor blanks cursor.skipBlanks ∧ ∀ c ∈ blanks, isBlank c = true := by
  refine ⟨_, spells_of_prefix (List.takeWhile_prefix isBlank), ?_⟩
  exact List.all_eq_true.mp List.all_takeWhile

theorem LiesIn.spells {source : String} {text : List Char} (inside : cursor.LiesIn source)
    (spells : Spells cursor text next) : next.LiesIn source := by
  obtain ⟨before, whole, counted⟩ := inside
  refine ⟨before ++ text, ?_, ?_⟩
  · rw [whole, spells.1, List.append_assoc]
  · rw [spells.2, counted, byteLength_append]

end Cursor

open Cursor

variable {source : String} {cursor middle next : Cursor} {kept more : List Char}

/-- What is selected from a whole text is selected between two cursors, if the test holds nowhere
else. -/
theorem select_of_spells {text : List Char} (inside : cursor.LiesIn source)
    (spells : cursor.Spells text next)
    (within : ∀ place, test place = true → cursor.offset ≤ place ∧ place < next.offset) :
    select test 0 source.toList = select test cursor.offset text := by
  obtain ⟨before, whole, counted⟩ := inside
  have outside : ∀ place, place < cursor.offset ∨ next.offset ≤ place → test place = false := by
    intro place out
    rw [← Bool.not_eq_true]
    intro holds
    have := within place holds
    omega
  have first : select test 0 before = [] :=
    select_none fun place _ below => outside place (.inl (by omega))
  have last : select test next.offset next.rest = [] :=
    select_none fun place above _ => outside place (.inr above)
  rw [whole, spells.1, select_append, select_append, Nat.zero_add, ← counted, ← spells.2, first, last,
    List.nil_append, List.append_nil]

/-- The text of a span between two cursors. -/
theorem slice_of_spells {text : List Char} (inside : cursor.LiesIn source)
    (spells : cursor.Spells text next) : slice source ⟨cursor.offset, next.offset⟩ = text := by
  rw [slice, select_of_spells inside spells]
  · refine select_all fun place above below => ?_
    rw [← spells.2] at below
    simp [Span.covers, above, below]
  · intro place covered
    simpa [Span.covers] using covered

/-- The text from a cursor on is what lies ahead of it. -/
theorem Cursor.LiesIn.slice_rest (inside : cursor.LiesIn source) :
    slice source ⟨cursor.offset, source.utf8ByteSize⟩ = cursor.rest := by
  have spells : cursor.Spells cursor.rest ⟨cursor.offset + byteLength cursor.rest, []⟩ :=
    ⟨(List.append_nil _).symm, rfl⟩
  rw [← (inside.spells spells).offset_eq rfl]
  exact slice_of_spells inside spells

/-- What a test selects of the text between two cursors, without blanks. -/
def Selects (test : Nat → Bool) (cursor : Cursor) (kept : List Char) (next : Cursor) : Prop :=
  ∃ text, cursor.Spells text next ∧ withoutBlanks (select test cursor.offset text) = kept

theorem Selects.trans (first : Selects test cursor kept middle)
    (second : Selects test middle more next) : Selects test cursor (kept ++ more) next := by
  obtain ⟨text, spells, rfl⟩ := first
  obtain ⟨behind, spells', rfl⟩ := second
  refine ⟨text ++ behind, spells.trans spells', ?_⟩
  rw [select_append, withoutBlanks_append, spells.2]

/-- Of blanks nothing is kept. -/
theorem selects_skipBlanks (test : Nat → Bool) (cursor : Cursor) :
    Selects test cursor [] cursor.skipBlanks := by
  obtain ⟨blanks, spells, blank⟩ := spells_skipBlanks cursor
  exact ⟨blanks, spells, withoutBlanks_of_blanks fun c mem => blank c (mem_of_mem_select mem)⟩

/-- Where the test holds throughout the text is selected. -/
theorem selects_all {text : List Char} (spells : cursor.Spells text next)
    (holds : ∀ place, cursor.offset ≤ place → place < next.offset → test place = true) :
    Selects test cursor (withoutBlanks text) next :=
  ⟨text, spells, by rw [select_all fun place above below => holds place above (spells.2 ▸ below)]⟩

/-- Where the test never holds nothing is selected. -/
theorem selects_none (reaches : cursor.Reaches next)
    (fails : ∀ place, cursor.offset ≤ place → place < next.offset → test place = false) :
    Selects test cursor [] next := by
  obtain ⟨text, spells⟩ := reaches.spells
  refine ⟨text, spells, ?_⟩
  rw [select_none fun place above below => fails place above (spells.2 ▸ below)]
  rfl

/-- A test that agrees with another one between two cursors selects the same there. -/
theorem Selects.congr {other : Nat → Bool} (selects : Selects test cursor kept next)
    (same : ∀ place, cursor.offset ≤ place → place < next.offset → test place = other place) :
    Selects other cursor kept next := by
  obtain ⟨text, spells, rfl⟩ := selects
  refine ⟨text, spells, ?_⟩
  rw [select_congr fun place above below => same place above (spells.2 ▸ below)]

/-- What is selected from a whole text is selected between two cursors, if the test holds nowhere
else. -/
theorem Selects.whole (selects : Selects test cursor kept next) (inside : cursor.LiesIn source)
    (within : ∀ place, test place = true → cursor.offset ≤ place ∧ place < next.offset) :
    withoutBlanks (select test 0 source.toList) = kept := by
  obtain ⟨text, spells, rfl⟩ := selects
  rw [select_of_spells inside spells within]

/-- A registered text that stands ahead is the text between two cursors. -/
theorem spells_of_token? {tokens : List String} {token : String} {lexeme : Lexeme String}
    (found : Lexeme.token? tokens token cursor = some lexeme) :
    cursor.skipBlanks.Spells token.toList lexeme.next := by
  obtain ⟨stands, _, rfl⟩ := Lexeme.token?_eq_some_iff.mp found
  exact spells_of_prefix (Lexeme.prefix_of_standsAt stands)

end Mixfix
