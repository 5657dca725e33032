import Mixfix.Proofs.Descriptor.AsRead
import Mixfix.Proofs.Descriptor.RefusedUnions

/-!
# Descriptors are read back

The canonical text of a descriptor that was read from a text is read again exactly if the descriptor is
legible, and what is read then has the same text (`parse_text`). It describes the values that the
descriptor describes with integers in place of the whole numbers whose digits are those of an integer
(`asRead`). Only from `2 ^ 53` on are other values described then, where a second integer is rounded to
such a number (`isPinned_iff`).

The readers are followed from terms to unions, and by induction on the descriptor from its parts to
the whole, where the text is taken (`isReadable`) as well as where it is not (`isRefused`).
-/

set_option autoImplicit false

namespace Mixfix.Descriptor

variable {descriptor : Descriptor}

/-- The text of a descriptor is where the reader starts. -/
theorem ahead_start_text (wellFormed : WellFormed descriptor) :
    ahead (Cursor.start descriptor.text) = descriptor.text.toList ++ [] := by
  rw [ahead_eq, List.append_nil]
  exact (begins_text wellFormed).dropSpace

/-- The text of a legible descriptor is read. -/
theorem exists_parse_text (wellFormed : WellFormed descriptor)
    (legible : descriptor.isLegible = true) :
    ∃ again, parse descriptor.text = .ok again ∧ Rereads descriptor again := by
  obtain ⟨again, kept, reads⟩ := (isReadable wellFormed).2 legible
  obtain ⟨next, read, rest⟩ := reads _ (Nat.le_refl _) [] (.inl rfl) _ (ahead_start_text wellFormed)
  have length : (Cursor.start descriptor.text).rest.length = descriptor.text.toList.length := rfl
  have ends : (skipSpace next).rest = [] := rest
  refine ⟨again, ?_, kept⟩
  simp only [parse, length, read, bind, Except.bind, ends, List.isEmpty_nil, if_true]

/-- The text of a descriptor that is not legible is not read, as a reader that stops in front of an
array mark has not filled the text. -/
theorem parse_text_ne_ok (wellFormed : WellFormed descriptor)
    (illegible : descriptor.isLegible = false) (again : Descriptor) :
    parse descriptor.text ≠ .ok again := by
  have length : (Cursor.start descriptor.text).rest.length = descriptor.text.toList.length := rfl
  intro parsed
  rcases (isRefused wellFormed).2 illegible _ (Nat.le_refl _) [] (.inl rfl) _
    (ahead_start_text wellFormed) with ⟨stop, failed⟩ | ⟨result, next, read, mark⟩
  · simp only [parse, length, failed, bind, Except.bind] at parsed
    cases parsed
  · have left : (skipSpace next).rest.isEmpty = false := by
      have mark : (skipSpace next).rest.head? = some '[' := mark
      rw [List.eq_cons_of_mem_head? mark]
      rfl
    simp only [parse, length, read, bind, Except.bind, left, Bool.false_eq_true, if_false] at parsed
    cases parsed

/-- The text of a descriptor is read exactly if the descriptor is legible. What is read has the same
text and admits what is admitted with the integers that are read, which are the same values where no
second integer is rounded to a number. -/
theorem parse_text {text : String} {descriptor : Descriptor} (ok : parse text = .ok descriptor) :
    (descriptor.isLegible = true ↔ ∃ again, parse descriptor.text = .ok again) ∧
      ∀ again, parse descriptor.text = .ok again →
        again.text = descriptor.text ∧
          (∀ value, again.admits value = descriptor.asRead.admits value) ∧
          ((∀ part ∈ descriptor.parts, IsPinned part) →
            ∀ value, again.admits value = descriptor.admits value) := by
  have wellFormed := wellFormed_of_parse ok
  have legible_of_parse (again) (parsed : parse descriptor.text = .ok again) :
      descriptor.isLegible = true := by
    by_contra illegible
    exact parse_text_ne_ok wellFormed (Bool.eq_false_iff.mpr illegible) again parsed
  refine ⟨⟨fun legible => ?_, fun ⟨again, parsed⟩ => legible_of_parse again parsed⟩, ?_⟩
  · obtain ⟨again, parsed, -⟩ := exists_parse_text wellFormed legible
    exact ⟨again, parsed⟩
  intro again parsed
  obtain ⟨again', parsed', kept⟩ := exists_parse_text wellFormed (legible_of_parse again parsed)
  cases Except.ok.inj (parsed.symm.trans parsed')
  have settled := isSettled_asRead wellFormed
  have readAs (value) : again.admits value = descriptor.asRead.admits value :=
    admits_eq_of_text (wellFormed_of_parse parsed) (wellFormed_asRead wellFormed)
      (unitsAgree_of_settled kept.settled fun part mem => (settled part mem).isPinned)
      (kept.text.trans (text_asRead wellFormed).symm) value
  exact ⟨kept.text, readAs, fun pinned value =>
    (readAs value).trans (admits_asRead wellFormed pinned value)⟩

/-- A number under array marks between limits, an array of a union, and two numbers from `2 ^ 53` on to
which no second integer is rounded, written without spaces and with zeros and quotes of its own. -/
theorem parse_text_sample :
    ∃ descriptor again,
      parse "2<=(1)[][]<=3|(number>2.50|\"it's\"|-0.0)[]|10000000000000000000|9007199254740994.0" =
        .ok descriptor ∧
      descriptor.text =
        "2 <= 1[][] <= 3 | (number > 2.5 | 'it\\'s' | 0)[] | 10000000000000000000 | 9007199254740994" ∧
      parse descriptor.text = .ok again ∧ again.text = descriptor.text ∧
      ∀ value, again.admits value = descriptor.admits value := by
  let descriptor : Descriptor :=
    .union [.array (.array (.unit (.integer 1)) .none)
        ⟨some ⟨.ofDecimal false 2 0, true⟩, some ⟨.ofDecimal false 3 0, true⟩⟩,
      .array (.union [.primitive .number none ⟨some ⟨.ofDecimal false 250 (-2), false⟩, none⟩,
        .unit (.string "it's"), .unit (.float (.zero true))]) .none,
      .unit (.float (.ofDecimal false 10000000000000000000 0)),
      .unit (.float (.ofDecimal false 90071992547409940 (-1)))]
  have read : parse
      "2<=(1)[][]<=3|(number>2.50|\"it's\"|-0.0)[]|10000000000000000000|9007199254740994.0" =
        .ok descriptor := rfl
  have shown : descriptor.text =
      "2 <= 1[][] <= 3 | (number > 2.5 | 'it\\'s' | 0)[] | 10000000000000000000 | 9007199254740994" := by
    decide +kernel
  have taken : descriptor.isLegible = true := by decide +kernel
  have pinned : ∀ part ∈ descriptor.parts, IsPinned part := by decide +kernel
  obtain ⟨legible, kept⟩ := parse_text read
  obtain ⟨again, reread⟩ := legible.mp taken
  obtain ⟨text, -, admits⟩ := kept again reread
  exact ⟨descriptor, again, read, shown, reread, text, admits pinned⟩

/-- Not every text of a descriptor is read: in front of array marks a number is taken for the whole
term. -/
theorem not_parse_text_of_number_elements :
    ¬ ∀ (text : String) (descriptor : Descriptor), parse text = .ok descriptor →
      ∃ again, parse descriptor.text = .ok again ∧ again.text = descriptor.text ∧
        ∀ value, again.admits value = descriptor.admits value := by
  intro all
  have grouped : parse "(1)[]" = .ok (.array (.unit (.integer 1)) .none) := rfl
  have shown : text (.array (.unit (.integer 1)) .none) = "1[]" := by decide +kernel
  have fails : parse "1[]" = .error ⟨"1[]", 1, .trailing⟩ := rfl
  obtain ⟨again, read, -⟩ := all _ _ grouped
  rw [shown, fails] at read
  cases read

/-- A limit beyond all magnitudes is written as a word, which is no number. -/
example : text (.primitive .number none ⟨some ⟨.ofDecimal false (10 ^ 309) 0, true⟩, none⟩) =
      "number >= inf" ∧
    (parse "number >= inf").toOption.isNone = true := by
  decide +kernel

/-- A whole number from `2 ^ 53` on is read back as one of the integers that are equal to it. -/
example : (parse "1000000000000000000.0").toOption.map text = some "1000000000000000000" ∧
    (parse "1000000000000000000.0").toOption.map (·.admits (.integer 1000000000000000001)) =
      some true ∧
    (parse "1000000000000000000").toOption.map (·.admits (.integer 1000000000000000001)) =
      some false := by
  decide +kernel

end Mixfix.Descriptor
