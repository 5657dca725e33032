import Mixfix.Proofs.Descriptor.WellFormed

/-!
# What is read is well-formed

Every reader of the descriptor language gives well-formed descriptors: bases are well-formed by
themselves, and limits, array marks and bars make well-formed descriptors of well-formed ones. The
readers are followed in their own order, and the depth of the parentheses carries the induction
(`wellFormed_of_parse`).
-/

set_option autoImplicit false

namespace Mixfix

/-- A computation made of two has a result only if both have one. -/
theorem ok_of_bind {ε α β : Type} {first : Except ε α} {next : α → Except ε β} {result : β}
    (ok : first >>= next = .ok result) : ∃ middle, first = .ok middle ∧ next middle = .ok result := by
  cases first with
  | error _ => cases ok
  | ok middle => exact ⟨middle, rfl, ok⟩

/-- A computation made of two fails if the first one does, or the second one after it. -/
theorem error_of_bind {ε α β : Type} {first : Except ε α} {next : α → Except ε β} {failure : ε}
    (failed : first >>= next = .error failure) :
    first = .error failure ∨ ∃ middle, first = .ok middle ∧ next middle = .error failure := by
  cases first with
  | error _ =>
      cases failed
      exact .inl rfl
  | ok middle => exact .inr ⟨middle, rfl, failed⟩

/-- A computation whose result passes a test has a result. -/
theorem exists_ok_of_any {ε α : Type} {computed : Except ε α} {passes : α → Bool}
    (accepted : computed.toOption.any passes = true) :
    ∃ result, computed = .ok result ∧ passes result = true := by
  cases computed with
  | error _ => cases accepted
  | ok result => exact ⟨result, rfl, accepted⟩

namespace Descriptor

/-! ## Numbers -/

theorem ofQuotient_ne_nan (negative : Bool) (numerator denominator : Nat) :
    Binary64.ofQuotient negative numerator denominator ≠ .nan := by
  simp [Binary64.ofQuotient, Binary64.ofRank]

theorem ofDecimal_ne_nan (negative : Bool) (count : Nat) (exponent : Int) :
    Binary64.ofDecimal negative count exponent ≠ .nan := by
  unfold Binary64.ofDecimal
  split
  · simp [Binary64.zero, Binary64.ofRank]
  · split
    · simp [Binary64.infinity, Binary64.ofRank]
    · split
      · simp [Binary64.zero, Binary64.ofRank]
      · exact ofQuotient_ne_nan _ _ _

theorem nearest_ne_nan (negative : Bool) (whole fraction : List Char) (power : Int) :
    Numeral.nearest negative whole fraction power ≠ .nan :=
  ofDecimal_ne_nan _ _ _

theorem of_numberOf? {text : List Char} {number : Number} (found : numberOf? text = some number) :
    number.limit ≠ .nan ∧ IsUnit number.value := by
  simp only [numberOf?] at found
  generalize (if (text.head? == some '-') = true then text.drop 1 else text) = unsigned at found
  split at found
  · split at found
    · cases found
    · split at found
      · cases found
        exact ⟨nearest_ne_nan _ _ _ _, .integer _⟩
      · cases found
        exact ⟨nearest_ne_nan _ _ _ _, .float (nearest_ne_nan _ _ _ _)⟩
  · split at found
    · cases found
      exact ⟨nearest_ne_nan _ _ _ _, .float (nearest_ne_nan _ _ _ _)⟩
    · cases found

/-- Whatever a reader gives has a property. -/
def Always {α : Type} (reader : Reader α) (P : α → Prop) : Prop :=
  ∀ cursor result next, reader cursor = .ok (result, next) → P result

theorem readNumber_always :
    Always readNumber fun number => number.limit ≠ .nan ∧ IsUnit number.value := by
  intro cursor number next ok
  simp only [readNumber] at ok
  split at ok
  · next found =>
      cases ok
      exact of_numberOf? found
  · cases ok

/-! ## Limits -/

theorem isPlaced_limitSide {bound : Bound} {bounds limited : Bounds} {side : Side}
    (placed : bounds.IsPlaced) (limit : bound.limit ≠ .nan)
    (ok : limitSide bound bounds side = .ok limited) : limited.IsPlaced := by
  cases side with
  | lower =>
      simp only [limitSide] at ok
      split at ok
      · cases ok
      · cases ok
        exact ⟨by simpa using limit, placed.2⟩
  | upper =>
      simp only [limitSide] at ok
      split at ok
      · cases ok
      · cases ok
        exact ⟨placed.1, by simpa using limit⟩

theorem ok_of_map {ε α β : Type} {first : Except ε α} {f : α → β} {result : β}
    (ok : first.map f = .ok result) : ∃ middle, first = .ok middle ∧ f middle = result := by
  cases first with
  | error _ => cases ok
  | ok middle => exact ⟨middle, rfl, Except.ok.inj ok⟩

theorem wellFormed_limit {side : Side} {bound : Bound} {base limited : Descriptor}
    (wellFormed : WellFormed base) (placed : bound.limit ≠ .nan)
    (ok : limit side bound base = .ok limited) : WellFormed limited := by
  cases wellFormed with
  | primitive refines bounded placed' =>
      simp only [limit] at ok
      split at ok
      · next isBounded =>
          obtain ⟨bounds, sided, rfl⟩ := ok_of_map ok
          exact .primitive refines (.inl isBounded) (isPlaced_limitSide placed' placed sided)
      · cases ok
  | array inside placed' =>
      obtain ⟨length, sided, rfl⟩ := ok_of_map ok
      exact .array inside (isPlaced_limitSide placed' placed sided)
  | unknown => cases ok
  | unit isUnit => cases ok
  | union several flat inside => cases ok

theorem wellFormed_limitBehind {mark : Mark} {x : Binary64} {base limited : Descriptor}
    (wellFormed : WellFormed base) (placed : x ≠ .nan)
    (ok : limitBehind mark x base = .ok limited) : WellFormed limited := by
  cases mark with
  | equal =>
      obtain ⟨middle, lower, upper⟩ := ok_of_bind ok
      exact wellFormed_limit (wellFormed_limit wellFormed placed lower) placed upper
  | less => exact wellFormed_limit wellFormed placed ok
  | lessEqual => exact wellFormed_limit wellFormed placed ok
  | greater => exact wellFormed_limit wellFormed placed ok
  | greaterEqual => exact wellFormed_limit wellFormed placed ok

theorem ok_of_placed {α : Type} {cursor : Cursor} {step : Except Reason α} {result : α}
    (ok : placed cursor step = .ok result) : step = .ok result := by
  cases step with
  | error _ => cases ok
  | ok _ => exact congrArg Except.ok (Except.ok.inj ok)

/-! ## Bases -/

theorem wellFormed_ofWord {word : List Char} {descriptor : Descriptor}
    (ok : ofWord word = .ok descriptor) : WellFormed descriptor := by
  simp only [ofWord] at ok
  split at ok
  · cases ok
    exact .primitive (by simp) (.inr rfl) isPlaced_none
  · split at ok
    · next found =>
        cases ok
        obtain ⟨subtype, first, rfl⟩ := Option.map_eq_some_iff.mp found
        have holds := List.find?_some first
        simp only [Bool.and_eq_true, beq_iff_eq] at holds
        exact .primitive (by simpa using holds.1) (.inr rfl) isPlaced_none
    · cases ok
  · split at ok
    · cases ok
      exact .unknown
    · split at ok
      · cases ok
        exact .unit (.boolean true)
      · split at ok
        · cases ok
          exact .unit (.boolean false)
        · cases ok
  · cases ok

variable {inner : Reader Descriptor}

theorem wellFormed_readPrimary (inside : Always inner WellFormed) :
    Always (readPrimary inner) WellFormed := by
  intro cursor descriptor next ok
  simp only [readPrimary] at ok
  split at ok
  · cases ok
  · split at ok
    · obtain ⟨⟨enclosed, behind⟩, read, closes⟩ := ok_of_bind ok
      dsimp only at closes
      split at closes
      · cases closes
        exact inside _ _ _ read
      · cases closes
    · split at ok
      · simp only [readQuoted] at ok
        split at ok
        · cases ok
          exact .unit (.string _)
        · cases ok
      · split at ok
        · obtain ⟨_, word, same⟩ := ok_of_bind ok
          cases same
          exact wellFormed_ofWord (ok_of_placed word)
        · split at ok
          · obtain ⟨⟨number, behind⟩, read, same⟩ := ok_of_bind ok
            cases same
            exact .unit (readNumber_always _ _ _ read).2
          · cases ok

theorem wellFormed_readArrayMarks {steps : Nat} {base descriptor : Descriptor}
    {cursor next : Cursor} (wellFormed : WellFormed base)
    (same : readArrayMarks steps base cursor = (descriptor, next)) : WellFormed descriptor := by
  induction steps generalizing base cursor with
  | zero =>
      cases same
      exact wellFormed
  | succ steps ih =>
      simp only [readArrayMarks] at same
      split at same
      · exact ih (.array wellFormed isPlaced_none) same
      · cases same
        exact wellFormed

theorem wellFormed_readBase (inside : Always inner WellFormed) :
    Always (readBase inner) WellFormed := by
  intro cursor descriptor next ok
  obtain ⟨⟨base, behind⟩, read, same⟩ := ok_of_bind ok
  exact wellFormed_readArrayMarks (wellFormed_readPrimary inside _ _ _ read) (Except.ok.inj same)

/-! ## Terms and unions -/

theorem wellFormed_readRange (inside : Always inner WellFormed) {lower : Bound}
    (limit : lower.limit ≠ .nan) : Always (readRange inner lower) WellFormed := by
  intro cursor descriptor next ok
  obtain ⟨⟨base, behind⟩, read, rest⟩ := ok_of_bind ok
  obtain ⟨limited, below, rest⟩ := ok_of_bind rest
  have wellFormed := wellFormed_limit (wellFormed_readBase inside _ _ _ read) limit
    (ok_of_placed below)
  dsimp only at rest
  split at rest
  · cases rest
    exact wellFormed
  · split at rest
    · obtain ⟨⟨number, afterNumber⟩, readUpper, rest⟩ := ok_of_bind rest
      obtain ⟨bounded, above, rest⟩ := ok_of_bind rest
      cases rest
      exact wellFormed_limit wellFormed (readNumber_always _ _ _ readUpper).1 (ok_of_placed above)
    · cases rest

theorem wellFormed_readTerm (inside : Always inner WellFormed) :
    Always (readTerm inner) WellFormed := by
  intro cursor descriptor next ok
  simp only [readTerm] at ok
  split at ok
  · obtain ⟨⟨number, behind⟩, read, rest⟩ := ok_of_bind ok
    have isNumber := readNumber_always _ _ _ read
    dsimp only at rest
    split at rest
    · cases rest
      exact .unit isNumber.2
    · split at rest
      · exact wellFormed_readRange inside isNumber.1 _ _ _ rest
      · cases rest
  · obtain ⟨⟨base, behind⟩, read, rest⟩ := ok_of_bind ok
    have wellFormed := wellFormed_readBase inside _ _ _ read
    dsimp only at rest
    split at rest
    · cases rest
      exact wellFormed
    · obtain ⟨⟨number, afterNumber⟩, readLimit, rest⟩ := ok_of_bind rest
      obtain ⟨limited, bounded, rest⟩ := ok_of_bind rest
      cases rest
      exact wellFormed_limitBehind wellFormed (readNumber_always _ _ _ readLimit).1
        (ok_of_placed bounded)

theorem wellFormed_readMembers (inside : Always inner WellFormed) (steps : Nat) :
    Always (readMembers inner steps) fun members => ∀ member ∈ members, WellFormed member := by
  induction steps with
  | zero =>
      intro cursor members next ok
      cases ok
      simp
  | succ steps ih =>
      intro cursor members next ok
      simp only [readMembers] at ok
      split at ok
      · cases ok
        simp
      · obtain ⟨⟨member, behind⟩, read, rest⟩ := ok_of_bind ok
        obtain ⟨⟨more, afterMore⟩, readMore, rest⟩ := ok_of_bind rest
        cases rest
        intro other mem
        rcases List.mem_cons.mp mem with rfl | later
        · exact wellFormed_readTerm inside _ _ _ read
        · exact ih _ _ _ readMore other later

theorem wellFormed_readUnion (depth : Nat) : Always (readUnion depth) WellFormed := by
  induction depth with
  | zero =>
      intro cursor descriptor next ok
      cases ok
  | succ depth ih =>
      intro cursor descriptor next ok
      obtain ⟨⟨member, behind⟩, read, rest⟩ := ok_of_bind ok
      obtain ⟨⟨members, afterMembers⟩, readMore, rest⟩ := ok_of_bind rest
      cases rest
      refine wellFormed_unionOf fun other mem => ?_
      rcases List.mem_cons.mp mem with rfl | later
      · exact wellFormed_readTerm ih _ _ _ read
      · exact wellFormed_readMembers ih _ _ _ _ readMore other later

/-- Whatever is read from a text is well-formed. -/
theorem wellFormed_of_parse {text : String} {descriptor : Descriptor}
    (ok : parse text = .ok descriptor) : WellFormed descriptor := by
  simp only [parse] at ok
  split at ok
  · next result read =>
      cases ok
      obtain ⟨⟨found, behind⟩, union, rest⟩ := ok_of_bind read
      dsimp only at rest
      split at rest
      · cases rest
        exact wellFormed_readUnion _ _ _ _ union
      · cases rest
  · cases ok

end Descriptor

end Mixfix
