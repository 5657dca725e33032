import Mixfix.Proofs.Descriptor.Terms

/-!
# Unions are read back

Terms are read back one after the other (`reads_readFrom`), so a union is read back if its members
are (`isReadable_union`). By induction on a descriptor its text is read back if it is legible, and its
base if this one is (`isReadable`). Parentheses are never nested deeper than the text is long.
-/

set_option autoImplicit false

namespace Mixfix.Descriptor

variable {descriptor again : Descriptor} {cursor : Cursor} {behind : List Char} {depth : Nat}

/-! ## Members -/

theorem furtherText_cons (member : Descriptor) (further : List Descriptor) :
    furtherText (member :: further) ++ behind =
      ' ' :: '|' :: ' ' :: (member.text.toList ++ (furtherText further ++ behind)) := by
  simp [furtherText]

/-- Behind a member of a union another one follows, or the union ends. -/
theorem endsTerm_further (further : List Descriptor) (closes : Closes behind) :
    EndsTerm (furtherText further ++ behind) := by
  cases further with
  | nil => exact .inl closes
  | cons member further => exact .inr ⟨_, furtherText_cons member further⟩

theorem Closes.dropSpace (closes : Closes behind) :
    Descriptor.dropSpace behind = behind ∧ behind.head? ≠ some '|' := by
  rcases closes with rfl | ⟨rest, rfl⟩
  · exact ⟨rfl, by decide⟩
  · have closing : Begins (')' :: rest) := ⟨')', rest, rfl, by decide⟩
    exact ⟨closing.dropSpace, by simp⟩

/-- The bar before a further member is passed. -/
theorem eat?_bar {member : Descriptor} {further : List Descriptor}
    (begins : Begins member.text.toList)
    (written : ahead cursor = dropSpace (furtherText (member :: further) ++ behind)) :
    ∃ next, eat? ['|'] cursor = some next ∧
      ahead next = member.text.toList ++ (furtherText further ++ behind) := by
  have bar : Begins ('|' :: ' ' :: (member.text.toList ++ (furtherText further ++ behind))) :=
    ⟨'|', _, rfl, by decide⟩
  rw [furtherText_cons, bar.dropSpace_space] at written
  have written : ahead cursor =
      ['|'] ++ ' ' :: (member.text.toList ++ (furtherText further ++ behind)) := written
  obtain ⟨next, eats, rest⟩ := eat?_written written
  refine ⟨next, eats, ?_⟩
  rw [ahead_eq, rest, (begins.append _).dropSpace_space]

/-- Reads a member and those behind it, where the place behind the member gives the count of steps. -/
def readFrom (inner : Reader Descriptor) (steps : Cursor → Nat) : Reader (List Descriptor) :=
  fun cursor => do
    let (member, cursor) ← readTerm inner cursor
    let (members, cursor) ← readMembers inner (steps cursor) cursor
    .ok (member :: members, cursor)

theorem readUnion_succ (depth : Nat) (cursor : Cursor) :
    readUnion (depth + 1) cursor =
      (readFrom (readUnion depth) (·.rest.length) cursor).map fun (members, next) =>
        (unionOf members, next) := by
  simp only [readUnion, readFrom, bind, Except.bind]
  cases readTerm (readUnion depth) cursor with
  | error stop => rfl
  | ok member =>
      dsimp only
      cases readMembers (readUnion depth) member.2.rest.length member.2 <;> rfl

/-- Where no bar stands ahead, no further member is read. -/
theorem readMembers_end (inner : Reader Descriptor) (steps : Nat)
    (noBar : (ahead cursor).head? ≠ some '|') :
    readMembers inner steps cursor = .ok ([], skipSpace cursor) := by
  cases steps with
  | zero => rfl
  | succ steps => simp only [readMembers, eat?_eq_none noBar]

theorem readMembers_succ {inner : Reader Descriptor} {next : Cursor} (steps : Nat)
    (eats : eat? ['|'] cursor = some next) :
    readMembers inner (steps + 1) cursor = readFrom inner (fun _ => steps) next := by
  simp only [readMembers, eats, readFrom]

theorem readFrom_of_readTerm {inner : Reader Descriptor} {steps : Cursor → Nat} {next : Cursor}
    (read : readTerm inner cursor = .ok (again, next)) :
    readFrom inner steps cursor =
      (readMembers inner (steps next) next).map fun (members, last) => (again :: members, last) := by
  simp only [readFrom, read, bind, Except.bind]
  cases readMembers inner (steps next) next <;> rfl

/-- The members of a union take no less characters than they are. -/
theorem length_le_furtherText (members : List Descriptor) :
    members.length ≤ (dropSpace (furtherText members ++ behind)).length := by
  have all : ∀ members : List Descriptor, members.length ≤ (furtherText members).length := by
    intro members
    induction members with
    | nil => exact Nat.le_refl 0
    | cons member members ih =>
        simp only [furtherText, List.flatMap_cons, List.length_cons, List.length_append] at ih ⊢
        omega
  cases members with
  | nil => exact Nat.zero_le _
  | cons member members =>
      have bar : Begins ('|' :: ' ' :: (member.text.toList ++ (furtherText members ++ behind))) :=
        ⟨'|', _, rfl, by decide⟩
      have later := all members
      rw [furtherText_cons, bar.dropSpace_space]
      simp only [List.length_cons, List.length_append]
      omega

theorem length_le_rest {further : List Descriptor}
    (rest : ahead cursor = dropSpace (furtherText further ++ behind)) :
    further.length ≤ cursor.rest.length := by
  have ahead := length_ahead_le cursor
  rw [rest] at ahead
  exact Nat.le_trans (length_le_furtherText further) ahead

theorem length_text_le {first member : Descriptor} {further : List Descriptor}
    (mem : member ∈ first :: further) :
    member.text.toList.length ≤ (first.text.toList ++ furtherText further).length := by
  rw [List.length_append]
  rcases List.mem_cons.mp mem with rfl | later
  · exact Nat.le_add_right _ _
  · obtain ⟨before, behind, rfl⟩ := List.append_of_mem later
    simp only [furtherText, List.flatMap_append, List.flatMap_cons, List.length_append,
      List.length_cons]
    omega

/-- Behind a member that is read those behind the bar are left to be read. -/
theorem readFrom_cons {first second again : Descriptor} {further : List Descriptor}
    {steps : Cursor → Nat} (one : ReadsTerm first again)
    (deep : first.text.toList.length ≤ depth) (begins : Begins second.text.toList)
    (enough : ∀ next, ahead next = dropSpace (furtherText (second :: further) ++ behind) →
      further.length < steps next) (closes : Closes behind)
    (written : ahead cursor = first.text.toList ++ furtherText (second :: further) ++ behind) :
    ∃ after left, ahead after = second.text.toList ++ furtherText further ++ behind ∧
      further.length ≤ left ∧
      readFrom (readUnion depth) steps cursor =
        (readFrom (readUnion depth) (fun _ => left) after).map fun (members, last) =>
          (again :: members, last) := by
  rw [List.append_assoc] at written
  obtain ⟨next, read, rest⟩ := one.reads depth deep _ (endsTerm_further _ closes) cursor written
  have many := enough next rest
  obtain ⟨left, count⟩ := Nat.exists_eq_succ_of_ne_zero (Nat.ne_zero_of_lt many)
  rw [count] at many
  obtain ⟨after, eats, inside⟩ := eat?_bar begins rest
  rw [← List.append_assoc] at inside
  refine ⟨after, left, inside, Nat.le_of_succ_le_succ many, ?_⟩
  rw [readFrom_of_readTerm read, count, readMembers_succ _ eats]

/-- Members are read back one by one. -/
theorem reads_readFrom {first again : Descriptor} {further agains : List Descriptor}
    {steps : Cursor → Nat} (reads : List.Forall₂ ReadsTerm (first :: further) (again :: agains))
    (begins : ∀ member ∈ first :: further, Begins member.text.toList)
    (deep : ∀ member ∈ first :: further, member.text.toList.length ≤ depth)
    (enough : ∀ next, ahead next = dropSpace (furtherText further ++ behind) →
      further.length ≤ steps next) (closes : Closes behind) :
    Reads (readFrom (readUnion depth) steps) (first.text.toList ++ furtherText further) behind
      (again :: agains) := by
  induction further generalizing first again agains steps with
  | nil =>
      obtain _ | ⟨one, _ | _⟩ := reads
      intro cursor written
      rw [List.append_assoc] at written
      obtain ⟨next, read, rest⟩ := one.reads depth (deep first List.mem_cons_self) _
        (endsTerm_further [] closes) cursor written
      have rest : ahead next = behind := rest.trans closes.dropSpace.1
      refine ⟨skipSpace next, ?_, by rw [ahead_skipSpace, rest, closes.dropSpace.1]⟩
      rw [readFrom_of_readTerm read, readMembers_end _ _ (rest ▸ closes.dropSpace.2)]
      rfl
  | cons second further ih =>
      obtain _ | ⟨one, more⟩ := reads
      obtain _ | ⟨two, others⟩ := more
      intro cursor written
      obtain ⟨after, left, inside, many, split⟩ :=
        readFrom_cons one (deep first List.mem_cons_self)
          (begins second (List.mem_cons_of_mem _ List.mem_cons_self)) enough closes written
      obtain ⟨last, read, rest⟩ := ih (.cons two others)
        (fun member mem => begins member (List.mem_cons_of_mem _ mem))
        (fun member mem => deep member (List.mem_cons_of_mem _ mem)) (fun _ _ => many) after inside
      exact ⟨last, by rw [split, read]; rfl, rest⟩

/-- Terms with bars between them are read back as their union. -/
theorem reads_union {first again : Descriptor} {further agains : List Descriptor}
    (reads : List.Forall₂ ReadsTerm (first :: further) (again :: agains))
    (begins : ∀ member ∈ first :: further, Begins member.text.toList)
    (deep : (first.text.toList ++ furtherText further).length ≤ depth) (closes : Closes behind) :
    Reads (readUnion (depth + 1)) (first.text.toList ++ furtherText further) behind
      (unionOf (again :: agains)) := by
  intro cursor written
  obtain ⟨next, read, rest⟩ := reads_readFrom reads begins
    (fun member mem => Nat.le_trans (length_text_le mem) deep) (fun _ => length_le_rest) closes
    cursor written
  exact ⟨next, by rw [readUnion_succ, read]; rfl, rest⟩

/-- A legible descriptor that is read back as a term is read back where it stands alone. -/
theorem isReadable_of_term (wellFormed : WellFormed descriptor)
    (single : descriptor.isUnion = false) (readable : IsReadableTerm descriptor) :
    IsReadable descriptor := by
  obtain ⟨again, reads⟩ := readable
  refine ⟨again, reads.kept, fun depth deep behind closes => ?_⟩
  have alone : unionOf [again] = again := by
    rw [unionOf, List.flatMap_singleton, members_of_not_isUnion (reads.kept.union.trans single)]
  have whole : descriptor.text.toList ++ furtherText [] = descriptor.text.toList :=
    List.append_nil _
  have union := reads_union (.cons reads .nil)
    (fun member mem => List.mem_singleton.mp mem ▸ begins_text wellFormed)
    (whole.symm ▸ deep) closes
  rwa [whole, alone] at union

theorem unionOf_eq {descriptors : List Descriptor} (several : 2 ≤ descriptors.length)
    (flat : ∀ descriptor ∈ descriptors, descriptor.isUnion = false) :
    unionOf descriptors = .union descriptors := by
  have nonempty : descriptors ≠ [] := by
    rintro rfl
    cases several
  have members := members_unionOf nonempty flat
  cases shape : unionOf descriptors with
  | union members' =>
      rw [shape] at members
      exact congrArg union members
  | _ =>
      rw [shape] at members
      rw [← members] at several
      exact absurd several (by simp [Descriptor.members])

/-- What is read back from the members of a union makes what is read back from the union. -/
theorem rereads_union {members agains : List Descriptor} (several : 2 ≤ members.length)
    (flat : ∀ member ∈ members, member.isUnion = false)
    (reads : List.Forall₂ ReadsTerm members agains) :
    Rereads (.union members) (unionOf agains) := by
  have several' : 2 ≤ agains.length := reads.length_eq ▸ several
  have texts : agains.map text = members.map text := by
    clear several several' flat
    induction reads with
    | nil => rfl
    | cons first later ih => rw [List.map_cons, List.map_cons, first.kept.text, ih]
  have sources : ∀ again ∈ agains, ∃ member ∈ members, ReadsTerm member again := by
    intro again mem
    obtain ⟨i, inside, rfl⟩ := List.getElem_of_mem mem
    have inside' : i < members.length := reads.length_eq.symm ▸ inside
    exact ⟨members[i], List.getElem_mem inside', reads.get inside' inside⟩
  have flat' : ∀ again ∈ agains, again.isUnion = false := by
    intro again mem
    obtain ⟨member, known, reads⟩ := sources again mem
    exact reads.kept.union.trans (flat member known)
  rw [unionOf_eq several' flat']
  refine ⟨?_, rfl, rfl, fun part mem => ?_⟩
  · rw [text, text, texts_eq_map, texts_eq_map, texts]
  · rcases List.mem_cons.mp mem with rfl | inside
    · trivial
    · obtain ⟨again, known, inside⟩ := mem_memberParts.mp inside
      obtain ⟨member, -, reads⟩ := sources again known
      exact reads.kept.settled part inside

theorem isReadable_union {members : List Descriptor} (several : 2 ≤ members.length)
    (flat : ∀ member ∈ members, member.isUnion = false)
    (wellFormed : ∀ member ∈ members, WellFormed member)
    (readable : ∀ member ∈ members, IsReadableTerm member) : IsReadable (.union members) := by
  have exists_all : ∃ agains, List.Forall₂ ReadsTerm members agains := by
    clear several flat wellFormed
    induction members with
    | nil => exact ⟨[], .nil⟩
    | cons member members ih =>
        obtain ⟨again, first⟩ := readable member List.mem_cons_self
        obtain ⟨agains, later⟩ := ih fun other mem => readable other (List.mem_cons_of_mem _ mem)
        exact ⟨again :: agains, .cons first later⟩
  obtain ⟨agains, reads⟩ := exists_all
  refine ⟨unionOf agains, rereads_union several flat reads, fun depth deep behind closes => ?_⟩
  cases reads with
  | nil => cases several
  | @cons first again further agains one more =>
      have whole : (union (first :: further)).text.toList =
          first.text.toList ++ furtherText further := by
        rw [text, toList_joinMembers]
      rw [whole] at deep ⊢
      exact reads_union (.cons one more) (fun member mem => begins_text (wellFormed member mem)) deep
        closes

/-! ## Texts -/

/-- The text of a legible descriptor is read back, and so is a legible base. -/
theorem isReadable {descriptor : Descriptor} (wellFormed : WellFormed descriptor) :
    (descriptor.isUnion = false → descriptor.hasLegibleBase = true → IsReadableBase descriptor) ∧
      (descriptor.isLegible = true → IsReadable descriptor) := by
  have ofBase {descriptor : Descriptor} (wellFormed : WellFormed descriptor)
      (single : descriptor.isUnion = false)
      (readable : descriptor.hasLegibleBase = true → IsReadableBase descriptor) :
      (descriptor.isUnion = false → descriptor.hasLegibleBase = true → IsReadableBase descriptor) ∧
        (descriptor.isLegible = true → IsReadable descriptor) := by
    refine ⟨fun _ => readable, fun legible => isReadable_of_term wellFormed single ?_⟩
    exact isReadableTerm wellFormed single legible readable
  induction wellFormed with
  | unknown => exact ofBase .unknown rfl fun _ => isReadableBase_unknown
  | primitive refines bounded placed =>
      exact ofBase (.primitive refines bounded placed) rfl fun _ =>
        isReadableBase_primitive _ refines
  | unit isUnit => exact ofBase (.unit isUnit) rfl (isReadableBase_unit isUnit)
  | @array element length inside placed ih =>
      refine ofBase (.array inside placed) rfl fun legible => ?_
      cases grouped : element.isGrouped with
      | true =>
          rw [hasLegibleBase, if_pos grouped] at legible
          exact isReadableBase_grouped length inside grouped (ih.2 legible)
      | false =>
          rw [hasLegibleBase, if_neg (by simp [grouped])] at legible
          exact isReadableBase_alone length grouped (ih.1 (isUnion_of_not_isGrouped grouped) legible)
  | union several flat inside ih =>
      refine ⟨fun single => Bool.noConfusion single, fun legible => ?_⟩
      rw [isLegible, allLegible_iff] at legible
      refine isReadable_union several flat inside fun member known => ?_
      have single := flat member known
      exact isReadableTerm (inside member known) single (legible member known)
        ((ih member known).1 single)

end Mixfix.Descriptor
