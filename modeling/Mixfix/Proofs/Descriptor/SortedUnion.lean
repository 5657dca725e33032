import Mixfix.Descriptor.SortedUnion
import Mixfix.Proofs.Descriptor.WellFormed

/-!
# Members of sorted unions

A sorted union keeps one member for each text. So what it keeps comes from one of its sources, and
every member of a source has a member of the same text among those that are kept
(`mem_members_sortedUnion`, `exists_member_sortedUnion`).
-/

set_option autoImplicit false

namespace Mixfix

namespace Dict

variable {α : Type}

/-- What is found under a name is in the dictionary. -/
theorem mem_of_get? {name : String} {entry : α} {dict : Dict α}
    (found : get? dict name = some entry) : (name, entry) ∈ dict := by
  induction dict with
  | nil => cases found
  | cons head rest ih =>
      obtain ⟨key, kept⟩ := head
      rw [get?_cons] at found
      split at found
      · next same =>
          cases found
          exact same ▸ List.mem_cons_self
      · exact List.mem_cons_of_mem _ (ih found)

end Dict

namespace Descriptor

theorem mem_addMember {byText : Dict Descriptor} {member : Descriptor}
    {entry : String × Descriptor} (mem : entry ∈ addMember byText member) :
    entry = (member.text, member) ∨ entry ∈ byText := by
  unfold addMember at mem
  split at mem
  · exact .inr mem
  · exact Dict.mem_of_mem_insert mem

/-- Adding a member keeps the texts that are there, and its own text is there. -/
theorem contains_addMember (byText : Dict Descriptor) (member : Descriptor) (text : String) :
    Dict.contains (addMember byText member) text =
      (decide (text = member.text) || Dict.contains byText text) := by
  unfold addMember
  split
  · next there =>
      by_cases same : text = member.text
      · simp [same, there]
      · simp [same]
  · rw [Dict.contains, Dict.get?_insert]
    by_cases same : text = member.text
    · simp [same]
    · simp [same, Dict.contains]

/-- What is kept stands under its text and is one of the members that were added. -/
theorem mem_membersByText {descriptors : List Descriptor} {entry : String × Descriptor}
    (mem : entry ∈ membersByText descriptors) :
    entry.1 = entry.2.text ∧ ∃ descriptor ∈ descriptors, entry.2 ∈ descriptor.members := by
  have folded : ∀ (members : List Descriptor) (byText : Dict Descriptor),
      entry ∈ members.foldl addMember byText →
      entry ∈ byText ∨ entry.1 = entry.2.text ∧ entry.2 ∈ members := by
    intro members
    induction members with
    | nil => exact fun _ mem => .inl mem
    | cons member members ih =>
        intro byText mem
        rcases ih _ mem with there | ⟨keyed, later⟩
        · rcases mem_addMember there with rfl | old
          · exact .inr ⟨rfl, List.mem_cons_self⟩
          · exact .inl old
        · exact .inr ⟨keyed, List.mem_cons_of_mem _ later⟩
  rcases folded _ _ mem with none | ⟨keyed, inside⟩
  · simp at none
  · obtain ⟨descriptor, known, there⟩ := List.mem_flatMap.mp inside
    exact ⟨keyed, descriptor, known, there⟩

/-- Every member that was added has a member of the same text among those that are kept. -/
theorem exists_membersByText {descriptors : List Descriptor} {descriptor member : Descriptor}
    (known : descriptor ∈ descriptors) (inside : member ∈ descriptor.members) :
    ∃ entry ∈ membersByText descriptors, entry.2.text = member.text := by
  have folded : ∀ (members : List Descriptor) (byText : Dict Descriptor),
      member ∈ members ∨ Dict.contains byText member.text = true →
      Dict.contains (members.foldl addMember byText) member.text = true := by
    intro members
    induction members with
    | nil => simp
    | cons first members ih =>
        intro byText there
        refine ih _ ?_
        rw [contains_addMember, Bool.or_eq_true, decide_eq_true_iff]
        rcases there with mem | old
        · rcases List.mem_cons.mp mem with rfl | later
          · exact .inr (.inl rfl)
          · exact .inl later
        · exact .inr (.inr old)
  have there := folded (descriptors.flatMap members) []
    (.inl (List.mem_flatMap.mpr ⟨descriptor, known, inside⟩))
  obtain ⟨kept, found⟩ := Option.isSome_iff_exists.mp there
  have mem := Dict.mem_of_get? found
  exact ⟨_, mem, (mem_membersByText mem).1.symm⟩

/-- A descriptor is a union of descriptors that are none, or it is none itself. This is the documented
invariant of unions, never nested and never shorter than two members, of which no more is asked for
than a single member. Without any member the sorted union would be unknown, and its text a word
where no texts are joined. -/
def Flat (descriptor : Descriptor) : Prop :=
  descriptor.members ≠ [] ∧ ∀ member ∈ descriptor.members, member.isUnion = false

theorem WellFormed.flat {descriptor : Descriptor} (wellFormed : WellFormed descriptor) :
    descriptor.Flat :=
  ⟨wellFormed.members_ne_nil, fun member mem => (wellFormed.members member mem).1⟩

variable {descriptors : List Descriptor}

/-- What is kept is no union. -/
theorem not_isUnion_membersByText (flat : ∀ descriptor ∈ descriptors, descriptor.Flat) :
    ∀ member ∈ (membersByText descriptors).map Prod.snd, member.isUnion = false := by
  intro member mem
  obtain ⟨entry, inside, rfl⟩ := List.mem_map.mp mem
  obtain ⟨_, descriptor, known, there⟩ := mem_membersByText inside
  exact (flat descriptor known).2 entry.2 there

/-- The sorted union of well-formed descriptors is well-formed. -/
theorem wellFormed_sortedUnion (wellFormed : ∀ descriptor ∈ descriptors, WellFormed descriptor) :
    WellFormed (sortedUnion descriptors) := by
  refine wellFormed_unionOf fun member mem => ?_
  obtain ⟨entry, inside, rfl⟩ := List.mem_map.mp mem
  obtain ⟨_, descriptor, known, there⟩ := mem_membersByText inside
  exact ((wellFormed descriptor known).members entry.2 there).2

/-- Something is kept. -/
theorem membersByText_ne_nil (nonempty : descriptors ≠ [])
    (flat : ∀ descriptor ∈ descriptors, descriptor.Flat) : membersByText descriptors ≠ [] := by
  obtain ⟨first, rest, rfl⟩ := List.exists_cons_of_ne_nil nonempty
  obtain ⟨member, more, same⟩ := List.exists_cons_of_ne_nil (flat first List.mem_cons_self).1
  have inside : member ∈ first.members := by simp [same]
  obtain ⟨entry, mem, _⟩ := exists_membersByText (List.mem_cons_self (l := rest)) inside
  exact List.ne_nil_of_mem mem

/-- The members of a sorted union are the ones that were kept. -/
theorem members_sortedUnion (nonempty : descriptors ≠ [])
    (flat : ∀ descriptor ∈ descriptors, descriptor.Flat) :
    (sortedUnion descriptors).members = (membersByText descriptors).map Prod.snd :=
  members_unionOf (fun none => membersByText_ne_nil nonempty flat (List.map_eq_nil_iff.mp none))
    (not_isUnion_membersByText flat)

/-- A member of a sorted union is a member of one of the sources. -/
theorem mem_members_sortedUnion (nonempty : descriptors ≠ [])
    (wellFormed : ∀ descriptor ∈ descriptors, WellFormed descriptor) {member : Descriptor}
    (mem : member ∈ (sortedUnion descriptors).members) :
    ∃ descriptor ∈ descriptors, member ∈ descriptor.members := by
  rw [members_sortedUnion nonempty fun descriptor known => (wellFormed descriptor known).flat] at mem
  obtain ⟨entry, inside, rfl⟩ := List.mem_map.mp mem
  exact (mem_membersByText inside).2

/-- A member of a source has a member of the same text in the sorted union. -/
theorem exists_member_sortedUnion (wellFormed : ∀ descriptor ∈ descriptors, WellFormed descriptor)
    {descriptor member : Descriptor} (known : descriptor ∈ descriptors)
    (inside : member ∈ descriptor.members) :
    ∃ kept ∈ (sortedUnion descriptors).members, kept.text = member.text := by
  rw [members_sortedUnion (List.ne_nil_of_mem known)
    fun descriptor known => (wellFormed descriptor known).flat]
  obtain ⟨entry, mem, same⟩ := exists_membersByText known inside
  exact ⟨entry.2, List.mem_map_of_mem mem, same⟩

end Descriptor

end Mixfix
