import Mathlib.Data.List.Perm.Basic
import Mixfix.Proofs.Descriptor.SortedUnion
import Mixfix.Proofs.Descriptor.Words
import Mixfix.Proofs.Text.ByteOrder

/-!
# Sorted unions are canonical

The text of a sorted union depends on nothing but the set of the texts of all members: it is these
texts, each once, in the order of their bytes (`text_sortedUnion`). So it does not matter in which
order the sources stand, whether some of them are repeated, and whether some of them were united
before (`sortedUnion_canonical`).
-/

set_option autoImplicit false

namespace Mixfix

namespace Dict

variable {α : Type}

/-- Dictionaries with an entry for the same names have the same names in order. -/
theorem names_eq_of_mem_iff {dict other : Dict α} (ordered : Ordered dict)
    (ordered' : Ordered other) (same : ∀ name, name ∈ names dict ↔ name ∈ names other) :
    names dict = names other :=
  ordered.names_eq ordered' ((List.perm_ext_iff_of_nodup ordered.nodup ordered'.nodup).mpr same)

end Dict

namespace Descriptor

/-- The texts of the members of all descriptors. -/
def memberTexts (descriptors : List Descriptor) : List String :=
  (descriptors.flatMap members).map text

variable {descriptors others part rest : List Descriptor}

theorem mem_memberTexts {name : String} : name ∈ memberTexts descriptors ↔
    ∃ descriptor ∈ descriptors, ∃ member ∈ descriptor.members, member.text = name := by
  simp only [memberTexts, List.mem_map, List.mem_flatMap]
  constructor
  · rintro ⟨member, ⟨descriptor, known, inside⟩, same⟩
    exact ⟨descriptor, known, member, inside, same⟩
  · rintro ⟨descriptor, known, member, inside, same⟩
    exact ⟨member, ⟨descriptor, known, inside⟩, same⟩

/-! ## What is kept -/

theorem ordered_membersByText (descriptors : List Descriptor) :
    Dict.Ordered (membersByText descriptors) := by
  have folded : ∀ (members : List Descriptor) (byText : Dict Descriptor), Dict.Ordered byText →
      Dict.Ordered (members.foldl addMember byText) := by
    intro members
    induction members with
    | nil => exact fun _ ordered => ordered
    | cons member members ih =>
        intro byText ordered
        refine ih _ ?_
        unfold addMember
        split
        · exact ordered
        · exact Dict.ordered_insert _ _ ordered
  exact folded _ [] .nil

theorem names_membersByText (descriptors : List Descriptor) :
    Dict.names (membersByText descriptors) =
      ((membersByText descriptors).map Prod.snd).map text := by
  rw [Dict.names, List.map_map]
  exact List.map_congr_left fun entry mem => (mem_membersByText mem).1

/-- What is kept has the texts of all members. -/
theorem mem_names_membersByText {name : String} :
    name ∈ Dict.names (membersByText descriptors) ↔ name ∈ memberTexts descriptors := by
  rw [mem_memberTexts, names_membersByText, List.map_map, List.mem_map]
  constructor
  · rintro ⟨entry, mem, same⟩
    obtain ⟨_, descriptor, known, inside⟩ := mem_membersByText mem
    exact ⟨descriptor, known, entry.2, inside, same⟩
  · rintro ⟨descriptor, known, member, inside, rfl⟩
    exact exists_membersByText known inside

/-! ## Texts -/

theorem text_unionOf {members : List Descriptor} (nonempty : members ≠ [])
    (flat : ∀ member ∈ members, member.isUnion = false) :
    (unionOf members).text = joinMembers (members.map text) := by
  unfold unionOf
  rw [flatMap_members flat]
  split
  · exact absurd rfl nonempty
  · exact String.intercalate_singleton.symm
  · rw [text, texts_eq_map]

/-- The text of a sorted union is made of the texts of what is kept. -/
theorem text_sortedUnion (nonempty : descriptors ≠ [])
    (flat : ∀ descriptor ∈ descriptors, descriptor.Flat) :
    (sortedUnion descriptors).text = joinMembers (Dict.names (membersByText descriptors)) := by
  rw [names_membersByText, sortedUnion]
  exact text_unionOf (fun none => membersByText_ne_nil nonempty flat (List.map_eq_nil_iff.mp none))
    (not_isUnion_membersByText flat)

theorem flat_sortedUnion (nonempty : descriptors ≠ [])
    (flat : ∀ descriptor ∈ descriptors, descriptor.Flat) : (sortedUnion descriptors).Flat := by
  rw [Flat, members_sortedUnion nonempty flat]
  exact ⟨fun none => membersByText_ne_nil nonempty flat (List.map_eq_nil_iff.mp none),
    not_isUnion_membersByText flat⟩

/-- A sorted union in place of its sources has members of the same texts. -/
theorem mem_memberTexts_sortedUnion (nonempty : descriptors ≠ [])
    (flat : ∀ descriptor ∈ descriptors, descriptor.Flat) {name : String} :
    name ∈ memberTexts [sortedUnion descriptors] ↔ name ∈ memberTexts descriptors := by
  have kept : name ∈ Dict.names (membersByText descriptors) ↔ _ := mem_names_membersByText
  rw [← kept, names_membersByText, memberTexts, List.flatMap_singleton,
    members_sortedUnion nonempty flat]

/-- Sorted unions have one text if their sources have members of the same texts. -/
theorem text_sortedUnion_congr (nonempty : descriptors ≠ []) (nonempty' : others ≠ [])
    (flat : ∀ descriptor ∈ descriptors, descriptor.Flat)
    (flat' : ∀ descriptor ∈ others, descriptor.Flat)
    (same : ∀ name, name ∈ memberTexts others ↔ name ∈ memberTexts descriptors) :
    (sortedUnion others).text = (sortedUnion descriptors).text := by
  rw [text_sortedUnion nonempty flat, text_sortedUnion nonempty' flat']
  have names : Dict.names (membersByText others) = Dict.names (membersByText descriptors) := by
    refine Dict.names_eq_of_mem_iff (ordered_membersByText _) (ordered_membersByText _) ?_
    intro name
    rw [mem_names_membersByText, mem_names_membersByText, same]
  rw [names]

theorem mem_memberTexts_congr (same : ∀ descriptor, descriptor ∈ others ↔ descriptor ∈ descriptors)
    {name : String} : name ∈ memberTexts others ↔ name ∈ memberTexts descriptors := by
  simp only [mem_memberTexts, same]

/-- Some of the sources can be replaced by their sorted union. -/
theorem text_sortedUnion_replaced (flat : ∀ descriptor ∈ descriptors, descriptor.Flat)
    (nonempty : part ≠ []) (whole : descriptors.Perm (part ++ rest))
    (replaced : others.Perm (sortedUnion part :: rest)) :
    (sortedUnion others).text = (sortedUnion descriptors).text := by
  have flatPart : ∀ descriptor ∈ part, descriptor.Flat :=
    fun descriptor mem => flat descriptor (whole.mem_iff.mpr (List.mem_append_left _ mem))
  have flatOthers : ∀ descriptor ∈ others, descriptor.Flat := by
    intro descriptor mem
    rcases List.mem_cons.mp (replaced.mem_iff.mp mem) with rfl | later
    · exact flat_sortedUnion nonempty flatPart
    · exact flat descriptor (whole.mem_iff.mpr (List.mem_append_right _ later))
  have some : descriptors ≠ [] := by
    rintro rfl
    exact nonempty (List.append_eq_nil_iff.mp whole.symm.eq_nil).1
  have someOthers : others ≠ [] := by
    rintro rfl
    exact absurd replaced.symm.eq_nil (List.cons_ne_nil _ _)
  refine text_sortedUnion_congr some someOthers flat flatOthers fun name => ?_
  have united : name ∈ memberTexts [sortedUnion part] ↔ name ∈ memberTexts part :=
    mem_memberTexts_sortedUnion nonempty flatPart
  rw [mem_memberTexts_congr fun _ => replaced.mem_iff, mem_memberTexts_congr fun _ => whole.mem_iff]
  simp only [memberTexts, List.flatMap_cons, List.flatMap_nil, List.append_nil, List.flatMap_append,
    List.map_append, List.mem_append] at united ⊢
  rw [united]

/-- The text of a sorted union is the ascending sequence of the texts of all members. It stays the
same for sources that differ in their order and their repetitions only, for a sorted union in place
of some of the sources, and for the sorted union of the sorted union. Sources are flat, as all
descriptors are that keep the invariant of unions: without any member among the sources there would
be no text to join, and the sorted union would be unknown. -/
theorem sortedUnion_canonical (nonempty : descriptors ≠ [])
    (flat : ∀ descriptor ∈ descriptors, descriptor.Flat) :
    (∃ names : List String, names.Pairwise (fun name other => bytes name < bytes other) ∧
      (∀ name, name ∈ names ↔
        ∃ descriptor ∈ descriptors, ∃ member ∈ descriptor.members, member.text = name) ∧
      (sortedUnion descriptors).text = " | ".intercalate names) ∧
    (∀ others, (∀ descriptor, descriptor ∈ others ↔ descriptor ∈ descriptors) →
      (sortedUnion others).text = (sortedUnion descriptors).text) ∧
    (∀ part rest others, part ≠ [] → descriptors.Perm (part ++ rest) →
      others.Perm (sortedUnion part :: rest) →
      (sortedUnion others).text = (sortedUnion descriptors).text) ∧
    (sortedUnion [sortedUnion descriptors]).text = (sortedUnion descriptors).text := by
  refine ⟨?_, ?_, ?_, ?_⟩
  · refine ⟨Dict.names (membersByText descriptors), ?_, fun name => ?_,
      text_sortedUnion nonempty flat⟩
    · exact (ordered_membersByText descriptors).imp bytes_lt_of_lt
    · rw [mem_names_membersByText, mem_memberTexts]
  · intro others same
    obtain ⟨first, mem⟩ := List.exists_mem_of_ne_nil _ nonempty
    exact text_sortedUnion_congr nonempty (List.ne_nil_of_mem ((same first).mpr mem)) flat
      (fun other mem => flat other ((same other).mp mem)) fun _ => mem_memberTexts_congr same
  · intro part rest others some whole replaced
    exact text_sortedUnion_replaced flat some whole replaced
  · refine text_sortedUnion_replaced flat nonempty ?_ (.refl _)
    rw [List.append_nil]

/-- A union, another descriptor and a member of the union. -/
def mixed : List Descriptor := [.union [string, number], boolean, number]

theorem flat_mixed : ∀ descriptor ∈ mixed, descriptor.Flat := by
  intro descriptor mem
  simp only [mixed, List.mem_cons, List.not_mem_nil, or_false] at mem
  rcases mem with rfl | rfl | rfl
  · exact ⟨List.cons_ne_nil _ _, by simp [members, string, number, plain, isUnion]⟩
  · exact ⟨List.cons_ne_nil _ _, by simp [members, boolean, plain, isUnion]⟩
  · exact ⟨List.cons_ne_nil _ _, by simp [members, number, plain, isUnion]⟩

theorem sortedUnion_canonical_mixed :
    (sortedUnion [boolean, sortedUnion [.union [string, number], number]]).text =
      (sortedUnion mixed).text ∧
    ∃ names : List String, names.Pairwise (fun name other => bytes name < bytes other) ∧
      (∀ name, name ∈ names ↔
        ∃ descriptor ∈ mixed, ∃ member ∈ descriptor.members, member.text = name) ∧
      (sortedUnion mixed).text = " | ".intercalate names := by
  obtain ⟨ascending, _, replaced, _⟩ := sortedUnion_canonical (List.cons_ne_nil _ _) flat_mixed
  refine ⟨replaced [.union [string, number], number] [boolean] _ (List.cons_ne_nil _ _) ?_ ?_,
    ascending⟩
  · exact .cons _ (.swap _ _ _)
  · exact .swap _ _ _

end Descriptor

end Mixfix
