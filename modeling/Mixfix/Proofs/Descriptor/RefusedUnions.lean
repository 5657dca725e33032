import Mixfix.Proofs.Descriptor.RefusedTerms

/-!
# Illegible texts are refused

Behind a term no array mark is passed. The reader of unions stops in front of it as the reader of terms
did, so a union is refused with any of its members (`refuses_union`), and in parentheses and at the
end of a text it is a failure to stop there. By induction on a descriptor its text is refused if it is
not legible, and its base if this one is not (`isRefused`).
-/

set_option autoImplicit false

namespace Mixfix.Descriptor

variable {descriptor again : Descriptor} {cursor : Cursor} {behind : List Char} {depth : Nat}

/-! ## Unions -/

/-- Members are refused if the first of them is. -/
theorem refuses_readFrom_first {first : Descriptor} {further : List Descriptor}
    {steps : Cursor → Nat} (refused : IsRefusedTerm first)
    (deep : first.text.toList.length ≤ depth) (closes : Closes behind) :
    Refuses (readFrom (readUnion depth) steps) (first.text.toList ++ furtherText further)
      behind := by
  intro cursor written
  rw [List.append_assoc] at written
  rcases refused depth deep _ (endsTerm_further further closes) cursor written with
    ⟨stop, failed⟩ | ⟨result, next, read, mark⟩
  · exact .inl ⟨stop, by simp only [readFrom, failed, bind, Except.bind]⟩
  · refine .inr ⟨[result], skipSpace next, ?_, by rwa [ahead_skipSpace]⟩
    rw [readFrom_of_readTerm read, readMembers_end _ _ (by simp [mark])]
    rfl

/-- Members are refused if one of them is and those before it are read. -/
theorem refuses_readFrom {first : Descriptor} {further : List Descriptor} {steps : Cursor → Nat}
    (each : ∀ member ∈ first :: further, IsReadableTerm member ∨ IsRefusedTerm member)
    (one : ∃ member ∈ first :: further, IsRefusedTerm member)
    (begins : ∀ member ∈ first :: further, Begins member.text.toList)
    (deep : ∀ member ∈ first :: further, member.text.toList.length ≤ depth)
    (enough : ∀ next, ahead next = dropSpace (furtherText further ++ behind) →
      further.length ≤ steps next) (closes : Closes behind) :
    Refuses (readFrom (readUnion depth) steps) (first.text.toList ++ furtherText further)
      behind := by
  induction further generalizing first steps with
  | nil =>
      obtain ⟨member, mem, refused⟩ := one
      cases List.mem_singleton.mp mem
      exact refuses_readFrom_first refused (deep first List.mem_cons_self) closes
  | cons second further ih =>
      by_cases refused : IsRefusedTerm first
      · exact refuses_readFrom_first refused (deep first List.mem_cons_self) closes
      · obtain ⟨again, reads⟩ := (each first List.mem_cons_self).resolve_right refused
        have one : ∃ member ∈ second :: further, IsRefusedTerm member := by
          obtain ⟨member, mem, refused'⟩ := one
          rcases List.mem_cons.mp mem with rfl | later
          · exact absurd refused' refused
          · exact ⟨member, later, refused'⟩
        intro cursor written
        obtain ⟨after, left, inside, many, split⟩ :=
          readFrom_cons reads (deep first List.mem_cons_self)
            (begins second (List.mem_cons_of_mem _ List.mem_cons_self)) enough closes written
        rw [split]
        rcases ih (fun member mem => each member (List.mem_cons_of_mem _ mem)) one
          (fun member mem => begins member (List.mem_cons_of_mem _ mem))
          (fun member mem => deep member (List.mem_cons_of_mem _ mem))
          (fun _ _ => many) after inside with
          ⟨stop, failed⟩ | ⟨result, last, read, mark⟩
        · exact .inl ⟨stop, by rw [failed]; rfl⟩
        · exact .inr ⟨again :: result, last, by rw [read]; rfl, mark⟩

/-- Terms with bars between them are refused if one of them is and those before it are read. -/
theorem refuses_union {first : Descriptor} {further : List Descriptor}
    (each : ∀ member ∈ first :: further, IsReadableTerm member ∨ IsRefusedTerm member)
    (one : ∃ member ∈ first :: further, IsRefusedTerm member)
    (begins : ∀ member ∈ first :: further, Begins member.text.toList)
    (deep : (first.text.toList ++ furtherText further).length ≤ depth) (closes : Closes behind) :
    Refuses (readUnion (depth + 1)) (first.text.toList ++ furtherText further) behind := by
  intro cursor written
  rw [readUnion_succ]
  rcases refuses_readFrom each one begins
    (fun member mem => Nat.le_trans (length_text_le mem) deep) (fun _ => length_le_rest) closes
    cursor written with
    ⟨stop, failed⟩ | ⟨result, next, read, mark⟩
  · exact .inl ⟨stop, by rw [failed]; rfl⟩
  · exact .inr ⟨unionOf result, next, by rw [read]; rfl, mark⟩

/-- A descriptor that is refused as a term is refused where it stands alone. -/
theorem isRefused_of_term (wellFormed : WellFormed descriptor) (refused : IsRefusedTerm descriptor) :
    IsRefused descriptor := by
  intro depth deep behind closes
  have whole : descriptor.text.toList ++ furtherText [] = descriptor.text.toList :=
    List.append_nil _
  rw [← whole] at deep ⊢
  exact refuses_union (fun member mem => List.mem_singleton.mp mem ▸ .inr refused)
    ⟨descriptor, List.mem_singleton_self _, refused⟩
    (fun member mem => List.mem_singleton.mp mem ▸ begins_text wellFormed) deep closes

/-! ## Texts -/

/-- A descriptor that is no union is read back as a term if it is legible, and is refused
otherwise. -/
theorem term_of_base (wellFormed : WellFormed descriptor) (single : descriptor.isUnion = false)
    (refused : descriptor.hasLegibleBase = false → IsRefusedBase descriptor) :
    (descriptor.isLegible = true → IsReadableTerm descriptor) ∧
      (descriptor.isLegible = false → IsRefusedTerm descriptor) := by
  have readable := (isReadable wellFormed).1 single
  exact ⟨fun legible => isReadableTerm wellFormed single legible readable,
    fun illegible => isRefusedTerm wellFormed single illegible readable refused⟩

/-- The text of a descriptor that is not legible is refused, and so is a base that is not. -/
theorem isRefused (wellFormed : WellFormed descriptor) :
    (descriptor.isUnion = false → descriptor.hasLegibleBase = false → IsRefusedBase descriptor) ∧
      (descriptor.isLegible = false → IsRefused descriptor) := by
  have ofBase {descriptor : Descriptor} (wellFormed : WellFormed descriptor)
      (single : descriptor.isUnion = false)
      (refused : descriptor.hasLegibleBase = false → IsRefusedBase descriptor) :
      (descriptor.isUnion = false → descriptor.hasLegibleBase = false → IsRefusedBase descriptor) ∧
        (descriptor.isLegible = false → IsRefused descriptor) :=
    ⟨fun _ => refused, fun illegible => isRefused_of_term wellFormed
      ((term_of_base wellFormed single refused).2 illegible)⟩
  induction wellFormed with
  | unknown => exact ofBase .unknown rfl nofun
  | primitive refines bounded placed => exact ofBase (.primitive refines bounded placed) rfl nofun
  | unit isUnit =>
      refine ofBase (.unit isUnit) rfl fun illegible depth deep => ?_
      cases isUnit with
      | float placed => exact refusesBase_infinity placed illegible depth
      | _ => cases illegible
  | @array element length inside placed ih =>
      refine ofBase (.array inside placed) rfl fun illegible => ?_
      cases grouped : element.isGrouped with
      | true =>
          rw [hasLegibleBase, if_pos grouped] at illegible
          exact isRefusedBase_grouped length inside grouped (ih.2 illegible)
      | false =>
          rw [hasLegibleBase, if_neg (by simp [grouped])] at illegible
          exact isRefusedBase_alone length grouped
            (ih.1 (isUnion_of_not_isGrouped grouped) illegible)
  | @union members several flat inside ih =>
      refine ⟨fun single => Bool.noConfusion single, fun illegible depth deep behind closes => ?_⟩
      have terms (member) (known : member ∈ members) :=
        term_of_base (inside member known) (flat member known)
          ((ih member known).1 (flat member known))
      have one : ∃ member ∈ members, IsRefusedTerm member := by
        by_contra none
        have legible : ∀ member ∈ members, member.isLegible = true := by
          intro member known
          by_contra illegible
          exact none ⟨member, known, (terms member known).2 (Bool.eq_false_iff.mpr illegible)⟩
        rw [isLegible, allLegible_iff.mpr legible] at illegible
        cases illegible
      cases members with
      | nil => cases several
      | cons first further =>
          have whole : (union (first :: further)).text.toList =
              first.text.toList ++ furtherText further := by
            rw [text, toList_joinMembers]
          rw [whole] at deep ⊢
          refine refuses_union (fun member known => ?_) one
            (fun member known => begins_text (inside member known)) deep closes
          cases legible : member.isLegible with
          | true => exact .inl ((terms member known).1 legible)
          | false => exact .inr ((terms member known).2 legible)

end Mixfix.Descriptor
