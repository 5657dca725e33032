/-!
# Dictionaries in name order

A dictionary is an association list whose names ascend strictly, so visiting the entries in order is
visiting them by name. Names are compared by code points, which is also the order of their UTF-8
bytes.

Every dictionary is built by `Dict.insert`, which keeps the order (`Dict.ordered_insert`). Looking a
name up after it finds the new entry under its own name and the old ones elsewhere
(`Dict.get?_insert`).
-/

set_option autoImplicit false

namespace Mixfix

/-- Entries under names, in ascending order of the names. -/
abbrev Dict (α : Type) := List (String × α)

namespace Dict

variable {α : Type}

/-- The entry under a name. -/
def get? (dict : Dict α) (name : String) : Option α :=
  List.lookup name dict

/-- Whether a name has an entry. -/
def contains (dict : Dict α) (name : String) : Bool :=
  (get? dict name).isSome

/-- The names that have an entry, in order. -/
def names (dict : Dict α) : List String :=
  dict.map Prod.fst

/-- Puts an entry in its place; an entry of the same name gives way. -/
def insert (name : String) (entry : α) : Dict α → Dict α
  | [] => [(name, entry)]
  | (other, kept) :: rest =>
    if name < other then (name, entry) :: (other, kept) :: rest
    else if name = other then (name, entry) :: rest
    else (other, kept) :: insert name entry rest

/-- The dictionary of a list of entries, where later entries win. -/
def ofEntries (entries : List (String × α)) : Dict α :=
  entries.foldl (fun dict entry => insert entry.1 entry.2 dict) []

/-- All entries of two dictionaries; those of the second win. -/
def union (dict added : Dict α) : Dict α :=
  added.foldl (fun dict entry => insert entry.1 entry.2 dict) dict

/-- The names ascend strictly. -/
def Ordered (dict : Dict α) : Prop :=
  (names dict).Pairwise (· < ·)

/-! ## Look-up -/

/-- A look-up compares with the first name and goes on behind it. -/
theorem get?_cons (key name : String) (entry : α) (rest : Dict α) :
    get? ((key, entry) :: rest) name = if name = key then some entry else get? rest name := by
  by_cases same : name = key
  · subst same
    rw [if_pos rfl]
    exact List.lookup_cons_self
  · rw [if_neg same, get?, List.lookup_cons, beq_eq_false_iff_ne.mpr same]
    rfl

/-- An insertion changes the entry of its own name and no other. -/
theorem get?_insert (name other : String) (entry : α) (dict : Dict α) :
    get? (insert name entry dict) other = if other = name then some entry else get? dict other := by
  induction dict with
  | nil => rw [insert, get?_cons]
  | cons head rest ih =>
    obtain ⟨key, kept⟩ := head
    simp only [insert]
    split
    · rw [get?_cons]
    · split
      · next replaced =>
        subst replaced
        simp only [get?_cons]
        split <;> rfl
      · next differs =>
        simp only [get?_cons, ih]
        split
        · next same => rw [if_neg fun other => differs (other.symm.trans same)]
        · rfl

/-- Where no name occurs twice, the entry under a name is the only one with this name. -/
theorem get?_eq_some_iff {dict : Dict α} (distinct : (names dict).Nodup) {name : String}
    {entry : α} : get? dict name = some entry ↔ (name, entry) ∈ dict := by
  induction dict with
  | nil => simp [get?]
  | cons head rest ih =>
    obtain ⟨key, kept⟩ := head
    have ⟨fresh, later⟩ := List.nodup_cons.mp distinct
    rw [get?_cons, List.mem_cons, Prod.mk.injEq]
    split
    · next same =>
      subst same
      have absent : (name, entry) ∉ rest := by
        intro mem
        exact fresh (List.mem_map.mpr ⟨_, mem, rfl⟩)
      simp [absent, eq_comm]
    · next differs => simp [differs, ih later]

/-! ## Entries -/

/-- The insertion of a new name adds its entry to the others. -/
theorem perm_insert {name : String} {dict : Dict α} (fresh : name ∉ names dict) (entry : α) :
    (insert name entry dict).Perm ((name, entry) :: dict) := by
  induction dict with
  | nil => exact .refl _
  | cons head rest ih =>
    obtain ⟨key, kept⟩ := head
    have ⟨differs, later⟩ : name ≠ key ∧ name ∉ names rest := by simpa [names] using fresh
    simp only [insert, if_neg differs]
    split
    · exact .refl _
    · exact ((ih later).cons _).trans (.swap _ _ _)

/-- The union of dictionaries without a common name has the entries of both. -/
theorem perm_union {dict added : Dict α} (distinct : (names dict ++ names added).Nodup) :
    (union dict added).Perm (dict ++ added) := by
  induction added generalizing dict with
  | nil =>
    rw [List.append_nil]
    exact .refl _
  | cons head rest ih =>
    obtain ⟨name, entry⟩ := head
    have moved : (name :: (names dict ++ names rest)).Nodup := List.perm_middle.nodup_iff.mp distinct
    have fresh : name ∉ names dict := by
      intro mem
      exact (List.nodup_cons.mp moved).1 (List.mem_append_left _ mem)
    have inserted := perm_insert fresh entry
    have names := (inserted.map Prod.fst).append_right (names rest)
    have whole : (union (insert name entry dict) rest).Perm (insert name entry dict ++ rest) :=
      ih (names.nodup_iff.mpr moved)
    exact (whole.trans (inserted.append_right rest)).trans List.perm_middle.symm

/-! ## Relations between entries -/

theorem mem_of_mem_insert {name : String} {entry : α} {dict : Dict α} {other : String × α}
    (mem : other ∈ insert name entry dict) : other = (name, entry) ∨ other ∈ dict := by
  induction dict with
  | nil => exact .inl (List.mem_singleton.mp mem)
  | cons head rest ih =>
      obtain ⟨key, kept⟩ := head
      simp only [insert] at mem
      split at mem
      · exact List.mem_cons.mp mem
      · split at mem
        · exact (List.mem_cons.mp mem).imp_right (List.mem_cons_of_mem _)
        · rcases List.mem_cons.mp mem with here | there
          · exact .inr (here ▸ List.mem_cons_self)
          · exact (ih there).imp_right (List.mem_cons_of_mem _)

variable {R : String × α → String × α → Prop}

/-- An entry that is related to all others can be put in its place among them. -/
theorem pairwise_insert (symm : ∀ first second, R first second → R second first) {name : String}
    {entry : α} {dict : Dict α} (related : dict.Pairwise R)
    (new : ∀ other ∈ dict, R (name, entry) other) : (insert name entry dict).Pairwise R := by
  induction dict with
  | nil => exact List.pairwise_singleton _ _
  | cons head rest ih =>
      obtain ⟨key, kept⟩ := head
      rw [List.forall_mem_cons] at new
      obtain ⟨among, relatedRest⟩ := List.pairwise_cons.mp related
      simp only [insert]
      split
      · exact List.pairwise_cons.mpr ⟨List.forall_mem_cons.mpr new, related⟩
      · split
        · exact List.pairwise_cons.mpr ⟨new.2, relatedRest⟩
        · refine List.pairwise_cons.mpr ⟨?_, ih relatedRest new.2⟩
          intro other mem
          rcases mem_of_mem_insert mem with rfl | inside
          · exact symm _ _ new.1
          · exact among other inside

theorem mem_of_mem_union {dict added : Dict α} {other : String × α}
    (mem : other ∈ union dict added) : other ∈ dict ∨ other ∈ added := by
  induction added generalizing dict with
  | nil => exact .inl mem
  | cons head rest ih =>
      have within : other ∈ union (insert head.1 head.2 dict) rest := mem
      rcases ih within with inside | later
      · rcases mem_of_mem_insert inside with rfl | before
        · exact .inr List.mem_cons_self
        · exact .inl before
      · exact .inr (List.mem_cons_of_mem _ later)

theorem pairwise_union (symm : ∀ first second, R first second → R second first)
    {dict added : Dict α} (related : dict.Pairwise R) (relatedAdded : added.Pairwise R)
    (across : ∀ first ∈ dict, ∀ second ∈ added, R first second) : (union dict added).Pairwise R := by
  induction added generalizing dict with
  | nil => exact related
  | cons head rest ih =>
      obtain ⟨among, relatedRest⟩ := List.pairwise_cons.mp relatedAdded
      have inserted : (insert head.1 head.2 dict).Pairwise R :=
        pairwise_insert symm related fun other mem =>
          symm _ _ (across other mem head List.mem_cons_self)
      refine ih inserted relatedRest ?_
      intro first mem second later
      rcases mem_of_mem_insert mem with rfl | before
      · exact among second later
      · exact across first before second (List.mem_cons_of_mem _ later)

/-! ## Order -/

/-- The names after an insertion are the new one and the old ones. -/
theorem mem_names_insert (name other : String) (entry : α) (dict : Dict α) :
    other ∈ names (insert name entry dict) ↔ other = name ∨ other ∈ names dict := by
  induction dict with
  | nil => simp [insert, names]
  | cons head rest ih =>
    obtain ⟨key, kept⟩ := head
    simp only [names, insert] at ih ⊢
    split
    · simp
    · split
      · next replaced => simp [replaced]
      · simp only [List.map_cons, List.mem_cons, ih]
        exact or_left_comm

/-- No name of an ordered dictionary occurs twice. -/
theorem Ordered.nodup {dict : Dict α} (ordered : Ordered dict) : (names dict).Nodup := by
  refine ordered.imp fun less => ?_
  rintro rfl
  exact String.lt_irrefl _ less

/-- Ascending names are determined by which names they are. -/
theorem Ordered.names_eq {β : Type} {dict : Dict α} {other : Dict β} (ordered : Ordered dict)
    (ordered' : Ordered other) (same : (names dict).Perm (names other)) :
    names dict = names other := by
  refine same.eq_of_pairwise (fun name name' _ _ less more => ?_) ordered ordered'
  exact absurd (String.lt_trans less more) (String.lt_irrefl name)

/-- Insertion keeps the order of the names. -/
theorem ordered_insert (name : String) (entry : α) {dict : Dict α} (ordered : Ordered dict) :
    Ordered (insert name entry dict) := by
  induction dict with
  | nil => simp [insert, Ordered, names]
  | cons head rest ih =>
    obtain ⟨key, kept⟩ := head
    have ⟨above, tail⟩ := List.pairwise_cons.mp ordered
    simp only [insert]
    split
    · next before =>
      refine List.pairwise_cons.mpr ⟨fun other mem => ?_, ordered⟩
      cases List.mem_cons.mp mem with
      | inl same => exact same ▸ before
      | inr later => exact String.lt_trans before (above other later)
    · next notBefore =>
      split
      · next replaced =>
        subst replaced
        exact List.pairwise_cons.mpr ⟨above, tail⟩
      · next differs =>
        refine List.pairwise_cons.mpr ⟨fun other mem => ?_, ih tail⟩
        cases (mem_names_insert name other entry rest).mp mem with
        | inl same =>
          subst same
          exact String.not_le.mp fun le =>
            differs (String.le_antisymm le (String.not_lt.mp notBefore))
        | inr later => exact above other later

/-- A fold of insertions keeps the order of the names. -/
theorem ordered_foldl_insert (entries : List (String × α)) {dict : Dict α}
    (ordered : Ordered dict) :
    Ordered (entries.foldl (fun dict entry => insert entry.1 entry.2 dict) dict) := by
  induction entries generalizing dict with
  | nil => exact ordered
  | cons head rest ih => exact ih (ordered_insert head.1 head.2 ordered)

/-- The union of two dictionaries is ordered if the first one is. -/
theorem ordered_union {dict : Dict α} (ordered : Ordered dict) (added : Dict α) :
    Ordered (union dict added) :=
  ordered_foldl_insert added ordered

end Dict

end Mixfix
