import Mixfix.Descriptor.Admission
import Mixfix.Proofs.Grammar.Checks
import Mixfix.Tree

/-!
# Filled patterns

What the named elements of a pattern can match, in their order: exact texts bind nothing, literals
and operands bind what they ask for, and a group is filled as a whole or left out (`Filling`). Nothing
is said here of the text that is matched.

A node holds the entries of a filling in another order, by name. Where no name is given twice, a name
stands for one element only, so what the walk does for an element can be read off the bindings of the
node (`fits_of_filling`): elements outside of groups are bound, a group is bound as far as its own
elements go or not at all, and each binding is one that its element asks for.
-/

set_option autoImplicit false

namespace Mixfix

/-! ## Fillings -/

/-- A literal of a kind can bind this. -/
inductive LiteralKind.Binds : LiteralKind → Binding → Prop
  | integer (n : Int64) : Binds .number (.value (.integer n))
  | float (x : Binary64) : Binds .number (.value (.float x))
  | string (s : String) : Binds .string (.value (.string s))
  | keyword (keyword : Keyword) : Binds (.keyword keyword) (.value keyword.value)
  | identifier (path : List String) (type : Descriptor) (extent : Extent) :
      Binds .identifier (.tree (.identifier path type extent))

/-- An element asks for this binding: a literal of its kind, or an expression of the type that the
operand is constrained to. -/
inductive Element.Asks : Element Descriptor → Binding → Prop
  | literal {kind : LiteralKind} {name : Option String} {binding : Binding}
      (binds : kind.Binds binding) : Asks (.literal kind name) binding
  | operand {role : Role} {constraint : Option Descriptor} {name : Option String} {tree : Tree}
      (accepted : ∀ type ∈ constraint, type.accepts tree.type = true) :
      Asks (.operand role constraint name) (.tree tree)

/-- The entry of an element that matched, if it has a name. -/
def entriesOf (name : Option String) (binding : Binding) : Bindings :=
  name.toList.map (·, binding)

/-- The entries of the elements of a pattern that matched, in the order of the pattern. -/
inductive Filling : List (Element Descriptor) → Bindings → Prop
  | done : Filling [] []
  | text {token : String} {rest : List (Element Descriptor)} {entries : Bindings}
      (further : Filling rest entries) : Filling (.text token :: rest) entries
  | element {element : Element Descriptor} {binding : Binding} {rest : List (Element Descriptor)}
      {entries : Bindings} (asked : element.Asks binding) (further : Filling rest entries) :
      Filling (element :: rest) (entriesOf element.name? binding ++ entries)
  | present {group rest : List (Element Descriptor)} {inner entries : Bindings}
      (whole : Filling group inner) (further : Filling rest entries) :
      Filling (.optional group :: rest) (inner ++ entries)
  | absent {group rest : List (Element Descriptor)} {entries : Bindings}
      (further : Filling rest entries) : Filling (.optional group :: rest) entries

theorem names_entriesOf (name : Option String) (binding : Binding) :
    Dict.names (entriesOf name binding) = name.toList := by
  cases name <;> rfl

/-- An element that binds what it asks for binds all of its names. -/
theorem Element.Asks.names_entriesOf {element : Element Descriptor} {binding : Binding}
    (asked : element.Asks binding) :
    Dict.names (entriesOf element.name? binding) = elementNames element := by
  rw [Mixfix.names_entriesOf]
  cases asked with
  | literal _ => exact (elementNames_literal _ _).symm
  | operand _ => exact (elementNames_operand _ _ _).symm

namespace Filling

variable {elements : List (Element Descriptor)} {entries : Bindings}

/-- Only names of the pattern are bound, each as often as it is given. -/
theorem names_sublist (filling : Filling elements entries) :
    (Dict.names entries).Sublist (namesWithin elements) := by
  induction filling with
  | done => exact .slnil
  | text _ ih =>
      rw [namesWithin_cons]
      exact ih.trans (List.sublist_append_right _ _)
  | element asked _ ih =>
      rw [namesWithin_cons, ← asked.names_entriesOf, Dict.names, List.map_append]
      exact ih.append_left _
  | present _ _ inside ih =>
      rw [namesWithin_cons, elementNames_optional, Dict.names, List.map_append]
      exact inside.append ih
  | absent _ ih =>
      rw [namesWithin_cons]
      exact ih.trans (List.sublist_append_right _ _)

/-- Every binding is one that an element of its name asks for. -/
theorem exists_element (filling : Filling elements entries) {name : String} {binding : Binding}
    (mem : (name, binding) ∈ entries) :
    ∃ element ∈ elementsWithin elements, element.name? = some name ∧ element.Asks binding := by
  induction filling with
  | done => cases mem
  | text _ ih =>
      obtain ⟨element, inside, found⟩ := ih mem
      exact ⟨element, List.mem_append_right _ inside, found⟩
  | @element element bound rest entries asked _ ih =>
      rcases List.mem_append.mp mem with here | later
      · obtain ⟨key, named, same⟩ := List.mem_map.mp here
        cases same
        refine ⟨element, List.mem_append_left _ ?_, Option.mem_toList.mp named, asked⟩
        cases asked <;> exact List.mem_singleton_self _
      · obtain ⟨element, inside, found⟩ := ih later
        exact ⟨element, List.mem_append_right _ inside, found⟩
  | present _ _ inside ih =>
      rcases List.mem_append.mp mem with here | later
      · obtain ⟨element, within, found⟩ := inside here
        refine ⟨element, List.mem_append_left _ ?_, found⟩
        exact List.mem_cons_of_mem _ within
      · obtain ⟨element, within, found⟩ := ih later
        exact ⟨element, List.mem_append_right _ within, found⟩
  | absent _ ih =>
      obtain ⟨element, inside, found⟩ := ih mem
      exact ⟨element, List.mem_append_right _ inside, found⟩

/-- The elements outside of groups are bound. -/
theorem mem_names (filling : Filling elements entries) {name : String}
    (mem : name ∈ elements.filterMap Element.name?) : name ∈ Dict.names entries := by
  induction filling with
  | done => cases mem
  | text _ ih => exact ih mem
  | @element element bound rest entries asked _ ih =>
      rw [Dict.names, List.map_append, List.mem_append]
      rw [List.mem_filterMap] at mem
      obtain ⟨other, inside, named⟩ := mem
      rcases List.mem_cons.mp inside with rfl | later
      · left
        simp [entriesOf, named]
      · exact .inr (ih (List.mem_filterMap.mpr ⟨other, later, named⟩))
  | present _ _ _ ih =>
      rw [Dict.names, List.map_append]
      exact List.mem_append_right _ (ih mem)
  | absent _ ih => exact ih mem

end Filling

/-! ## Groups -/

mutual
theorem elementsWithin_subset_parts {group : List (Element Descriptor)} :
    (element : Element Descriptor) → .optional group ∈ elementParts element →
    elementsWithin group ⊆ elementParts element
  | .optional inner, mem => by
      rw [elementParts, List.mem_cons] at mem
      rw [elementParts]
      rcases mem with same | deeper
      · cases same
        exact List.subset_cons_self _ _
      · exact List.subset_cons_of_subset _ (elementsWithin_subset inner deeper)
  | .text _, mem => by cases List.mem_singleton.mp mem
  | .literal _ _, mem => by cases List.mem_singleton.mp mem
  | .operand _ _ _, mem => by cases List.mem_singleton.mp mem
/-- The elements of a group of a pattern are elements of the pattern. -/
theorem elementsWithin_subset {group : List (Element Descriptor)} :
    (elements : List (Element Descriptor)) → .optional group ∈ elementsWithin elements →
    elementsWithin group ⊆ elementsWithin elements
  | [], mem => by cases mem
  | element :: elements, mem => by
      rw [elementsWithin, List.mem_append] at mem
      rw [elementsWithin]
      rcases mem with here | later
      · exact List.subset_append_of_subset_left _ (elementsWithin_subset_parts element here)
      · exact List.subset_append_of_subset_right _ (elementsWithin_subset elements later)
end

theorem namesWithin_subset {group elements : List (Element Descriptor)}
    (mem : .optional group ∈ elementsWithin elements) :
    namesWithin group ⊆ namesWithin elements := by
  intro name named
  obtain ⟨element, inside, same⟩ := List.mem_filterMap.mp named
  exact List.mem_filterMap.mpr ⟨element, elementsWithin_subset elements mem inside, same⟩

/-- A group is bound as far as its own elements go, or nothing in it is. -/
def BindsWhole (group : List (Element Descriptor)) (entries : Bindings) : Prop :=
  (∀ name ∈ group.filterMap Element.name?, name ∈ Dict.names entries) ∨
    ∀ name ∈ namesWithin group, name ∉ Dict.names entries

namespace BindsWhole

variable {group : List (Element Descriptor)} {entries added : Bindings}

theorem append_right (whole : BindsWhole group entries)
    (apart : ∀ name ∈ namesWithin group, name ∉ Dict.names added) :
    BindsWhole group (entries ++ added) := by
  simp only [BindsWhole, Dict.names, List.map_append, List.mem_append, not_or]
  exact whole.imp (fun bound name mem => .inl (bound name mem))
    fun unbound name mem => ⟨unbound name mem, apart name mem⟩

theorem append_left (whole : BindsWhole group entries)
    (apart : ∀ name ∈ namesWithin group, name ∉ Dict.names added) :
    BindsWhole group (added ++ entries) := by
  simp only [BindsWhole, Dict.names, List.map_append, List.mem_append, not_or]
  exact whole.imp (fun bound name mem => .inr (bound name mem))
    fun unbound name mem => ⟨apart name mem, unbound name mem⟩

end BindsWhole

/-- The entries of elements bind each group of the pattern as a whole, at any depth. -/
theorem Filling.bindsWhole {elements group : List (Element Descriptor)} {entries : Bindings}
    (filling : Filling elements entries) (distinct : (namesWithin elements).Nodup)
    (mem : .optional group ∈ elementsWithin elements) : BindsWhole group entries := by
  -- What is bound inside of one element does not have a name of what lies inside of another one.
  have apart {own behind names : List String} (distinct : (own ++ behind).Nodup)
      (within : names ⊆ behind) : ∀ name ∈ own, name ∉ names :=
    fun name mem later => (List.nodup_append.mp distinct).2.2 name mem name (within later) rfl
  induction filling with
  | done => cases mem
  | text _ ih =>
      rw [namesWithin_cons] at distinct
      rcases List.mem_append.mp mem with here | later
      · cases List.mem_singleton.mp here
      · exact ih (List.nodup_append.mp distinct).2.1 later
  | @element element binding rest entries asked further ih =>
      rw [namesWithin_cons] at distinct
      rcases List.mem_append.mp mem with here | later
      · cases asked <;> cases List.mem_singleton.mp here
      · refine (ih (List.nodup_append.mp distinct).2.1 later).append_left fun name named => ?_
        rw [asked.names_entriesOf]
        exact fun bound => apart distinct (namesWithin_subset later) name bound named
  | @present other rest inner entries filled further inside ih =>
      rw [namesWithin_cons, elementNames_optional] at distinct
      rw [elementsWithin, elementParts, List.cons_append, List.mem_cons, List.mem_append] at mem
      have behind := apart distinct further.names_sublist.subset
      rcases mem with same | here | later
      · cases same
        exact .inl fun name named => by
          rw [Dict.names, List.map_append]
          exact List.mem_append_left _ (filled.mem_names named)
      · exact (inside (List.nodup_append.mp distinct).1 here).append_right
          fun name named => behind name (namesWithin_subset here named)
      · refine (ih (List.nodup_append.mp distinct).2.1 later).append_left fun name named bound => ?_
        exact apart distinct (namesWithin_subset later) name
          (filled.names_sublist.subset bound) named
  | @absent other rest entries further ih =>
      rw [namesWithin_cons, elementNames_optional] at distinct
      rw [elementsWithin, elementParts, List.cons_append, List.mem_cons, List.mem_append] at mem
      have behind := apart distinct further.names_sublist.subset
      rcases mem with same | here | later
      · cases same
        exact .inr behind
      · exact .inr fun name named => behind name (namesWithin_subset here named)
      · exact ih (List.nodup_append.mp distinct).2.1 later

/-! ## Bindings -/

/-- Where no two elements give the same name, an element is known by its name. -/
theorem eq_of_name? {elements : List (Element Descriptor)} (distinct : (namesWithin elements).Nodup)
    {element other : Element Descriptor} (here : element ∈ elementsWithin elements)
    (there : other ∈ elementsWithin elements) {name : String} (named : element.name? = some name)
    (named' : other.name? = some name) : element = other := by
  rw [namesWithin] at distinct
  generalize elementsWithin elements = within at distinct here there
  have clash {element : Element Descriptor} {rest : List (Element Descriptor)}
      (distinct : ((element :: rest).filterMap Element.name?).Nodup)
      (named : element.name? = some name) {other : Element Descriptor} (mem : other ∈ rest) :
      other.name? ≠ some name := by
    rw [List.filterMap_cons_some named] at distinct
    exact fun same => (List.nodup_cons.mp distinct).1 (List.mem_filterMap.mpr ⟨other, mem, same⟩)
  induction within with
  | nil => cases here
  | cons first rest ih =>
      rcases List.mem_cons.mp here with rfl | later
      · rcases List.mem_cons.mp there with rfl | later'
        · rfl
        · exact absurd named' (clash distinct named later')
      · rcases List.mem_cons.mp there with rfl | later'
        · exact absurd named (clash distinct named' later)
        · refine ih ?_ later later'
          exact distinct.sublist ((List.sublist_cons_self first rest).filterMap _)

/-- Bindings of a node that fit its production. -/
structure Fits (production : Production) (bindings : Bindings) : Prop where
  /-- The names ascend, so no name is bound twice. -/
  ordered : Dict.Ordered bindings
  /-- The entries are those of the elements that matched, each with its own one. -/
  filled : ∃ entries, Filling production.elements entries ∧ entries.Perm bindings
  /-- Elements outside of groups are bound. -/
  required : ∀ name ∈ production.elements.filterMap Element.name?,
    ∃ binding, Dict.get? bindings name = some binding
  /-- Groups are bound as far as their own elements go or not at all. -/
  groups : ∀ group, .optional group ∈ elementsWithin production.elements →
    (∀ name ∈ group.filterMap Element.name?, ∃ binding, Dict.get? bindings name = some binding) ∨
      ∀ name ∈ namesWithin group, Dict.get? bindings name = none
  /-- An element is bound to what it asks for. -/
  asked : ∀ element ∈ elementsWithin production.elements, ∀ name, element.name? = some name →
    ∀ binding, Dict.get? bindings name = some binding → element.Asks binding

/-- The entries of a filled pattern, by name, fit its production. -/
theorem fits_of_filling {production : Production}
    (distinct : (namesWithin production.elements).Nodup) {entries bindings : Bindings}
    (filling : Filling production.elements entries) (perm : entries.Perm bindings)
    (ordered : Dict.Ordered bindings) : Fits production bindings := by
  have once : (Dict.names bindings).Nodup := ordered.nodup
  have bound {name : String} :
      name ∈ Dict.names entries ↔ ∃ binding, Dict.get? bindings name = some binding := by
    simp only [Dict.get?_eq_some_iff once, Dict.names, (perm.map Prod.fst).mem_iff, List.mem_map,
      Prod.exists, exists_and_right, exists_eq_right]
  have unbound {name : String} (absent : name ∉ Dict.names entries) :
      Dict.get? bindings name = none := by
    rw [Option.eq_none_iff_forall_ne_some]
    exact fun binding found => absent (bound.mpr ⟨binding, found⟩)
  refine ⟨ordered, ⟨entries, filling, perm⟩, fun name mem => bound.mp (filling.mem_names mem), ?_, ?_⟩
  · intro group mem
    exact (filling.bindsWhole distinct mem).imp (fun whole name named => bound.mp (whole name named))
      fun nothing name named => unbound (nothing name named)
  · intro element inside name named binding found
    have mem := perm.mem_iff.mpr ((Dict.get?_eq_some_iff once).mp found)
    obtain ⟨other, there, named', asked⟩ := filling.exists_element mem
    exact eq_of_name? distinct inside there named named' ▸ asked

end Mixfix
