import Mixfix.Proofs.Descriptor.Offsets
import Mixfix.Proofs.Parse.Inheritance

/-!
# Types of results

The types that appear in a tree are its own, those of the values it binds, and those that appear in
the trees it binds. They are all well-formed if the tree is read with a grammar and a schema that can
be built (`wellFormed_types_of_returns`). Such a grammar and such a schema have read their types from
texts (`Production.IsChecked.wellFormed_result`, `Schema.IsBuilt.wellFormed`), and the type of a node
is fixed, that of its only binding, or a sorted union of those of its bindings, which opens the
unions among them (`Bindings.wellFormed_resultType`).

Together with the reading of texts, this is where ill-formed types could come from
(`wellFormed_or_located`).
-/

set_option autoImplicit false

namespace Mixfix

open Descriptor (WellFormed)

namespace Tree

mutual
/-- The types that appear in a tree. -/
def types : Tree → List Descriptor
  | .literal value _ => [.ofValue value]
  | .identifier _ type _ => [type]
  | .node _ bindings type _ _ => type :: bindingTypes bindings
/-- The types that appear in bindings. -/
def bindingTypes : List (String × Binding) → List Descriptor
  | [] => []
  | (_, .tree tree) :: bindings => types tree ++ bindingTypes bindings
  | (_, .value value) :: bindings => .ofValue value :: bindingTypes bindings
end

theorem type_mem_types (tree : Tree) : tree.type ∈ tree.types := by
  cases tree <;> exact List.mem_cons_self

@[simp]
theorem types_widen (tree : Tree) (span : Span) : (tree.widen span).types = tree.types := by
  cases tree <;> simp only [widen, types]

end Tree

/-! ## Grammars -/

/-- The type of a result is well-formed, if it is fixed. -/
def ResultType.WellFormed (result : ResultType Descriptor) : Prop :=
  ∀ type, result = .fixed type → Descriptor.WellFormed type

theorem wellFormed_readType {node text : String} {type : Descriptor}
    (read : readType node text = .ok type) : WellFormed type := by
  unfold readType at read
  split at read
  · next descriptor parsed =>
      cases read
      exact Descriptor.wellFormed_of_parse parsed
  · cases read

theorem wellFormed_compileResult {node : String} {inUse : List String}
    {result : ResultType String} {compiled : ResultType Descriptor}
    (ok : compileResult node inUse result = .ok compiled) : compiled.WellFormed := by
  rintro type rfl
  cases result with
  | fixed text =>
      obtain ⟨descriptor, read, same⟩ := ok_of_bind ok
      split at same
      · cases same
      · cases same
        exact wellFormed_readType read
  | sole => cases ok
  | union names =>
      simp only [compileResult] at ok
      split at ok
      · cases ok
      · split at ok
        · cases ok
        · cases ok

/-- The results of all productions of a grammar that was built are well-formed. -/
theorem Production.IsChecked.wellFormed_result {production : Production}
    (checked : production.IsChecked) : production.result.WellFormed := by
  obtain ⟨_, _, _, read, _⟩ := ok_of_compileDefinition checked.compiled
  exact wellFormed_compileResult read

/-! ## Nodes -/

namespace Bindings

variable {bindings : Bindings}

/-- All types that appear in bindings are well-formed. -/
theorem wellFormed_bindingTypes
    (inside : Parse.BindsOnly (fun tree => ∀ type ∈ tree.types, WellFormed type) bindings) :
    ∀ type ∈ Tree.bindingTypes bindings, WellFormed type := by
  induction bindings with
  | nil =>
      intro type mem
      cases mem
  | cons entry bindings ih =>
      have later := ih fun name tree mem => inside name tree (List.mem_cons_of_mem _ mem)
      obtain ⟨name, tree | value⟩ := entry
      · intro type mem
        rcases List.mem_append.mp mem with here | there
        · exact inside name tree List.mem_cons_self type here
        · exact later type there
      · intro type mem
        rcases List.mem_cons.mp mem with rfl | there
        · exact Descriptor.wellFormed_ofValue value
        · exact later type there

theorem type_mem_bindingTypes {name : String} {binding : Binding}
    (mem : (name, binding) ∈ bindings) : binding.type ∈ Tree.bindingTypes bindings := by
  induction bindings with
  | nil => cases mem
  | cons entry bindings ih =>
      rcases List.mem_cons.mp mem with rfl | later
      · cases binding with
        | tree tree => exact List.mem_append_left _ tree.type_mem_types
        | value value => exact List.mem_cons_self
      · obtain ⟨key, tree | value⟩ := entry
        · exact List.mem_append_right _ (ih later)
        · exact List.mem_cons_of_mem _ (ih later)

/-- The type of a node is well-formed, if the types that appear in its bindings are. -/
theorem wellFormed_resultType {result : ResultType Descriptor} (fixed : result.WellFormed)
    (wellFormed : ∀ type ∈ Tree.bindingTypes bindings, WellFormed type) :
    WellFormed (bindings.resultType result) := by
  cases result with
  | fixed type => exact fixed type rfl
  | sole =>
      unfold resultType
      dsimp only
      split
      · next name binding =>
          have bound : (name, binding) ∈ [(name, binding)] := List.mem_cons_self
          exact wellFormed _ (type_mem_bindingTypes bound)
      · exact .unknown
  | union names =>
      refine Descriptor.wellFormed_sortedUnion fun type mem => ?_
      obtain ⟨name, _, found⟩ := List.mem_filterMap.mp mem
      obtain ⟨binding, bound, rfl⟩ := Option.map_eq_some_iff.mp found
      exact wellFormed _ (type_mem_bindingTypes (Dict.mem_of_get? bound))

end Bindings

namespace Parse

variable {definitions : List Definition} {setting : Setting}

/-- What a tree shows of types is well-formed as soon as what it is made of does. -/
theorem inherited_wellFormed (built : Grammar.build definitions = .ok setting.grammar)
    (builtSchema : Schema.IsBuilt setting.schema) :
    Inherited setting fun tree => ∀ type ∈ tree.types, WellFormed type where
  literal value extent := by
    intro type mem
    rw [List.mem_singleton.mp mem]
    exact Descriptor.wellFormed_ofValue value
  reference {cursor parsed} found := by
    obtain ⟨path, entry, resolved, _, _, same, _, _⟩ := reference?_ok found
    intro type mem
    rw [same] at mem
    rw [List.mem_singleton.mp mem]
    exact builtSchema.wellFormed.descriptor (Descriptor.wellFormed_plain .object) resolved
  widen span holds := by
    rw [Tree.types_widen]
    exact holds
  node {production bindings start next} known inside _ := by
    have appearing := Bindings.wellFormed_bindingTypes inside
    have checked := Grammar.isChecked_of_mem built known
    intro type mem
    rcases List.mem_cons.mp mem with rfl | there
    · exact Bindings.wellFormed_resultType checked.wellFormed_result appearing
    · exact appearing type there

/-- All types that appear in a tree that a parse comes to are well-formed. -/
theorem wellFormed_types_of_returns (built : Grammar.build definitions = .ok setting.grammar)
    (builtSchema : Schema.IsBuilt setting.schema) {source : String} {tree : Tree}
    (returns : Returns setting source tree) : ∀ type ∈ tree.types, WellFormed type :=
  (inherited_wellFormed built builtSchema).of_returns built returns

/-- **Types are well-formed and errors are located.** Every text is read as a well-formed descriptor,
or has an error that names the text and a boundary of a character in it. In every tree that a parse
comes to, with any grammar and any schema that can be built, all types are well-formed. -/
theorem wellFormed_or_located :
    (∀ text,
      (∃ descriptor, Descriptor.parse text = .ok descriptor ∧ WellFormed descriptor) ∨
        ∃ error, Descriptor.parse text = .error error ∧ error.text = text ∧
          IsBoundary text error.offset ∧ error.offset ≤ text.utf8ByteSize) ∧
      ∀ {definitions : List Definition} {setting : Setting} {source : String} {tree : Tree},
        Grammar.build definitions = .ok setting.grammar → Schema.IsBuilt setting.schema →
          Returns setting source tree → ∀ type ∈ tree.types, WellFormed type := by
  refine ⟨fun text => ?_, fun built builtSchema returns =>
    wellFormed_types_of_returns built builtSchema returns⟩
  cases read : Descriptor.parse text with
  | ok descriptor => exact .inl ⟨descriptor, rfl, Descriptor.wellFormed_of_parse read⟩
  | error error =>
      have inside := Descriptor.liesIn_of_parse read
      exact .inr ⟨error, rfl, inside.text, inside.boundary, inside.boundary.le⟩

theorem wellFormed_or_located_union :
    ∃ grammar schema tree,
      Grammar.build [(Definition.binary "either" 1 "or" none).returns (.union ["left", "right"])] =
        .ok grammar ∧
      Schema.addField [] "price" "number | null" = .ok schema ∧
      whole ⟨grammar, schema, 8⟩ "price or 'none'" = .ok tree ∧
      tree.type.text = "null | number | string" ∧ ∀ type ∈ tree.types, WellFormed type := by
  have accepted : (match Grammar.build
        [(Definition.binary "either" 1 "or" none).returns (.union ["left", "right"])],
        Schema.addField [] "price" "number | null" with
      | .ok grammar, .ok schema =>
        (whole ⟨grammar, schema, 8⟩ "price or 'none'").toOption.any
          (·.type.text == "null | number | string")
      | _, _ => false) = true := by
    decide +kernel
  split at accepted
  · next grammar schema built added =>
      obtain ⟨tree, read, typed⟩ := exists_ok_of_any accepted
      exact ⟨grammar, schema, tree, built, added, read, beq_iff_eq.mp typed,
        wellFormed_or_located.2 built (.field .empty added) (.inl read)⟩
  · cases accepted

end Parse

end Mixfix
