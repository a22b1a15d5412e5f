/-
# What a model read from a dump is made of

A dump holds any values, but a model that is read from one has every node in its
place: fields where fields belong, items where items belong, shapes in fields and
items, computed fields in document types, to any depth. No field is without a
kind, lists of names and of options are lists, and extensions that count as
absent are those of an empty object.

The induction goes by what an object holds; the registries keep what the entries
give, for a definition that is put in takes the place of one or is the last.

Key definitions: `wellPlaced`, `WellPlaced`.
Key theorems: `field_item_wellPlaced`, `schema_wellPlaced`.
-/
import ContentDecl.Proofs.Demand
import ContentDecl.Proofs.Dump.Inside
import ContentDecl.Proofs.Dump.Part

namespace ContentDecl

/-- Every node in a field is of a kind that belongs in its place, and every list of
names or options is a list. -/
def wellPlaced : Demand where
  typeNames v := ∃ vs, v = .arr vs
  options v := ∃ vs, v = .arr vs

/-- A definition of a section whose nodes are all in their places. -/
inductive WellPlaced : Section → Node → Prop
  | document {found computed : List Node} (name description extensions : Json)
    (hf : wellPlaced.Fields found)
    (hc : ∀ node ∈ computed, ∃ name type description, node = .computed name type description)
    (he : extensions.isTrue = true ∨ extensions = .obj []) :
    WellPlaced .documents
      (.document name (.group found) (.group computed) description extensions)
  | nestedType {found : List Node} (name description extensions : Json)
    (hf : wellPlaced.Fields found) :
    WellPlaced .nested (.nestedType name (.group found) description extensions)

theorem WellPlaced.fields {part : Section} {node : Node} (hw : WellPlaced part node)
    {fields : List Node} (h : node.fields? = some (.group fields)) : wellPlaced.Fields fields := by
  cases hw with
  | document _ _ _ hf =>
    obtain rfl := Node.group.inj (Option.some.inj h)
    exact hf
  | nestedType _ _ _ hf =>
    obtain rfl := Node.group.inj (Option.some.inj h)
    exact hf

theorem WellPlaced.exists_name {part : Section} {node : Node} (hw : WellPlaced part node) :
    ∃ name, node.name? = some name := by
  cases hw with
  | document name => exact ⟨name, rfl⟩
  | nestedType name => exact ⟨name, rfl⟩

/-- The part that was read of an object is of the kind that belongs there. -/
def Dump.Part.WellPlaced : Part → Node → Prop
  | .nothing, _ => True
  | .value _, _ => True
  | .elements _, node => ∃ vs, node = .plain (.arr vs)
  | .shape, node => wellPlaced.Shape node
  | .item, node => wellPlaced.Item node
  | .items, node => wellPlaced.ItemGroup node

theorem FieldTag.holding_wellPlaced (tag : FieldTag) {node : Node}
    (h : tag.part.WellPlaced node) : wellPlaced.Kind (tag.holding node) := by
  cases tag with
  | nestedPolymorphic | enum =>
    obtain ⟨vs, rfl⟩ := h
    exact ⟨vs, rfl⟩
  | nestedUnnamed | list | listPolymorphic => exact h
  | _ => trivial

theorem ItemTag.holding_wellPlaced (tag : ItemTag) {node : Node}
    (h : tag.part.WellPlaced node) : wellPlaced.ItemKind (tag.holding node) := by
  cases tag with
  | enum =>
    obtain ⟨vs, rfl⟩ := h
    exact ⟨vs, rfl⟩
  | nestedUnnamed => exact h
  | _ => trivial

namespace Dump

open Result

theorem listOf_eq_ok {v w : Json} (h : listOf v = .ok w) : ∃ vs, w = .arr vs := by
  unfold listOf at h
  cases hv : v.elements? with
  | none => simp [hv] at h
  | some vs => exact ⟨vs, by simpa [hv] using h.symm⟩

theorem noObjects_eq_ok {v : Json} {nodes : List Node} (h : noObjects v = .ok nodes) :
    nodes = [] := by
  unfold noObjects at h
  split at h
  · simpa using h.symm
  · simp at h
  · simp at h

section Inside

variable {members : List (String × Json)}

theorem fieldsIn_wellPlaced
    (ih : ∀ raw : Json, sizeOf raw < sizeOf members → ∀ place node,
      field place raw = .ok node → wellPlaced.Field node)
    {place : Location} {nodes : List Node} (h : fieldsIn place members = .ok nodes) :
    wellPlaced.Fields nodes := by
  rw [Demand.fields_iff]
  obtain ⟨-, hread⟩ | ⟨raws, hv, hread⟩ | ⟨v, -, -, hread⟩ := fieldsIn_cases place members
  · obtain rfl : [] = nodes := Except.ok.inj (hread.symm.trans h)
    simp
  · exact forall_of_readAll (fun raw hmem => ih raw (sizeOf_element_lt hv hmem))
      (hread.symm.trans h)
  · have hnil : nodes = [] := by
      rw [hread] at h
      split at h
      · exact noObjects_eq_ok h
      · exact (Except.ok.inj h).symm
    simp [hnil]

theorem itemsIn_wellPlaced
    (ih : ∀ raw : Json, sizeOf raw < sizeOf members → ∀ place node,
      item place raw = .ok node → wellPlaced.Item node)
    {place : Location} {nodes : List Node} (h : itemsIn place members = .ok nodes) :
    wellPlaced.Items nodes := by
  rw [Demand.items_iff]
  obtain ⟨-, hread⟩ | ⟨raws, hv, hread⟩ | ⟨v, -, -, hread⟩ := itemsIn_cases place members
  · simp [hread] at h
  · exact forall_of_readAll (fun raw hmem => ih raw (sizeOf_element_lt hv hmem))
      (hread.symm.trans h)
  · have hnil : nodes = [] := noObjects_eq_ok (hread.symm.trans h)
    simp [hnil]

theorem shapeIn_wellPlaced
    (ih : ∀ raw : Json, sizeOf raw < sizeOf members → ∀ place node,
      field place raw = .ok node → wellPlaced.Field node)
    {place : Location} {node : Node} (h : shapeIn place members = .ok node) :
    wellPlaced.Shape node := by
  obtain ⟨-, hread⟩ | ⟨type, hv, hread⟩ | ⟨v, -, -, hread⟩ := shapeIn_cases place members
  · simp [hread] at h
  · have hlt := sizeOf_members_lt hv
    obtain ⟨nodes, hn, rfl⟩ := map_eq_ok.mp (hread.symm.trans h)
    exact fieldsIn_wellPlaced (fun raw h => ih raw (Nat.lt_trans h hlt)) hn
  · simp [hread] at h

theorem readPart_wellPlaced
    (ih : ∀ raw : Json, sizeOf raw < sizeOf members →
      (∀ place node, field place raw = .ok node → wellPlaced.Field node) ∧
      (∀ place node, item place raw = .ok node → wellPlaced.Item node))
    (place : Location) (part : Part) (node : Node)
    (h : readPart place members part = .ok node) : part.WellPlaced node := by
  cases part with
  | nothing | value => trivial
  | elements key =>
    simp only [readPart, map_eq_ok, bind_eq_ok] at h
    obtain ⟨w, ⟨v, -, hw⟩, rfl⟩ := h
    obtain ⟨vs, rfl⟩ := listOf_eq_ok hw
    exact ⟨vs, rfl⟩
  | shape => exact shapeIn_wellPlaced (fun raw hlt => (ih raw hlt).1) h
  | item =>
    rw [readPart] at h
    obtain ⟨-, hread⟩ | ⟨raw, hv, hread⟩ := itemIn_cases place members
    · simp [hread] at h
    · exact (ih raw (sizeOf_lookup_lt hv)).2 _ _ (hread.symm.trans h)
  | items =>
    obtain ⟨nodes, hn, rfl⟩ := map_eq_ok.mp h
    exact ⟨trivial, itemsIn_wellPlaced (fun raw hlt => (ih raw hlt).2) hn⟩

end Inside

/-- Fields and items that are read have every node in its place. -/
theorem field_item_wellPlaced (raw : Json) :
    (∀ place node, field place raw = .ok node → wellPlaced.Field node) ∧
    (∀ place node, item place raw = .ok node → wellPlaced.Item node) := by
  induction raw using inside_induction with
  | other raw hobj =>
    refine ⟨fun place node h => ?_, fun place node h => ?_⟩
    · simp [field_of_ne_obj place hobj] at h
    · simp [item_of_ne_obj place hobj] at h
  | object members ih =>
    constructor
    · intro place node h
      rw [field_obj] at h
      obtain ⟨tag, -, h⟩ := bind_eq_ok.mp h
      obtain ⟨part, hp, rfl⟩ := map_eq_ok.mp h
      exact ⟨trivial, tag.holding_wellPlaced (readPart_wellPlaced ih _ _ _ hp)⟩
    · intro place node h
      rw [item_obj] at h
      obtain ⟨tag, -, h⟩ := bind_eq_ok.mp h
      obtain ⟨part, hp, rfl⟩ := map_eq_ok.mp h
      exact tag.holding_wellPlaced (readPart_wellPlaced ih _ _ _ hp)

/-! ### Definitions and registries -/

theorem computedField_eq_ok {place : Location} {raw : Json} {node : Node}
    (h : computedField place raw = .ok node) :
    ∃ name type description, node = .computed name type description := by
  unfold computedField at h
  split at h
  · split at h
    · exact ⟨_, _, _, (Except.ok.inj h).symm⟩
    · simp at h
  · simp at h
  · simp at h

theorem computedIn_eq_ok {part : Section} {place : Location} {members : List (String × Json)}
    {nodes : List Node} (h : computedIn part place members = .ok nodes) :
    ∀ node ∈ nodes, ∃ name type description, node = .computed name type description := by
  cases part with
  | nested =>
    obtain rfl := Except.ok.inj h
    exact nofun
  | documents =>
    rw [computedIn] at h
    obtain ⟨-, hread⟩ | ⟨v, raws, -, -, -, hread⟩ | ⟨v, -, -, -, hread⟩ :=
      computedFields_cases place members
    · obtain rfl : [] = nodes := Except.ok.inj (hread.symm.trans h)
      simp
    · exact forall_of_readAll (fun raw _ place node => computedField_eq_ok) (hread.symm.trans h)
    · simp [hread] at h

theorem orElse_obj_nil (v : Json) : (v.orElse (.obj [])).isTrue = true ∨ v.orElse (.obj []) = .obj [] := by
  unfold Json.orElse
  cases h : v.isTrue with
  | true => exact .inl (by simp [h])
  | false => exact .inr (by simp)

theorem definition_wellPlaced {part : Section} {key : String} {raw name : Json} {node : Node}
    (h : definition part key raw = .ok (name, node)) : WellPlaced part node := by
  cases raw with
  | obj members =>
    obtain ⟨found, hf, computed, hc, -, heq⟩ := definition_eq_ok.mp h
    obtain ⟨-, rfl⟩ := Prod.mk.inj heq
    have hplaced := fieldsIn_wellPlaced (fun raw _ => (field_item_wellPlaced raw).1) hf
    cases part with
    | documents => exact .document _ _ _ hplaced (computedIn_eq_ok hc) (orElse_obj_nil _)
    | nested => exact .nestedType _ _ _ hplaced
  | _ => simp [definition] at h

end Dump

/-- A definition that is put into a registry takes the place of one or is the last. -/
theorem Registry.forall_put {p : Node → Prop} {key : Json} {node : Node} (hn : p node) :
    ∀ {registry : Registry}, (∀ other ∈ registry.definitions, p other) →
      ∀ other ∈ (registry.put key node).definitions, p other
  | [], _, other, hmem => by
    obtain rfl : other = node := by simpa [put, definitions] using hmem
    exact hn
  | entry :: rest, h, other, hmem => by
    have hentry : p entry.2 := h _ List.mem_cons_self
    have hrest : ∀ other ∈ Registry.definitions rest, p other := fun other hmem =>
      h other (List.mem_cons_of_mem _ hmem)
    unfold put at hmem
    split at hmem
    · rcases List.mem_cons.mp hmem with rfl | hmem
      · exact hn
      · exact hrest other hmem
    · rcases List.mem_cons.mp hmem with rfl | hmem
      · exact hentry
      · exact forall_put hn hrest other hmem

namespace Dump

open Result

theorem entries_wellPlaced {part : Section} : ∀ {registry found result},
    (∀ node ∈ Registry.definitions registry, WellPlaced part node) →
    entries part registry found = .ok result →
    ∀ node ∈ result.definitions, WellPlaced part node
  | registry, [], result, hr, h => by
    obtain rfl := Except.ok.inj h
    exact hr
  | registry, (key, raw) :: rest, result, hr, h => by
    rw [entries] at h
    obtain ⟨⟨name, node⟩, hentry, h⟩ := bind_eq_ok.mp h
    exact entries_wellPlaced (Registry.forall_put (definition_wellPlaced hentry) hr) h

theorem section_wellPlaced {part : Section} {members : List (String × Json)} {registry : Registry}
    (h : section? part members = .ok registry) :
    ∀ node ∈ registry.definitions, WellPlaced part node := by
  obtain ⟨hread, -⟩ | ⟨found, hread, -⟩ | ⟨v, hread, -⟩ := section_cases part members
  · obtain rfl : [] = registry := Except.ok.inj (hread.symm.trans h)
    simp [Registry.definitions]
  · exact entries_wellPlaced (by simp [Registry.definitions]) (hread.symm.trans h)
  · simp [hread] at h

/-- **A model that is read from a dump has every node in its place.** -/
theorem schema_wellPlaced {data : Json} {schema : Schema} (h : Dump.schema data = .ok schema)
    (part : Section) : ∀ node ∈ (schema.registry part).definitions, WellPlaced part node := by
  cases data with
  | obj members =>
    rw [Dump.schema] at h
    obtain ⟨documents, hd, h⟩ := bind_eq_ok.mp h
    obtain ⟨nested, hn, h⟩ := bind_eq_ok.mp h
    obtain rfl := pure_eq_ok.mp h
    cases part with
    | documents => exact section_wellPlaced hd
    | nested => exact section_wellPlaced hn
  | _ => simp [Dump.schema] at h

end Dump
end ContentDecl
