/-
# What is asked of a field and of everything in it

A field holds values (its head, names of types, options) and, to any depth, items
and the fields of unnamed shapes. A demand says what is asked of each kind of
value, of the list of items that a field holds, and of a node that stands where a
field, an item, a shape or a list of these belongs and is none (`stray`). A field
meets a demand if everything in it does.

With nothing asked of the values and strays refused, the demand is that every
node is of a kind that belongs in its place; with strays allowed, it is about the
values alone.

Key definitions: `Demand`, `Demand.Field`, `Demand.Item`, `Demand.Fields`.
-/
import ContentDecl.Model.Node

namespace ContentDecl

/-- What is asked of the values and of the nodes in a field. -/
structure Demand where
  head : Head → Prop := fun _ => True
  typeName : Json → Prop := fun _ => True
  typeNames : Json → Prop := fun _ => True
  options : Json → Prop := fun _ => True
  items : List Node → Prop := fun _ => True
  stray : Prop := False

namespace Demand

mutual

/-- A node in the place of a field meets the demand. -/
def Field (d : Demand) : Node → Prop
  | .field head kind => d.head head ∧ d.Kind kind
  | _ => d.stray

/-- What a field holds meets the demand. -/
def Kind (d : Demand) : FieldKind → Prop
  | .bare => d.stray
  | .nested typeName => d.typeName typeName
  | .nestedPolymorphic typeNames => d.typeNames typeNames
  | .nestedUnnamed type => d.Shape type
  | .list item => d.Item item
  | .listPolymorphic items => d.ItemGroup items
  | .enum options => d.options options
  | _ => True

/-- A node in the place of an item meets the demand. -/
def Item (d : Demand) : Node → Prop
  | .item kind => d.ItemKind kind
  | _ => d.stray

/-- What an item holds meets the demand. -/
def ItemKind (d : Demand) : ContentDecl.ItemKind → Prop
  | .nested typeName => d.typeName typeName
  | .enum options => d.options options
  | .nestedUnnamed type => d.Shape type
  | _ => True

/-- A node in the place of a shape meets the demand. -/
def Shape (d : Demand) : Node → Prop
  | .shape fields => d.FieldGroup fields
  | _ => d.stray

/-- A node in the place of a list of fields meets the demand. -/
def FieldGroup (d : Demand) : Node → Prop
  | .group members => d.Fields members
  | _ => d.stray

def Fields (d : Demand) : List Node → Prop
  | [] => True
  | node :: rest => d.Field node ∧ d.Fields rest

/-- A node in the place of a list of items meets the demand. -/
def ItemGroup (d : Demand) : Node → Prop
  | .group members => d.items members ∧ d.Items members
  | _ => d.stray

def Items (d : Demand) : List Node → Prop
  | [] => True
  | node :: rest => d.Item node ∧ d.Items rest

end

theorem fields_iff (d : Demand) : ∀ nodes : List Node, d.Fields nodes ↔ ∀ n ∈ nodes, d.Field n
  | [] => by simp [Fields]
  | node :: rest => by simp [Fields, fields_iff d rest]

theorem items_iff (d : Demand) : ∀ nodes : List Node, d.Items nodes ↔ ∀ n ∈ nodes, d.Item n
  | [] => by simp [Items]
  | node :: rest => by simp [Items, items_iff d rest]

end Demand
end ContentDecl
