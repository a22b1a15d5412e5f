/-
# Writing a model as a dump

A node is written as an object with the members that a reader of its kind looks
for: a field under `type` the word for its kind, then what the kind holds, then
its head; an item the same without a head; a definition its name, its fields, its
computed fields, its description and its extensions. A list is written element by
element, each at its own place, a registry as a map from keys to definitions.

A member may be left out if its absence says the same: a name that is the key of
its entry or empty, a requirement that does not hold, a description that is null,
and lists and extensions without members. Whether it is left out may be decided at
each place on its own (`Omission`); with nothing left out, every member is written.

Key definitions: `Omission`, `Omission.member`, `fieldObject`, `itemObject`,
`definitionObject`, `Dump.ofSchema`.
-/
import ContentDecl.Proofs.Dump.Inside
import ContentDecl.Proofs.Dump.Part

namespace ContentDecl

def Json.isNull : Json → Bool
  | null => true
  | _ => false

namespace Dump

/-- Which members are left out at which places, where they may be. -/
abbrev Omission := Location → String → Bool

/-- A member that may be left out if its value is the one that its absence says. -/
def Omission.member (omits : Omission) (place : Location) (key : String) (v : Json)
    (isDefault : Bool) : List (String × Json) :=
  if isDefault && omits place key then [] else [(key, v)]

/-- A description, which says nothing if it is null. -/
def Omission.description (omits : Omission) (place : Location) (v : Json) :
    List (String × Json) :=
  omits.member place "description" v v.isNull

/-- A list of definitions, which says nothing if it is empty. -/
def Omission.list (omits : Omission) (place : Location) (key : String) (raws : List Json) :
    List (String × Json) :=
  omits.member place key (.arr raws) raws.isEmpty

/-- The members of a field's head. -/
def headMembers (omits : Omission) (place : Location) (head : Head) : List (String × Json) :=
  omits.member place "name" head.name (!head.name.isTrue)
    ++ omits.member place "isRequired" head.isRequired (!head.isRequired.isTrue)
    ++ omits.description place head.description

mutual

/-- A field definition. -/
def fieldObject (omits : Omission) (place : Location) : Node → Json
  | .field head kind => .obj (("type", .str (kind.tag?.elim "" FieldTag.text)) ::
      (kindMembers omits place kind ++ headMembers omits place head))
  | _ => .null

/-- What a kind of field holds. -/
def kindMembers (omits : Omission) (place : Location) : FieldKind → List (String × Json)
  | .nested typeName => [("nestedTypeName", typeName)]
  | .nestedPolymorphic typeNames => [("nestedTypeNames", typeNames)]
  | .nestedUnnamed type => [("typeDef", shapeObject omits (place.down .shape) type)]
  | .reference typeName => [("documentTypeName", typeName)]
  | .referencePolymorphic typeNames => [("documentTypeNames", typeNames)]
  | .list item => [("of", itemObject omits (place.down .item) item)]
  | .listPolymorphic items => [("of", .arr (itemGroupObjects omits place items))]
  | .enum options => [("options", options)]
  | _ => []

/-- The item definition of a list field. -/
def itemObject (omits : Omission) (place : Location) : Node → Json
  | .item kind => .obj (("type", .str kind.tag.text) :: itemKindMembers omits place kind)
  | _ => .null

/-- What a kind of item holds. -/
def itemKindMembers (omits : Omission) (place : Location) : ItemKind → List (String × Json)
  | .nested typeName => [("nestedTypeName", typeName)]
  | .enum options => [("options", options)]
  | .nestedUnnamed type => [("typeDef", shapeObject omits (place.down .shape) type)]
  | .reference typeName => [("documentTypeName", typeName)]
  | _ => []

/-- A type without a name. -/
def shapeObject (omits : Omission) (place : Location) : Node → Json
  | .shape fields => .obj (omits.list place "fieldDefs" (fieldGroupObjects omits place fields))
  | _ => .null

def fieldGroupObjects (omits : Omission) (place : Location) : Node → List Json
  | .group fields => fieldObjects omits place 0 fields
  | _ => []

/-- Field definitions from the given index on. -/
def fieldObjects (omits : Omission) (place : Location) (index : Nat) : List Node → List Json
  | [] => []
  | node :: rest =>
    fieldObject omits (place.down (.field index)) node :: fieldObjects omits place (index + 1) rest

def itemGroupObjects (omits : Omission) (place : Location) : Node → List Json
  | .group items => itemObjects omits place 0 items
  | _ => []

/-- Item definitions from the given index on. -/
def itemObjects (omits : Omission) (place : Location) (index : Nat) : List Node → List Json
  | [] => []
  | node :: rest =>
    itemObject omits (place.down (.itemAt index)) node :: itemObjects omits place (index + 1) rest

end

/-- A computed field. -/
def computedObject (omits : Omission) (place : Location) : Node → Json
  | .computed name type description =>
    .obj (("name", name) :: ("type", type) :: omits.description place description)
  | _ => .null

/-- Definitions written one after the other, each at its own place. -/
def writeAll (write : Location → Node → Json) (step : Nat → Step) (place : Location)
    (index : Nat) : List Node → List Json
  | [] => []
  | node :: rest => write (place.down (step index)) node :: writeAll write step place (index + 1) rest

def computedGroupObjects (omits : Omission) (place : Location) : Node → List Json
  | .group computed => writeAll (computedObject omits) .computed place 0 computed
  | _ => []

/-- What the definitions of both sections have. -/
def commonMembers (omits : Omission) (part : Section) (key : String) (name : Json) (fields : Node)
    (description extensions : Json) : List (String × Json) :=
  let place := Location.entry part key
  omits.member place "name" name (name.agrees (.str key))
    ++ omits.list place "fieldDefs" (fieldGroupObjects omits place fields)
    ++ omits.description place description
    ++ omits.member place "extensions" extensions (!extensions.isTrue)

/-- A type definition of a section under a key. -/
def definitionObject (omits : Omission) (part : Section) (key : String) : Node → Json
  | .document name fields computed description extensions =>
    let place := Location.entry part key
    .obj (omits.list place "computedFields" (computedGroupObjects omits place computed)
      ++ commonMembers omits part key name fields description extensions)
  | .nestedType name fields description extensions =>
    .obj (commonMembers omits part key name fields description extensions)
  | _ => .null

/-- A registry as a map of a dump. -/
def registryObject (omits : Omission) (part : Section) (registry : Registry) : Json :=
  .obj (registry.map fun entry =>
    (entry.1.text, definitionObject omits part entry.1.text entry.2))

/-- **The dump of a schema**, without the members that are left out. -/
def ofSchema (omits : Omission) (schema : Schema) : Json :=
  .obj [(sectionKey .documents, registryObject omits .documents schema.documents),
    (sectionKey .nested, registryObject omits .nested schema.nested)]

/-! ### Small laws -/

theorem fieldObjects_eq_writeAll (omits : Omission) (place : Location) :
    ∀ (index : Nat) (nodes : List Node),
      fieldObjects omits place index nodes = writeAll (fieldObject omits) .field place index nodes
  | _, [] => rfl
  | index, node :: rest => by
    rw [fieldObjects, writeAll, fieldObjects_eq_writeAll omits place (index + 1) rest]

theorem itemObjects_eq_writeAll (omits : Omission) (place : Location) :
    ∀ (index : Nat) (nodes : List Node),
      itemObjects omits place index nodes = writeAll (itemObject omits) .itemAt place index nodes
  | _, [] => rfl
  | index, node :: rest => by
    rw [itemObjects, writeAll, itemObjects_eq_writeAll omits place (index + 1) rest]

/-- A member is found under its key, or it was left out. -/
theorem lookup_member (omits : Omission) (place : Location) (key : String) (v : Json)
    (isDefault : Bool) :
    (omits.member place key v isDefault).lookup key = some v ∨
      (omits.member place key v isDefault).lookup key = none ∧ isDefault = true := by
  unfold Omission.member
  by_cases homit : (isDefault && omits place key) = true
  · rw [if_pos homit]
    exact .inr ⟨rfl, (Bool.and_eq_true_iff.mp homit).1⟩
  · rw [if_neg homit]
    exact .inl List.lookup_cons_self

/-- A member is not found under another key. -/
theorem lookup_member_ne (omits : Omission) (place : Location) {key other : String} (v : Json)
    (isDefault : Bool) (h : key ≠ other) :
    (omits.member place key v isDefault).lookup other = none := by
  unfold Omission.member
  split
  · rfl
  · rw [lookup_cons_ne v [] h]
    rfl

/-- What a part of a field or an item is written as. -/
def partMembers (omits : Omission) (place : Location) (node : Node) : Part → List (String × Json)
  | .nothing => []
  | .value key => [(key, node.value)]
  | .elements key => [(key, node.value)]
  | .shape => [("typeDef", shapeObject omits (place.down .shape) node)]
  | .item => [("of", itemObject omits (place.down .item) node)]
  | .items => [("of", .arr (itemGroupObjects omits place node))]

theorem kindMembers_holding (omits : Omission) (place : Location) (tag : FieldTag) (part : Node) :
    kindMembers omits place (tag.holding part) = partMembers omits place part tag.part := by
  cases tag <;> rfl

theorem itemKindMembers_holding (omits : Omission) (place : Location) (tag : ItemTag)
    (part : Node) :
    itemKindMembers omits place (tag.holding part) = partMembers omits place part tag.part := by
  cases tag <;> rfl

end Dump

theorem FieldTag.tag_holding (tag : FieldTag) (part : Node) :
    (tag.holding part).tag? = some tag := by
  cases tag <;> rfl

theorem ItemTag.tag_holding (tag : ItemTag) (part : Node) : (tag.holding part).tag = tag := by
  cases tag <;> rfl

end ContentDecl
