/-
# What a kind takes from an object

An object that is read as a field or as an item has one part besides its type and
its head: a value, a value with elements, a shape, an item or several items. The
table of the fifteen kinds of fields and the six kinds of items says which, so
that reading an object is three things one after the other: the kind, the part of
this kind, the node. A type definition is read likewise: its fields, its computed
fields, its name.

Key definitions: `Part`, `FieldTag.part`, `ItemTag.part`, `readPart`.
Key theorems: `field_obj`, `item_obj`, `definition_obj`.
-/
import ContentDecl.Dump.Lemmas
import ContentDecl.Proofs.Result

namespace ContentDecl
namespace Dump

/-- The part of an object that a kind of field or item needs. -/
inductive Part where
  | nothing
  /-- A member of that name. -/
  | value (key : String)
  /-- A member of that name that has elements. -/
  | elements (key : String)
  | shape
  | item
  | items
  deriving DecidableEq

end Dump

open Dump (Part)

/-- What a kind of field needs. -/
def FieldTag.part : FieldTag → Part
  | nested => .value "nestedTypeName"
  | nestedPolymorphic => .elements "nestedTypeNames"
  | nestedUnnamed => .shape
  | reference => .value "documentTypeName"
  | referencePolymorphic => .elements "documentTypeNames"
  | list => .item
  | listPolymorphic => .items
  | enum => .elements "options"
  | _ => .nothing

/-- What a kind of item needs. -/
def ItemTag.part : ItemTag → Part
  | nested => .value "nestedTypeName"
  | enum => .elements "options"
  | nestedUnnamed => .shape
  | reference => .value "documentTypeName"
  | _ => .nothing

/-- The value that a node is. -/
def Node.value : Node → Json
  | .plain v => v
  | _ => .null

/-- The field of a kind with the given part. -/
def FieldTag.holding (tag : FieldTag) (part : Node) : FieldKind :=
  match tag with
  | boolean => .boolean
  | string => .string
  | number => .number
  | json => .json
  | date => .date
  | markdown => .markdown
  | mdx => .mdx
  | nested => .nested part.value
  | nestedPolymorphic => .nestedPolymorphic part.value
  | nestedUnnamed => .nestedUnnamed part
  | reference => .reference part.value
  | referencePolymorphic => .referencePolymorphic part.value
  | list => .list part
  | listPolymorphic => .listPolymorphic part
  | enum => .enum part.value

/-- The item of a kind with the given part. -/
def ItemTag.holding (tag : ItemTag) (part : Node) : ItemKind :=
  match tag with
  | boolean => .boolean
  | string => .string
  | nested => .nested part.value
  | enum => .enum part.value
  | nestedUnnamed => .nestedUnnamed part
  | reference => .reference part.value

namespace Dump

open Result

/-- The part of an object at a place. -/
def readPart (place : Location) (members : List (String × Json)) : Part → Except Fault Node
  | .nothing => .ok (.plain .null)
  | .value key => .plain <$> require place members key
  | .elements key => .plain <$> (require place members key >>= listOf)
  | .shape => shapeIn place members
  | .item => itemIn place members
  | .items => .group <$> itemsIn place members

/-- Reading an object as a field: its kind, then the part of the kind. -/
theorem field_obj (place : Location) (members : List (String × Json)) :
    field place (.obj members) = fieldTag place members >>= fun tag =>
      (fun part => .field (head members) (tag.holding part)) <$>
        readPart place members tag.part := by
  rw [field]
  cases fieldTag place members with
  | error fault => rfl
  | ok tag =>
    cases tag with
    | boolean | string | number | json | date | markdown | mdx => rfl
    | _ => simp [FieldTag.part, readPart, FieldTag.holding, Node.value, Functor.map_map]

/-- Reading an object as an item: its kind, then the part of the kind. -/
theorem item_obj (place : Location) (members : List (String × Json)) :
    item place (.obj members) = itemTag place members >>= fun tag =>
      (fun part => .item (tag.holding part)) <$> readPart place members tag.part := by
  rw [item]
  cases itemTag place members with
  | error fault => rfl
  | ok tag =>
    cases tag with
    | boolean | string => rfl
    | _ => simp [ItemTag.part, readPart, ItemTag.holding, Node.value, Functor.map_map]

theorem field_of_ne_obj (place : Location) {raw : Json} (h : ∀ members, raw ≠ .obj members) :
    field place raw = .error .missingAttribute := by
  cases raw with
  | obj members => exact absurd rfl (h members)
  | _ => rfl

theorem item_of_ne_obj (place : Location) {raw : Json} (h : ∀ members, raw ≠ .obj members) :
    item place raw = .error .missingAttribute := by
  cases raw with
  | obj members => exact absurd rfl (h members)
  | _ => rfl

/-- The computed fields of a type definition, which a nested type has none of. -/
def computedIn (part : Section) (place : Location) (members : List (String × Json)) :
    Except Fault (List Node) :=
  match part with
  | .documents => computedFields place members
  | .nested => .ok []

/-- The type definition of a section with the given fields. -/
def definitionNode (part : Section) (key : String) (members : List (String × Json))
    (found computed : List Node) : Node :=
  let name := effectiveName key members
  let description := Json.member members "description"
  let extensions := (Json.member members "extensions").orElse (.obj [])
  match part with
  | .documents => .document name (.group found) (.group computed) description extensions
  | .nested => .nestedType name (.group found) description extensions

/-- Reading an object as a type definition: its fields, its computed fields, its
name. -/
theorem definition_obj (part : Section) (key : String) (members : List (String × Json)) :
    definition part key (.obj members) = fieldsIn (.entry part key) members >>= fun found =>
      computedIn part (.entry part key) members >>= fun computed =>
        if (effectiveName key members).isKey then
          .ok (effectiveName key members, definitionNode part key members found computed)
        else .error .typeMismatch := by
  cases part <;> cases h : (effectiveName key members).isKey <;>
    simp [definition, computedIn, definitionNode, h, pure, Except.pure]

theorem definition_eq_ok {part : Section} {key : String} {members : List (String × Json)}
    {entry : Json × Node} :
    definition part key (.obj members) = .ok entry ↔
      ∃ found, fieldsIn (.entry part key) members = .ok found ∧
        ∃ computed, computedIn part (.entry part key) members = .ok computed ∧
          (effectiveName key members).isKey = true ∧
            (effectiveName key members, definitionNode part key members found computed) = entry := by
  cases h : (effectiveName key members).isKey <;> simp [definition_obj, bind_eq_ok, h]

end Dump
end ContentDecl
