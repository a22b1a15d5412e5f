/-
# Reading a content model from a dump

A dump is an object with a map of document types and a map of nested types. An
entry's own name, if it has one, is its key in the model, else its key in the
map. Members without a meaning here are ignored, and what is not needed to
build the nodes is not checked: names, descriptions, options and extensions are
taken over as they are.

Reading goes from left to right and inwards, and stops at the first defect. A
value of a kind that cannot even be asked for its members stops it too, without
a place.

Key definitions: `Dump.field`, `Dump.item`, `Dump.fieldsIn`, `Dump.definition`,
`Dump.schema`.
-/
import ContentDecl.Model.Schema

namespace ContentDecl
namespace Dump

/-- The member that a kind requires. -/
def require (place : Location) (members : List (String × Json)) (key : String) :
    Except Fault Json :=
  match members.lookup key with
  | some v => .ok v
  | none => .error (.defect place (.missing key))

/-- The elements of a value as a list of its own. -/
def listOf (v : Json) : Except Fault Json :=
  match v.elements? with
  | some vs => .ok (.arr vs)
  | none => .error .typeMismatch

/-- What the elements of a value other than an array give where objects are
needed: nothing if it has none, for none of them is an object. -/
def noObjects (v : Json) : Except Fault (List Node) :=
  match v.elements? with
  | some [] => .ok []
  | some (_ :: _) => .error .missingAttribute
  | none => .error .typeMismatch

/-- The head of a field. -/
def head (members : List (String × Json)) : Head :=
  { name := (members.lookup "name").getD (.str "")
    isRequired := .bool (Json.member members "isRequired").isTrue
    description := Json.member members "description" }

/-- The kind of field an object says it is of. -/
def fieldTag (place : Location) (members : List (String × Json)) : Except Fault FieldTag :=
  match Json.member members "type" with
  | .null => .error (.defect place .noFieldType)
  | .str word => match FieldTag.ofText? word with
    | some tag => .ok tag
    | none => .error (.defect place (.unknownFieldType (.str word)))
  | type =>
    if type.isKey then .error (.defect place (.unknownFieldType type)) else .error .typeMismatch

/-- The kind of item an object says it is of. -/
def itemTag (place : Location) (members : List (String × Json)) : Except Fault ItemTag :=
  match Json.member members "type" with
  | .str word => match ItemTag.ofText? word with
    | some tag => .ok tag
    | none => .error (.defect place (.unsupportedItemType (.str word)))
  | type => .error (.defect place (.unsupportedItemType type))

mutual

/-- A field definition. -/
def field (place : Location) : Json → Except Fault Node
  | .obj members => do
    let kind ← match ← fieldTag place members with
      | .boolean => pure .boolean
      | .string => pure .string
      | .number => pure .number
      | .json => pure .json
      | .date => pure .date
      | .markdown => pure .markdown
      | .mdx => pure .mdx
      | .nested => .nested <$> require place members "nestedTypeName"
      | .nestedPolymorphic =>
        .nestedPolymorphic <$> (require place members "nestedTypeNames" >>= listOf)
      | .nestedUnnamed => .nestedUnnamed <$> shapeIn place members
      | .reference => .reference <$> require place members "documentTypeName"
      | .referencePolymorphic =>
        .referencePolymorphic <$> (require place members "documentTypeNames" >>= listOf)
      | .list => .list <$> itemIn place members
      | .listPolymorphic => (.listPolymorphic ∘ .group) <$> itemsIn place members
      | .enum => .enum <$> (require place members "options" >>= listOf)
    return .field (head members) kind
  | _ => .error .missingAttribute

/-- The item definition of a list field. -/
def item (place : Location) : Json → Except Fault Node
  | .obj members => do
    let kind ← match ← itemTag place members with
      | .boolean => pure .boolean
      | .string => pure .string
      | .nested => .nested <$> require place members "nestedTypeName"
      | .enum => .enum <$> (require place members "options" >>= listOf)
      | .nestedUnnamed => .nestedUnnamed <$> shapeIn place members
      | .reference => .reference <$> require place members "documentTypeName"
    return .item kind
  | _ => .error .missingAttribute

/-- The item that a list field holds. -/
def itemIn (place : Location) : List (String × Json) → Except Fault Node
  | [] => .error (.defect place (.missing "of"))
  | (key, raw) :: rest =>
    if key == "of" then item (place.down .item) raw else itemIn place rest

/-- The items that a list field with several kinds holds. -/
def itemsIn (place : Location) : List (String × Json) → Except Fault (List Node)
  | [] => .error (.defect place (.missing "of"))
  | (key, raw) :: rest =>
    if key == "of" then
      match raw with
      | .arr raws => itemsFrom place 0 raws
      | raw => noObjects raw
    else itemsIn place rest

/-- The items of a list, from the given index on. -/
def itemsFrom (place : Location) (index : Nat) : List Json → Except Fault (List Node)
  | [] => .ok []
  | raw :: rest => do
    let node ← item (place.down (.itemAt index)) raw
    let nodes ← itemsFrom place (index + 1) rest
    return node :: nodes

/-- The shape that a field or an item of a type without a name holds. -/
def shapeIn (place : Location) : List (String × Json) → Except Fault Node
  | [] => .error (.defect place (.missing "typeDef"))
  | (key, raw) :: rest =>
    if key == "typeDef" then
      match raw with
      | .obj type => (.shape ∘ .group) <$> fieldsIn (place.down .shape) type
      | _ => .error .missingAttribute
    else shapeIn place rest

/-- The field definitions that a type holds; an absent list has none. -/
def fieldsIn (place : Location) : List (String × Json) → Except Fault (List Node)
  | [] => .ok []
  | (key, raw) :: rest =>
    if key == "fieldDefs" then
      match raw with
      | .arr raws => fieldsFrom place 0 raws
      | raw => if raw.isTrue then noObjects raw else .ok []
    else fieldsIn place rest

/-- Field definitions from the given index on. -/
def fieldsFrom (place : Location) (index : Nat) : List Json → Except Fault (List Node)
  | [] => .ok []
  | raw :: rest => do
    let node ← field (place.down (.field index)) raw
    let nodes ← fieldsFrom place (index + 1) rest
    return node :: nodes

end

/-- A computed field, which has to have a name and a type. -/
def computedField (place : Location) (raw : Json) : Except Fault Node :=
  match raw.contains? "name", raw.contains? "type" with
  | some true, some true => match raw with
    | .obj members =>
      .ok (.computed (Json.member members "name") (Json.member members "type")
        (Json.member members "description"))
    | _ => .error .typeMismatch
  | some _, _ => .error (.defect place .incompleteComputedField)
  | none, _ => .error .typeMismatch

/-- Computed fields from the given index on. -/
def computedFrom (place : Location) (index : Nat) : List Json → Except Fault (List Node)
  | [] => .ok []
  | raw :: rest => do
    let node ← computedField (place.down (.computed index)) raw
    let nodes ← computedFrom place (index + 1) rest
    return node :: nodes

/-- The computed fields of a document type. -/
def computedFields (place : Location) (members : List (String × Json)) :
    Except Fault (List Node) :=
  match (Json.member members "computedFields").orElse (.arr []) |>.elements? with
  | some raws => computedFrom place 0 raws
  | none => .error .typeMismatch

/-- The name of an entry: its own if it has one, null included. -/
def effectiveName (key : String) (members : List (String × Json)) : Json :=
  (members.lookup "name").getD (.str key)

/-- A type definition of a section under its name. -/
def definition (part : Section) (key : String) : Json → Except Fault (Json × Node)
  | .obj members => do
    let place := Location.entry part key
    let name := effectiveName key members
    let found ← fieldsIn place members
    let computed ← match part with
      | .documents => computedFields place members
      | .nested => .ok []
    let description := Json.member members "description"
    let extensions := (Json.member members "extensions").orElse (.obj [])
    if !name.isKey then .error .typeMismatch
    else match part with
      | .documents =>
        return (name, .document name (.group found) (.group computed) description extensions)
      | .nested => return (name, .nestedType name (.group found) description extensions)
  | _ => .error .missingAttribute

/-- The entries of a map, put into a registry one after the other. -/
def entries (part : Section) : Registry → List (String × Json) → Except Fault Registry
  | registry, [] => .ok registry
  | registry, (key, raw) :: rest => do
    let (name, node) ← definition part key raw
    entries part (registry.put name node) rest

/-- One of the maps of a dump; an absent one is empty. -/
def section? (part : Section) (members : List (String × Json)) : Except Fault Registry :=
  match (Json.member members (sectionKey part)).orElse (.obj []) with
  | .obj found => entries part [] found
  | _ => .error .missingAttribute

/-- The schema of a dump. -/
def schema : Json → Except Fault Schema
  | .obj members => do
    let documents ← section? .documents members
    let nested ← section? .nested members
    return { documents, nested }
  | _ => .error .missingAttribute

end Dump
end ContentDecl
