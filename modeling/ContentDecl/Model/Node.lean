/-
# Nodes of a content model

A content model is made of nodes: type definitions, their fields, the items of
list fields, and the unnamed shapes that stand inside fields and items. A model
read from a dump has each kind of node only where it belongs. A model built by
hand may have anything anywhere, so every place that should hold a node, or a
list of nodes, holds a `Node`, and a plain value or a list is a node too. Names,
descriptions and other leaves are values of any kind.

A field carries the same head whatever its kind. `FieldKind.bare` is a field
whose kind was never chosen, and `Node.foreign` is a node of an unknown class
with the head of a field and possibly a kind of its own.

Key definitions: `Head`, `Node`, `FieldKind`, `ItemKind`, `Node.className`,
`Node.name?`, `Node.kind?`, `Node.fields?`.
-/
import ContentDecl.Fault
import ContentDecl.Model.Tag

namespace ContentDecl

/-- What every field carries. -/
structure Head where
  name : Json := .str ""
  isRequired : Json := .bool false
  description : Json := .null
  deriving Repr, Inhabited

mutual

/-- A node of a content model, or a value in the place of one. -/
inductive Node where
  /-- A value that is no node. -/
  | plain (value : Json)
  /-- A list of nodes. -/
  | group (members : List Node)
  | field (head : Head) (kind : FieldKind)
  | item (kind : ItemKind)
  /-- A type without a name, with its fields. -/
  | shape (fields : Node)
  /-- A field whose type expression is given as it is. -/
  | computed (name type description : Json)
  | document (name : Json) (fields computedFields : Node) (description extensions : Json)
  | nestedType (name : Json) (fields : Node) (description extensions : Json)
  /-- A whole schema, which has none of the attributes of a node. -/
  | schema (documents nested : Json)
  /-- A node of an unknown class. -/
  | foreign (className : String) (kind : Option Json) (head : Head)

/-- What a field holds. -/
inductive FieldKind where
  /-- No kind was chosen. -/
  | bare
  | boolean
  | string
  | number
  | json
  | date
  | markdown
  | mdx
  | nested (typeName : Json)
  | nestedPolymorphic (typeNames : Json)
  | nestedUnnamed (type : Node)
  | reference (typeName : Json)
  | referencePolymorphic (typeNames : Json)
  | list (item : Node)
  | listPolymorphic (items : Node)
  | enum (options : Json)

/-- What an item of a list holds. -/
inductive ItemKind where
  | boolean
  | string
  | nested (typeName : Json)
  | enum (options : Json)
  | nestedUnnamed (type : Node)
  | reference (typeName : Json)

end

instance : Inhabited Node := ⟨.plain .null⟩

/-- The name of a field's kind. -/
def FieldKind.tag? : FieldKind → Option FieldTag
  | bare => none
  | boolean => some .boolean
  | string => some .string
  | number => some .number
  | json => some .json
  | date => some .date
  | markdown => some .markdown
  | mdx => some .mdx
  | nested _ => some .nested
  | nestedPolymorphic _ => some .nestedPolymorphic
  | nestedUnnamed _ => some .nestedUnnamed
  | reference _ => some .reference
  | referencePolymorphic _ => some .referencePolymorphic
  | list _ => some .list
  | listPolymorphic _ => some .listPolymorphic
  | enum _ => some .enum

/-- The class of a field in messages. -/
def FieldKind.className : FieldKind → String
  | bare => "FieldDefBase"
  | boolean => "BooleanFieldDef"
  | string => "StringFieldDef"
  | number => "NumberFieldDef"
  | json => "JsonFieldDef"
  | date => "DateFieldDef"
  | markdown => "MarkdownFieldDef"
  | mdx => "MdxFieldDef"
  | nested _ => "NestedFieldDef"
  | nestedPolymorphic _ => "NestedPolymorphicFieldDef"
  | nestedUnnamed _ => "NestedUnnamedFieldDef"
  | reference _ => "ReferenceFieldDef"
  | referencePolymorphic _ => "ReferencePolymorphicFieldDef"
  | list _ => "ListFieldDef"
  | listPolymorphic _ => "ListPolymorphicFieldDef"
  | enum _ => "EnumFieldDef"

/-- The name of an item's kind. -/
def ItemKind.tag : ItemKind → ItemTag
  | boolean => .boolean
  | string => .string
  | nested _ => .nested
  | enum _ => .enum
  | nestedUnnamed _ => .nestedUnnamed
  | reference _ => .reference

/-- The class of an item in messages. -/
def ItemKind.className : ItemKind → String
  | boolean => "ListItemBoolean"
  | string => "ListItemString"
  | nested _ => "ListItemNested"
  | enum _ => "ListItemEnum"
  | nestedUnnamed _ => "ListItemNestedUnnamed"
  | reference _ => "ListItemReference"

namespace Node

/-- The class of a node in messages. -/
def className : Node → String
  | plain v => v.kindName
  | group _ => "list"
  | field _ kind => kind.className
  | item kind => kind.className
  | shape _ => "NestedUnnamedTypeDef"
  | computed _ _ _ => "ComputedField"
  | document _ _ _ _ _ => "DocumentTypeDef"
  | nestedType _ _ _ _ => "NestedTypeDef"
  | schema _ _ => "SchemaDef"
  | foreign className _ _ => className

/-- The kind a node says it is of. -/
def kind? : Node → Option Json
  | field _ kind => some (.str (kind.tag?.elim "" FieldTag.text))
  | item kind => some (.str kind.tag.text)
  | computed _ type _ => some type
  | foreign _ kind _ => kind
  | _ => none

def name? : Node → Option Json
  | field head _ => some head.name
  | computed name _ _ => some name
  | document name _ _ _ _ => some name
  | nestedType name _ _ _ => some name
  | foreign _ _ head => some head.name
  | _ => none

def description? : Node → Option Json
  | field head _ => some head.description
  | computed _ _ description => some description
  | document _ _ _ description _ => some description
  | nestedType _ _ description _ => some description
  | foreign _ _ head => some head.description
  | _ => none

/-- The declared fields of a type. -/
def fields? : Node → Option Node
  | shape fields => some fields
  | document _ fields _ _ _ => some fields
  | nestedType _ fields _ _ => some fields
  | _ => none

/-- The members of a list, or the elements of a value that has some. -/
def members? : Node → Option (List Node)
  | group members => some members
  | plain v => v.elements?.map fun vs => vs.map plain
  | _ => none

/-- The fault of a node that no rule gives a type expression. -/
def unhandled (node : Node) : Fault :=
  .unhandledKind (node.kind?.elim node.className Json.text) node.className

end Node
end ContentDecl
