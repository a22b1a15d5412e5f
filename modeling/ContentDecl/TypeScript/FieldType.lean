/-
# Type expressions of fields

Every kind of field and of list item has a type expression. A boolean, a text
and a number are themselves, dates are texts, and of a referenced document only
the identifier is kept. A named type is its name. A list is its item type
followed by brackets, a union in it between parentheses. A shape without a name
is an object type with one member a line.

A member that is not required may also be undefined. A node that is not of one
of these kinds in the place of a field or of an item has no type expression,
and a value in its place cannot even be asked for one.

Key definitions: `fieldType`, `itemType`, `shapeType`, `fieldLine`.
-/
import ContentDecl.Model.Node
import ContentDecl.TypeScript.Text

namespace ContentDecl
namespace TypeScript

/-- A list of a type. -/
def listType (type : Json) : Except Fault String := (· ++ "[]") <$> asText type

/-- A list of several types. -/
def polymorphicListType (types : Json) : Except Fault String :=
  (fun s => parenthesized s ++ "[]") <$> unionOf types

/-- A member of an object type: its comment, its name and its type. -/
def memberLine (head : Head) (type : Json) : String :=
  comment head.description indent ++ indent ++ head.name.text ++ ": " ++ type.text
    ++ (if head.isRequired.isTrue then "" else " | undefined")

/-- An object type with the given lines. -/
def objectType (lines : List String) : String :=
  "\x7b\n" ++ String.intercalate "\n" lines ++ "\n\x7d"

/-- What the elements of a plain value give in the place of fields: nothing if
it has none, for none of them is a field. -/
def noFields (v : Json) : Except Fault (List String) :=
  match v.elements? with
  | some [] => .ok []
  | some (_ :: _) => .error .missingAttribute
  | none => .error .typeMismatch

/-- What the elements of a plain value give in the place of items. -/
def noItems (v : Json) : Except Fault (List Json) :=
  match v.elements? with
  | some [] => .ok []
  | some (element :: _) => .error (Node.plain element).unhandled
  | none => .error .typeMismatch

mutual

/-- The type expression of a kind of field. -/
def kindType : FieldKind → Except Fault Json
  | .bare => .error (Node.field {} .bare).unhandled
  | .boolean => .ok (.str "boolean")
  | .string => .ok (.str "string")
  | .number => .ok (.str "number")
  | .json => .ok (.str "any")
  | .date => .ok (.str "string")
  | .markdown => .ok (.str "Markdown")
  | .mdx => .ok (.str "MDX")
  | .nested typeName => .ok typeName
  | .nestedPolymorphic typeNames => .str <$> unionOf typeNames
  | .nestedUnnamed type => .str <$> shapeType type
  | .reference _ => .ok (.str "string")
  | .referencePolymorphic _ => .ok (.str "string")
  | .list node => itemType node >>= fun type => .str <$> listType type
  | .listPolymorphic items =>
    itemTypes items >>= fun types => .str <$> polymorphicListType (.arr types)
  | .enum options => (fun literals => .str (union literals)) <$> literalsOf options

/-- The type expression of a node in the place of an item. -/
def itemType : Node → Except Fault Json
  | .item kind => itemKindType kind
  | node => .error node.unhandled

/-- The type expression of a kind of item. -/
def itemKindType : ItemKind → Except Fault Json
  | .boolean => .ok (.str "boolean")
  | .string => .ok (.str "string")
  | .nested typeName => .ok typeName
  | .enum options => (fun literals => .str (parenthesized (union literals))) <$> literalsOf options
  | .nestedUnnamed type => .str <$> shapeType type
  | .reference _ => .ok (.str "string")

/-- The type expressions of what stands in the place of a list of items. -/
def itemTypes : Node → Except Fault (List Json)
  | .group members => itemTypesOf members
  | .plain v => noItems v
  | _ => .error .typeMismatch

def itemTypesOf : List Node → Except Fault (List Json)
  | [] => .ok []
  | node :: rest => do
    let type ← itemType node
    let types ← itemTypesOf rest
    return type :: types

/-- The object type of a node that has fields. -/
def shapeType : Node → Except Fault String
  | .shape fields => objectType <$> fieldLines fields
  | .document _ fields _ _ _ => objectType <$> fieldLines fields
  | .nestedType _ fields _ _ => objectType <$> fieldLines fields
  | _ => .error .missingAttribute

/-- The lines of what stands in the place of a list of fields. -/
def fieldLines : Node → Except Fault (List String)
  | .group members => fieldLinesOf members
  | .plain v => noFields v
  | _ => .error .typeMismatch

def fieldLinesOf : List Node → Except Fault (List String)
  | [] => .ok []
  | node :: rest => do
    let line ← fieldLine node
    let lines ← fieldLinesOf rest
    return line :: lines

/-- The line of a node in the place of a field. A node without the head of a
field fails before its type is asked for. -/
def fieldLine : Node → Except Fault String
  | .field head kind => memberLine head <$> kindType kind
  | .foreign className kind head => .error (Node.foreign className kind head).unhandled
  | _ => .error .missingAttribute

end

/-- The type expression of a node in the place of a field. -/
def fieldType : Node → Except Fault Json
  | .field _ kind => kindType kind
  | node => .error node.unhandled

end TypeScript
end ContentDecl
