/-
# Declarations of types

The declaration of a document type or a nested type is an object type with a
name. Its members are the identifier, the raw payload and the type field, which
holds the type's own name as a literal; then the declared fields, and for a
document type the computed ones. A declared field with the name of the type
field gives way to it; a computed field must not have this name.

The declaration may start with a comment: the type's description, or for a
document type without one the label that its extensions give it.

Key definitions: `extensionLabel`, `declarationLines`, `declaration`.
-/
import ContentDecl.Model.Schema
import ContentDecl.Options
import ContentDecl.TypeScript.FieldType

namespace ContentDecl
namespace TypeScript

/-- The members of a value that has to be an object; an absent one has none. -/
def membersOf (v : Json) : Except Fault (List (String × Json)) :=
  match v.orElse (.obj []) with
  | .obj members => .ok members
  | _ => .error .missingAttribute

/-- The member whose name is the given value, or null. -/
def memberAt (members : List (String × Json)) (key : Json) : Except Fault Json :=
  if !key.isKey then .error .typeMismatch
  else match key with
    | .str name => .ok (Json.member members name)
    | _ => .ok .null

/-- The label of a type under `stackbit.fields` of the extensions. -/
def extensionLabel (extensions typeName : Json) : Except Fault Json := do
  let outer ← match extensions with
    | .obj members => .ok members
    | _ => .error .missingAttribute
  let stackbit ← membersOf (Json.member outer "stackbit")
  let fields ← membersOf (Json.member stackbit "fields")
  let entry ← memberAt fields typeName
  let settings ← membersOf entry
  return Json.member settings "label"

/-- The lines of the declared fields, without those named like the type
field. -/
def declaredLines (typeField : Json) : List Node → Except Fault (List String)
  | [] => .ok []
  | node :: rest =>
    match node.name? with
    | none => .error .missingAttribute
    | some name =>
      if name.equals typeField then declaredLines typeField rest
      else do
        let line ← fieldLine node
        let lines ← declaredLines typeField rest
        return line :: lines

/-- The line of a computed field of a type. -/
def computedLine (typeField typeName : Json) (node : Node) : Except Fault String :=
  match node.name? with
  | none => .error .missingAttribute
  | some name =>
    if name.equals typeField then .error (.reservedName name typeName)
    else match node.description?, node.kind? with
      | some description, some type =>
        .ok (comment description indent ++ indent ++ name.text ++ ": " ++ type.text)
      | _, _ => .error .missingAttribute

/-- The nodes of a list, or what a value consists of. -/
def nodesOf (node : Node) : Except Fault (List Node) :=
  match node.members? with
  | some nodes => .ok nodes
  | none => .error .typeMismatch

/-- The lines of a definition's members behind the type field. -/
def declarationLines (typeField : Json) (node : Node) : Except Fault (List String) := do
  let fields ← match node.fields? with
    | some fields => nodesOf fields
    | none => .error .missingAttribute
  let declared ← declaredLines typeField fields
  match node with
  | .document name _ computedFields _ _ => do
    let computed ← (← nodesOf computedFields).mapM (computedLine typeField name)
    return declared ++ computed
  | _ => return declared

/-- What the comment before a definition says. -/
def definitionComment (node : Node) : Except Fault Json :=
  match node with
  | .document name _ _ description extensions =>
    if description.isTrue then .ok description else extensionLabel extensions name
  | .nestedType _ _ description _ => .ok description
  | _ => .error .missingAttribute

/-- The declaration of a type with the given members behind the type field. -/
def declarationText (description name : Json) (options : Options) (lines : List String) : String :=
  comment description "" ++ "export type " ++ name.text ++ " = \x7b\n"
    ++ "  /** " ++ options.adapter.wording.idComment ++ " */\n"
    ++ "  _id: string\n"
    ++ "  _raw: " ++ options.adapter.wording.rawType ++ "\n"
    ++ "  " ++ options.typeFieldName.text ++ ": '" ++ name.text ++ "'\n"
    ++ String.join (lines.map (· ++ "\n"))
    ++ "\x7d"

/-- The declaration of a document type or nested type. -/
def declaration (options : Options) (node : Node) : Except Fault String := do
  let lines ← declarationLines options.typeFieldName node
  let description ← definitionComment node
  return declarationText description (node.name?.getD .null) options lines

end TypeScript
end ContentDecl
