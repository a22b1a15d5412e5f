/-
# Faults

Everything that can stop an operation, by its cause. The faults of a schema
(an unreadable dump, a kind of field that has no type expression, a reserved
name) come with a message; the others say only what a value, a table or a file
did not allow.

Key definitions: `Fault`, `Fault.message?`.
-/
import ContentDecl.Dump.Location
import ContentDecl.Files.Failure
import ContentDecl.Json.Decode

namespace ContentDecl

/-- Why an operation stops. -/
inductive Fault where
  /-- The dump is unreadable at a place. -/
  | defect (place : Dump.Location) (wrong : Dump.Defect)
  /-- The file of the dump is no JSON. -/
  | notJson (path : String) (problem : Json.Problem) (position : Json.Position)
  /-- The file of the dump is JSON, but no object. -/
  | notObject (path : String)
  /-- A node has no type expression; its kind and its class are named. -/
  | unhandledKind (kind : String) (className : String)
  /-- A computed field has the name of the type field. -/
  | reservedName (field : Json) (type : Json)
  /-- A value lacks an attribute that is asked of it. -/
  | missingAttribute
  /-- A value is of a kind that the operation does not take. -/
  | typeMismatch
  /-- A table has no entry of that name. -/
  | missingEntry
  /-- A number has too many digits, or a path holds a null character. -/
  | invalidValue
  /-- Bytes are no UTF-8, or a text has half of a surrogate pair, which UTF-8 does not hold. -/
  | invalidEncoding
  /-- The settings file is no JSON. -/
  | invalidSettings
  /-- A file operation is refused. -/
  | file (failure : Files.Failure)
  deriving Repr

namespace Fault

/-- A fault of the dump: the place and what is wrong there. -/
def isLoadFault : Fault → Bool
  | defect _ _ => true
  | notJson _ _ _ => true
  | notObject _ => true
  | _ => false

/-- The message of a fault of the schema. -/
def message? : Fault → Option String
  | defect place wrong => some (place.text ++ ": " ++ wrong.text)
  | notJson path problem position =>
    some (path ++ ": invalid JSON: " ++ Json.malformedMessage problem position)
  | notObject path => some (path ++ ": expected a JSON object at the top level")
  | unhandledKind kind className =>
    some ("Unhandled field kind '" ++ kind ++ "' (" ++ className ++ ")")
  | reservedName field type =>
    some ("Computed field '" ++ field.text ++ "' of '" ++ type.text
      ++ "' collides with the type field name")
  | _ => none

end Fault
end ContentDecl
