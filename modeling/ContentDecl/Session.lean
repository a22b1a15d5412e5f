/-
# Working on a schema step by step

A session holds a schema, empty at first, and the options with which it is
rendered. A dump replaces the schema or is merged into it, single definitions
are put in, extended or removed, and options are replaced or set one by one. A
step that is refused has no result, so the session before it stays.

Key definitions: `Session`, `Session.read`, `Session.merge`, `Session.put`,
`Session.remove`, `Session.addField`, `Session.set`, `Session.render`.
-/
import ContentDecl.Dump.Basic
import ContentDecl.TypeScript.Module

namespace ContentDecl

/-- A schema and the options for it. -/
structure Session where
  schema : Schema := {}
  options : Options := {}
  deriving Inhabited

/-- The options that can be set one by one. -/
inductive Setting where
  | adapter
  | typeFieldName
  | banner
  deriving DecidableEq, Repr

/-- The definition with one more field, and how many it has then. -/
def Node.addField (definition node : Node) : Except Fault (Node × Nat) := do
  let fields ← match definition.fields? with
    | some (.group members) => .ok (members ++ [node])
    | some (.plain (.arr vs)) => .ok (vs.map Node.plain ++ [node])
    | _ => .error .missingAttribute
  let extended := match definition with
    | .shape _ => .shape (.group fields)
    | .document name _ computedFields description extensions =>
      .document name (.group fields) computedFields description extensions
    | .nestedType name _ description extensions =>
      .nestedType name (.group fields) description extensions
    | other => other
  return (extended, fields.length)

namespace Session

/-- The session with the schema of a dump. -/
def read (session : Session) (dump : Json) : Except Fault Session :=
  (fun schema => { session with schema }) <$> Dump.schema dump

/-- The session with the definitions of a dump put into its schema. -/
def merge (session : Session) (dump : Json) : Except Fault Session := do
  let other ← Dump.schema dump
  let schema := { documents := session.schema.documents.merge other.documents
                  nested := session.schema.nested.merge other.nested }
  return { session with schema }

/-- The session with a definition under a key. -/
def put (session : Session) (part : Section) (key : Json) (node : Node) :
    Except Fault Session :=
  if key.isKey then
    .ok { session with schema := session.schema.update part (·.put key node) }
  else .error .typeMismatch

/-- The definition under a key. -/
def find (session : Session) (part : Section) (key : Json) : Except Fault Node :=
  if key.isKey then
    match (session.schema.registry part).get? key with
    | some node => .ok node
    | none => .error .missingEntry
  else .error .typeMismatch

/-- The session without the definition under a key. -/
def remove (session : Session) (part : Section) (key : Json) : Except Fault Session := do
  let _ ← session.find part key
  return { session with schema := session.schema.update part (·.erase key) }

/-- The session with one more field in the definition under a key, and how
many it has then. -/
def addField (session : Session) (part : Section) (key : Json) (node : Node) :
    Except Fault (Session × Nat) := do
  let (extended, count) ← (← session.find part key).addField node
  let session ← session.put part key extended
  return (session, count)

/-- The session with other options. -/
def configure (session : Session) (value : Json) : Except Fault Session :=
  (fun options => { session with options }) <$> Options.ofJson value

/-- The session with one option changed to a value taken as it is. -/
def set (session : Session) (setting : Setting) (value : Json) : Session :=
  let options := match setting with
    | .adapter => { session.options with adapter := Adapter.ofValue value }
    | .typeFieldName => { session.options with fieldOptions := ⟨value⟩ }
    | .banner => { session.options with banner := value }
  { session with options }

/-- The module of the schema. -/
def render (session : Session) : Except Fault String :=
  TypeScript.moduleOf session.options session.schema

/-- The declaration of the definition under a key. -/
def renderType (session : Session) (part : Section) (key : Json) : Except Fault String := do
  TypeScript.declaration session.options (← session.find part key)

end Session
end ContentDecl
