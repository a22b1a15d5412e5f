/-
# Modules of declarations

A module declares all document types and all nested types of a schema, each
kind in ascending order of the names, and lists them: as members of a map, as a
union of the types and as a union of the names. An empty list is the type
without values.

Key definitions: `byName`, `Declarations`, `Declarations.ofSchema`,
`Declarations.moduleText`, `moduleOf`.
-/
import ContentDecl.Sorting.Sort
import ContentDecl.TypeScript.Declaration

namespace ContentDecl
namespace TypeScript

/-- A definition with its name. -/
def named (node : Node) : Except Fault (Json × Node) :=
  match node.name? with
  | some name => .ok (name, node)
  | none => .error .missingAttribute

/-- Definitions in ascending order of their names, those of equal names in the
order given. Names that are texts can always be sorted. Among others there may
be some that have no order, which stops the sorting if they are compared, and
some that have no place in it. -/
def byName (entries : List (Json × Node)) : Except Fault (List (Json × Node)) :=
  if entries.all fun entry => entry.1.isText then
    .ok (entries.mergeSort fun a b => !(b.1.less? a.1 == some true))
  else match Sorting.sort? (fun a b => a.1.less? b.1) entries with
    | some sorted => .ok sorted
    | none => .error .typeMismatch

/-- The name of a type and its declaration. -/
structure Declared where
  name : Json
  declaration : String

/-- The declarations of definitions, in the order of their names. -/
def declareAll (options : Options) (nodes : List Node) : Except Fault (List Declared) := do
  let entries ← byName (← nodes.mapM named)
  entries.mapM fun entry => Declared.mk entry.1 <$> declaration options entry.2

/-- The declarations of a schema. -/
structure Declarations where
  documents : List Declared
  nested : List Declared

/-- The declarations of document types first, then those of nested types. -/
def Declarations.ofSchema (options : Options) (schema : Schema) : Except Fault Declarations := do
  let documents ← declareAll options schema.documents.definitions
  let nested ← declareAll options schema.nested.definitions
  return { documents, nested }

/-- The first lines of a module that is not meant to be edited. -/
def banner : String :=
  "// NOTE This file is auto-generated by content_schema_to_ts. Do not edit it manually.\n\n"

/-- What follows the imports of every module. -/
def preamble : String :=
  "\nexport \x7b isType \x7d from 'contentlayer/client'\n"
    ++ "\nexport type \x7b Markdown, MDX \x7d\n"
    ++ "\nexport interface ContentlayerGenTypes \x7b\n"
    ++ "  documentTypes: DocumentTypes\n"
    ++ "  documentTypeMap: DocumentTypeMap\n"
    ++ "  documentTypeNames: DocumentTypeNames\n"
    ++ "  nestedTypes: NestedTypes\n"
    ++ "  nestedTypeMap: NestedTypeMap\n"
    ++ "  nestedTypeNames: NestedTypeNames\n"
    ++ "  allTypeNames: AllTypeNames\n"
    ++ "\x7d\n"

/-- A map from the names of types to the types. -/
def mapText (title : String) (names : List String) : String :=
  "\nexport type " ++ title ++ " = \x7b\n"
    ++ String.join (names.map fun name => "  " ++ name ++ ": " ++ name ++ "\n")
    ++ "\x7d\n"

/-- The union of some types, or the type without values. -/
def unionText (types : List String) : String := if types.isEmpty then never else union types

/-- The union of the types and the union of their names. -/
def unionsText (typesTitle namesTitle : String) (names : List String) : String :=
  "\nexport type " ++ typesTitle ++ " = " ++ unionText names ++ "\n"
    ++ "export type " ++ namesTitle ++ " = " ++ unionText (names.map literal) ++ "\n"

/-- The declarations under a heading, with one blank line between them. -/
def declarationsText (title : String) (declarations : List String) : String :=
  "\n/** " ++ title ++ " */\n"
    ++ (if declarations.isEmpty then "" else String.intercalate "\n\n" declarations ++ "\n")

/-- A module, from the names and the declarations of its types. -/
def moduleText (options : Options) (documentNames nestedNames : List String)
    (documents nested : List String) : String :=
  (if options.banner.isTrue then banner else "")
    ++ "import type \x7b Markdown, MDX \x7d from 'contentlayer/core'\n"
    ++ options.adapter.wording.importLine?.elim "" (· ++ "\n")
    ++ preamble
    ++ mapText "DocumentTypeMap" documentNames
    ++ mapText "NestedTypeMap" nestedNames
    ++ "\nexport type AllTypes = DocumentTypes | NestedTypes\n"
    ++ "export type AllTypeNames = DocumentTypeNames | NestedTypeNames\n"
    ++ unionsText "DocumentTypes" "DocumentTypeNames" documentNames
    ++ unionsText "NestedTypes" "NestedTypeNames" nestedNames
    ++ declarationsText "Document types" documents
    ++ declarationsText "Nested types" nested

/-- The names of types, which have to be texts to be listed. -/
def namesOf (declared : List Declared) : Except Fault (List String) :=
  declared.mapM fun type => asText type.name

/-- The module that lists the declarations. -/
def Declarations.moduleText (options : Options) (declarations : Declarations) :
    Except Fault String := do
  let documentNames ← namesOf declarations.documents
  let nestedNames ← namesOf declarations.nested
  return TypeScript.moduleText options documentNames nestedNames
    (declarations.documents.map (·.declaration)) (declarations.nested.map (·.declaration))

/-- The module of a schema. -/
def moduleOf (options : Options) (schema : Schema) : Except Fault String := do
  let declarations ← Declarations.ofSchema options schema
  declarations.moduleText options

end TypeScript
end ContentDecl
