/-
# Source adapters

A schema comes from one of four sources. The source decides the wording of the
comment on identifiers, the type of the raw payload, and the import that brings
this type into scope. Any other name is the unknown source.

Key definitions: `Adapter`, `Adapter.ofValue`, `Adapter.ofKey`,
`Adapter.wording`.
-/
import ContentDecl.Json.Compare
import ContentDecl.Fault

namespace ContentDecl

/-- Where a schema comes from. -/
inductive Adapter where
  | localFiles
  | contentful
  | sanity
  | unknown
  deriving DecidableEq, Repr, Inhabited

/-- What an adapter contributes to a module. -/
structure AdapterWording where
  idComment : String
  rawType : String
  importLine? : Option String
  deriving DecidableEq, Repr

namespace Adapter

def all : List Adapter := [localFiles, contentful, sanity, unknown]

def name : Adapter → String
  | localFiles => "local"
  | contentful => "contentful"
  | sanity => "sanity"
  | unknown => "unknown"

def ofName? (s : String) : Option Adapter := all.find? fun adapter => adapter.name == s

theorem ofName?_name (adapter : Adapter) : ofName? adapter.name = some adapter := by
  cases adapter <;> decide

/-- The adapter a value names; whatever is no name is the unknown source. -/
def ofValue : Json → Adapter
  | .str s => (ofName? s).getD unknown
  | _ => unknown

/-- The adapter a value names as the key of a table, which arrays and objects
cannot be. -/
def ofKey (v : Json) : Except Fault Adapter :=
  if v.isKey then .ok (ofValue v) else .error .typeMismatch

/-- The type of a raw payload about which nothing is known. -/
def openRawType : String := "Record<string, any>"

/-- What each adapter contributes. -/
def wording : Adapter → AdapterWording
  | localFiles =>
    { idComment := "File path relative to `contentDirPath`"
      rawType := "Local.RawDocumentData"
      importLine? := some "import * as Local from 'contentlayer/source-files'" }
  | contentful =>
    { idComment := "Contentful object id"
      rawType := "Contentful.RawDocumentData"
      importLine? := some "import * as Contentful from '@contentlayer/source-contentful'" }
  | sanity => { idComment := "Sanity object id", rawType := openRawType, importLine? := none }
  | unknown => { idComment := "ID", rawType := openRawType, importLine? := none }

end Adapter
end ContentDecl
