/-
# Schemas

A schema has two registries, one of document types and one of nested types. A
registry keeps its entries in the order in which their keys first came. An
entry whose key agrees with one that is there keeps that key and its place and
replaces the definition.

Key definitions: `Registry`, `Registry.put`, `Schema`.
-/
import ContentDecl.Json.Compare
import ContentDecl.Model.Node

namespace ContentDecl

/-- Type definitions by key, in order of first appearance. -/
abbrev Registry := List (Json × Node)

namespace Registry

/-- The definition of an agreeing key. -/
def get? (registry : Registry) (key : Json) : Option Node :=
  (registry.find? fun entry => entry.1.agrees key).map (·.2)

/-- The registry with a definition under a key. -/
def put (registry : Registry) (key : Json) (node : Node) : Registry :=
  match registry with
  | [] => [(key, node)]
  | entry :: rest =>
    if entry.1.agrees key then (entry.1, node) :: rest else entry :: put rest key node

/-- The registry with all entries of another one put into it, in order. -/
def merge (registry other : Registry) : Registry :=
  other.foldl (fun found entry => put found entry.1 entry.2) registry

/-- The registry without an agreeing key. -/
def erase (registry : Registry) (key : Json) : Registry :=
  registry.eraseP fun entry => entry.1.agrees key

def keys (registry : Registry) : List Json := registry.map (·.1)

def definitions (registry : Registry) : List Node := registry.map (·.2)

end Registry

/-- A content model: its document types and its nested types. -/
structure Schema where
  documents : Registry := []
  nested : Registry := []
  deriving Inhabited

namespace Schema

def registry (schema : Schema) : Section → Registry
  | .documents => schema.documents
  | .nested => schema.nested

/-- The schema with one registry changed. -/
def update (schema : Schema) (part : Section) (change : Registry → Registry) : Schema :=
  match part with
  | .documents => { schema with documents := change schema.documents }
  | .nested => { schema with nested := change schema.nested }

end Schema
end ContentDecl
