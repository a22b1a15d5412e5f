/-
# Options

Options say where the schema comes from, which field holds the name of the
type, and whether the module starts with a banner. They are read from an object
in which each key has two spellings, of which the one with underscores goes
first, and which may have other members; they are written with the first
spelling.

The name of the type field and the banner setting may be any value. A name
equals the name of a field as a value does, and the banner is there if its
setting is true.

Key definitions: `Options`, `Options.ofJson`, `Options.toJson`,
`FieldOptions.ofJson`, `FieldOptions.toJson`.
-/
import ContentDecl.Adapter

namespace ContentDecl

/-- The value of the first spelling that is there. -/
def firstMember (members : List (String × Json)) (name other : String) (absent : Json) : Json :=
  (members.lookup name).getD ((members.lookup other).getD absent)

/-- How fields are named. -/
structure FieldOptions where
  typeFieldName : Json := .str "type"
  deriving Repr, Inhabited

namespace FieldOptions

def ofJson : Json → Except Fault FieldOptions
  | .obj members => .ok ⟨firstMember members "type_field_name" "typeFieldName" (.str "type")⟩
  | _ => .error .missingAttribute

def toJson (options : FieldOptions) : Json :=
  .obj [("type_field_name", options.typeFieldName)]

end FieldOptions

/-- How a module is rendered. -/
structure Options where
  adapter : Adapter := .unknown
  fieldOptions : FieldOptions := {}
  banner : Json := .bool true
  deriving Repr, Inhabited

namespace Options

/-- The name of the field that holds the type's name. -/
def typeFieldName (options : Options) : Json := options.fieldOptions.typeFieldName

/-- A setting that is null is as good as absent, except for the banner. -/
def ofJson : Json → Except Fault Options
  | .obj members => do
    let adapter := match firstMember members "source_plugin_type" "sourcePluginType" .null with
      | .null => Adapter.unknown
      | value => Adapter.ofValue value
    let fieldOptions ← match firstMember members "field_options" "fieldOptions" .null with
      | .null => pure {}
      | value => FieldOptions.ofJson value
    let banner := match members.lookup "add_generation_comment" with
      | some value => value.isTrue
      | none => true
    return { adapter, fieldOptions, banner := .bool banner }
  | _ => .error .missingAttribute

def toJson (options : Options) : Json :=
  .obj [("source_plugin_type", .str options.adapter.name),
    ("field_options", options.fieldOptions.toJson),
    ("add_generation_comment", options.banner)]

end Options
end ContentDecl
