/-
# From a dump to a module, with a log

Between reading its files and writing its output the command only computes: it
reads the settings, lets the options of the command line override them, reads
the dump and renders the module. Each stage that is passed leaves a line in the
log, which goes on up to the stage that fails.

Key definitions: `Command.Overrides`, `Command.Overrides.apply`,
`Command.Line`, `Command.generate`.
-/
import ContentDecl.Dump.File
import ContentDecl.TypeScript.Module

namespace ContentDecl
namespace Command

/-- The options given on the command line. -/
structure Overrides where
  adapter? : Option Adapter := none
  typeFieldName? : Option String := none
  noBanner : Bool := false
  deriving DecidableEq, Repr, Inhabited

/-- The options with those of the command line in place of their own. -/
def Overrides.apply (overrides : Overrides) (options : Options) : Options :=
  { adapter := overrides.adapter?.getD options.adapter
    fieldOptions := overrides.typeFieldName?.elim options.fieldOptions fun name => ⟨.str name⟩
    banner := if overrides.noBanner then .bool false else options.banner }

/-- A line of the log. -/
inductive Line where
  | parsed (documents nested : Nat)
  | rendering (documents nested : Nat) (adapter : Adapter)
  | wrote (size : Nat) (path : String)
  | generated (documents : Nat) (path : String)
  deriving DecidableEq, Repr

namespace Line

/-- Only the last line is written unless the log is asked for in full. -/
def isDetail : Line → Bool
  | generated _ _ => false
  | _ => true

def counts (documents nested : Nat) : String :=
  toString documents ++ " document types and " ++ toString nested ++ " nested types"

def text : Line → String
  | parsed documents nested =>
    "DEBUG content_schema_to_ts.schema.parser: Parsed schema with " ++ counts documents nested
  | rendering documents nested adapter =>
    "DEBUG content_schema_to_ts.generation.module: Rendering " ++ counts documents nested
      ++ " for source '" ++ adapter.name ++ "'"
  | wrote size path =>
    "DEBUG content_schema_to_ts.writer: Wrote " ++ toString size ++ " characters to " ++ path
  | generated documents path =>
    "INFO content_schema_to_ts.content_schema_to_ts: Generated types for " ++ toString documents
      ++ " document types in " ++ path

end Line

/-- A module and the number of its document types. -/
structure Generated where
  text : String
  documents : Nat
  deriving DecidableEq, Repr

/-- The log of a computation and its result. -/
structure Logged (α : Type) where
  log : List Line
  result : Except Fault α

/-- What the command reads: the settings if there are any, and the dump under
its path. A file that cannot be read fails where it would be used. -/
structure Sources where
  settings? : Option (Except Fault ByteArray)
  path : String
  dump : Except Fault ByteArray

/-- The options that the settings and the command line give. -/
def effectiveOptions (overrides : Overrides) (settings? : Option (Except Fault ByteArray)) :
    Except Fault Options := do
  let options ← match settings? with
    | none => .ok {}
    | some bytes => bytes >>= Options.ofBytes
  return overrides.apply options

/-- The module of a schema. -/
def renderLogged (options : Options) (schema : Schema) : Logged Generated :=
  let parsed := Line.parsed schema.documents.length schema.nested.length
  match TypeScript.Declarations.ofSchema options schema with
  | .error fault => ⟨[parsed], .error fault⟩
  | .ok declarations =>
    ⟨[parsed,
        .rendering declarations.documents.length declarations.nested.length options.adapter],
      (fun text => ⟨text, schema.documents.length⟩) <$> declarations.moduleText options⟩

/-- The module of the dump. -/
def generate (overrides : Overrides) (sources : Sources) : Logged Generated :=
  match effectiveOptions overrides sources.settings? with
  | .error fault => ⟨[], .error fault⟩
  | .ok options =>
    match sources.dump >>= Dump.ofBytes sources.path with
    | .error fault => ⟨[], .error fault⟩
    | .ok schema => renderLogged options schema

end Command
end ContentDecl
