/-
# Reading dumps and settings from files

A file is UTF-8 text whose lines may end in any way. A dump that is no JSON, or
no object, is reported with the file's path; settings that are no JSON are not.

Key definitions: `Dump.textOf`, `Dump.ofBytes`, `Options.ofBytes`.
-/
import ContentDecl.Dump.Basic
import ContentDecl.Options

namespace ContentDecl
namespace Dump

/-- The characters of a file, each line ended by a line feed. -/
def textOf (bytes : ByteArray) : Except Fault (List Char) :=
  match String.fromUTF8? bytes with
  | some s => .ok (Json.unifyLines s.toList)
  | none => .error .invalidEncoding

/-- The schema that the bytes of the file at a path spell. -/
def ofBytes (path : String) (bytes : ByteArray) : Except Fault Schema := do
  let text ← textOf bytes
  match Json.decode text with
  | .error (.malformed problem position) => throw (.notJson path problem position)
  | .error .tooManyDigits => throw .invalidValue
  | .error .loneSurrogate => throw .invalidEncoding
  | .ok (.obj members) => schema (.obj members)
  | .ok _ => throw (.notObject path)

end Dump

/-- The options that the bytes of a settings file spell. -/
def Options.ofBytes (bytes : ByteArray) : Except Fault Options := do
  let text ← Dump.textOf bytes
  match Json.decode text with
  | .error (.malformed _ _) => throw .invalidSettings
  | .error .tooManyDigits => throw .invalidValue
  | .error .loneSurrogate => throw .invalidEncoding
  | .ok value => Options.ofJson value

end ContentDecl
