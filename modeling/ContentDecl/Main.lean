/-
# The program

The command on the file system it is started in. Everything it decides is in
`Command.run`; here are only the operations it asks for.

Key definitions: `Program.host`, `main`.
-/
import ContentDecl.Command.Run

namespace ContentDecl
namespace Program

open Files (Failure)

/-- The number that the operating system gives to "is a directory". -/
def directoryCode : UInt32 := 21

/-- The refusal that an error of the operating system stands for. -/
def failureOf : IO.Error → Failure
  | .noFileOrDirectory _ _ _ => .notFound
  | .alreadyExists _ _ _ => .alreadyExists
  | .inappropriateType _ code _ => if code == directoryCode then .isDirectory else .notDirectory
  | .invalidArgument _ _ _ => .nameTooLong
  | _ => .busy

/-- An action whose errors are refusals. -/
def attempt {α : Type} (action : IO α) : IO (Except Fault α) := do
  try
    return .ok (← action)
  catch error =>
    return .error (.file (failureOf error))

/-- The absolute form of a path; links are followed as far as the path is
there. -/
def resolve (value : String) : IO (Except Fault String) := do
  if value.toList.contains '\x00' then return .error .invalidValue
  let start ← IO.currentDir
  let text := if Files.isRooted value then value else toString start ++ "/" ++ value
  let collapsed := (Files.collapse [] (Files.components text)).text
  try
    return .ok (toString (← IO.FS.realPath collapsed))
  catch _ =>
    return .ok collapsed

/-- Whether a file or directory is there: a directory is, although it cannot
be read like a file. -/
def pathExists (path : String) : IO Bool := do
  match ← attempt (IO.FS.readBinFile path) with
  | .error (.file .notFound) => return false
  | .error (.file .notDirectory) => return false
  | .error (.file .nameTooLong) => return false
  | _ => return true

/-- Writes a file through a draft beside it. -/
def writeFile (value text : String) : IO (Except Fault Unit) := do
  let path := Files.Path.ofString value
  let directory := Files.Place.text path.parent.parts
  let label := Files.labelOf (← IO.rand 0 99999999)
  let draft := directory ++ "/" ++ Files.draftName path.name label
  match ← attempt (IO.FS.createDirAll directory) with
  | .error fault => return .error fault
  | .ok () =>
    match ← attempt (IO.FS.writeFile draft text *> IO.FS.rename draft value) with
    | .ok () => return .ok ()
    | .error fault => do
      let _ ← attempt (IO.FS.removeFile draft)
      return .error fault

/-- The file system that the program is started in. -/
def host : Command.Host IO where
  resolve := resolve
  pathExists := pathExists
  readFile path := attempt (IO.FS.readBinFile path)
  writeFile := writeFile

end Program
end ContentDecl

/-- Runs the command and gives its exit code. -/
def main (arguments : List String) : IO UInt32 := do
  let outcome ← ContentDecl.Command.run ContentDecl.Program.host arguments
  IO.print outcome.stdout
  IO.eprint outcome.stderr
  if outcome.fault?.isSome then IO.eprintln (reprStr outcome.fault?)
  return outcome.exitCode.toUInt32
