/-
# Running the command

The command reads a dump, and settings if it is told to, and writes the module
for it. It asks a `Host` for everything outside: what a path means, whether it
is there, the bytes of a file, and the writing of one. Paths are made absolute
before they are used.

The values of the options are checked in the order in which the options first
appear, then those of the arguments, and then that nothing is left over; a
request for help goes before all of them.

An error is reported without the control sequences that names and paths in its
message may hold. The lines of the log keep theirs.

Key definitions: `Command.Host`, `Command.Outcome`, `Command.run`,
`Command.Host.ofTree`.
-/
import ContentDecl.Command.Arguments
import ContentDecl.Command.Generate
import ContentDecl.Files.AtomicWrite
import ContentDecl.Text.ControlSequence

namespace ContentDecl
namespace Command

/-- What the command asks of the outside. -/
structure Host (m : Type → Type) where
  /-- The absolute form of a path. -/
  resolve : String → m (Except Fault String)
  pathExists : String → m Bool
  readFile : String → m (Except Fault ByteArray)
  writeFile : String → String → m (Except Fault Unit)

/-- How a run ends. A fault without a message is not reported but left to the
surroundings. -/
structure Outcome where
  exitCode : Nat
  stdout : String := ""
  stderr : String := ""
  fault? : Option Fault := none
  deriving Repr

/-- A command line whose values are accepted. -/
structure Invocation where
  config? : Option String := none
  overrides : Overrides := {}
  verbose : Bool := false
  path? : Option String := none
  output? : Option String := none
  deriving DecidableEq, Repr, Inhabited

def usage : String := "Usage: content-schema-to-ts [OPTIONS] [PATH] [OUTPUT]\n"

def helpText : String :=
  usage
    ++ "\nOptions:\n"
    ++ "  -c, --config PATH\n"
    ++ "  -s, --source-plugin [local|contentful|sanity|unknown]\n"
    ++ "                                  Content source adapter the schema comes from\n"
    ++ "                                  (overrides config file)\n"
    ++ "  --type-field-name TEXT          Name of the type discriminant field\n"
    ++ "  --no-generation-comment         Omit the do-not-edit banner\n"
    ++ "  -v, --verbose\n"
    ++ "  --help                          Show this message and exit.\n"

/-- Where a refused command line is pointed to. -/
def helpHint : String := "Try 'content-schema-to-ts --help' for help.\n"

/-- The line that reports an error. -/
def errorLine (message : String) : String :=
  Text.withoutSequences ("Error: " ++ message ++ "\n")

def Outcome.ofRefusal (refusal : Refusal) : Outcome :=
  { exitCode := 2
    stderr := (if refusal.showsUsage then usage ++ helpHint ++ "\n" else "")
      ++ errorLine refusal.message }

def Outcome.ofHelp : Outcome := { exitCode := 0, stdout := helpText }

/-- The lines of a log that are written. -/
def logText (verbose : Bool) (log : List Line) : String :=
  String.join ((log.filter fun line => verbose || !line.isDetail).map fun line => line.text ++ "\n")

/-- The end of a run with a fault, after a log. -/
def Outcome.ofFault (log : String) (fault : Fault) : Outcome :=
  match fault.message? with
  | some message => { exitCode := 1, stderr := log ++ errorLine message }
  | none => { exitCode := 1, stderr := log, fault? := some fault }

/-- Why a command line does not become an invocation. -/
inductive Halt where
  | refusal (refusal : Refusal)
  | fault (fault : Fault)

section
variable {m : Type → Type} [Monad m]

/-- The absolute form of a path that has to be there. -/
def existing (host : Host m) (value : String) (missing : Refusal) : ExceptT Halt m String := do
  match ← host.resolve value with
  | .error fault => throw (.fault fault)
  | .ok path => if ← host.pathExists path then return path else throw (.refusal missing)

/-- The absolute form of a path. -/
def absolute (host : Host m) (value : String) : ExceptT Halt m String := do
  match ← host.resolve value with
  | .error fault => throw (.fault fault)
  | .ok path => return path

/-- The invocation with the value of one option checked. -/
def checkFlag (host : Host m) (arguments : Arguments) (invocation : Invocation) (flag : Flag) :
    ExceptT Halt m Invocation := do
  let value := (arguments.value? flag).getD ""
  let overrides := invocation.overrides
  match flag with
  | .config => do
    let config ← existing host value (.noSuchConfig value)
    return { invocation with config? := some config }
  | .sourcePlugin => match Adapter.ofName? value with
    | some adapter =>
      return { invocation with overrides := { overrides with adapter? := some adapter } }
    | none => throw (.refusal (.noSuchAdapter value))
  | .typeFieldName =>
    return { invocation with overrides := { overrides with typeFieldName? := some value } }
  | .noGenerationComment =>
    return { invocation with overrides := { overrides with noBanner := true } }
  | .verbose => return { invocation with verbose := true }
  | .help => return invocation

/-- The invocation with the arguments that are no options. -/
def checkOperands (host : Host m) (invocation : Invocation) :
    List String → ExceptT Halt m Invocation
  | [] => return invocation
  | [path] => do
    return { invocation with path? := some (← existing host path (.noSuchPath path)) }
  | path :: output :: extra => do
    let path ← existing host path (.noSuchPath path)
    let output ← absolute host output
    match extra with
    | [] => return { invocation with path? := some path, output? := some output }
    | first :: more => throw (.refusal (.extraArguments first more))

/-- The invocation that sorted arguments ask for. -/
def invocationOf (host : Host m) (arguments : Arguments) : ExceptT Halt m Invocation := do
  let invocation ← arguments.flags.foldlM (checkFlag host arguments) {}
  checkOperands host invocation arguments.operands

/-- Writes the module, if there is one, and says how the run ends. -/
def deliver (host : Host m) (invocation : Invocation) (run : Logged Generated) : m Outcome := do
  let log := logText invocation.verbose
  match run.result, invocation.output? with
  | .error fault, _ => return .ofFault (log run.log) fault
  | .ok _, none => return .ofFault (log run.log) .typeMismatch
  | .ok generated, some output =>
    match ← host.writeFile output generated.text with
    | .error fault => return .ofFault (log run.log) fault
    | .ok () =>
      let lines := run.log
        ++ [.wrote generated.text.length output, .generated generated.documents output]
      return { exitCode := 0, stderr := log lines }

/-- Reads, renders and writes. A path that is not given is no path to read or
write. -/
def execute (host : Host m) (invocation : Invocation) : m Outcome := do
  let settings? ← invocation.config?.mapM host.readFile
  let dump ← match invocation.path? with
    | some path => host.readFile path
    | none => pure (.error .typeMismatch)
  deliver host invocation
    (generate invocation.overrides ⟨settings?, invocation.path?.getD "", dump⟩)

/-- Runs the command with its arguments. -/
def run (host : Host m) (arguments : List String) : m Outcome := do
  match split {} arguments with
  | .error refusal => return .ofRefusal refusal
  | .ok sorted =>
    if sorted.has .help then return .ofHelp
    else match ← (invocationOf host sorted).run with
      | .error (.refusal refusal) => return .ofRefusal refusal
      | .error (.fault fault) => return .ofFault "" fault
      | .ok invocation => execute host invocation

end

/-- A tree of files without links as a host. -/
def Host.ofTree (workingDirectory : Files.Place) : Host (StateM Files.Tree) where
  resolve value :=
    if value.toList.contains '\x00' then return .error .invalidValue
    else
      let start := if Files.isRooted value then [] else workingDirectory
      return .ok (Files.collapse start (Files.components value)).text
  pathExists value := do
    return (← (Files.entryAt [] (.ofString value)).run).isOk
  readFile value := (Files.contentAt [] (.ofString value)).run
  writeFile value text := (Files.write [] (.ofString value) (.str text)).run

end Command
end ContentDecl
