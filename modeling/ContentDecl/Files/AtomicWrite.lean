/-
# Writing a file all or nothing

A file is first written as a draft under a name of its own in the directory of
the target, and then takes the target's place in one step. So whoever reads the
target finds its old content or all of the new one. If any step fails, the
draft is removed.

The draft's directory is found by taking double points as steps back, the
target's by following links.

Key definitions: `Files.draftDirectory`, `Files.createDraft`,
`Files.appendTo`, `Files.publish`, `Files.discard`, `Files.writeBy`,
`Files.write`.
-/
import ContentDecl.Files.Tree

namespace ContentDecl
namespace Files

/-- The mode of a draft, which the target keeps. -/
def draftMode : Nat := 0o600

/-- The name of a draft of a file, with eight characters of its own. -/
def draftName (name label : String) : String := "." ++ name ++ "." ++ label ++ ".tmp"

/-- Eight digits for a number. -/
def labelOf (n : Nat) : String :=
  let digits := Nat.toDigits 10 n
  String.ofList (List.replicate (8 - digits.length) '0' ++ digits)

/-- A label whose draft is not there yet. Of as many labels as there are
entries, and one more, at least one is free. -/
def freeLabel (tree : Tree) (directory : Place) (name : String) : String :=
  let labels := (List.range (tree.entries.length + 1)).map labelOf
  (labels.find? fun label => (tree.get? (directory ++ [draftName name label])).isNone).getD ""

/-- The directory in which the draft of a target is made. All labels have one
length, so whether the draft has too long a path does not depend on its label. -/
def draftDirectory (workingDirectory : Place) (path : Path) : Operation Place := do
  if path.hasNull then throw .invalidValue
  let directory := collapse (startOf workingDirectory path) path.parent.parts
  checkPath (Place.path (directory ++ [draftName path.name (labelOf 0)]))
  look fun tree => directoryAt tree [] directory.path

/-- Makes an empty file for a draft. -/
def createDraft (directory : Place) (name : String) : Operation Place := do
  if maxNameSize < name.utf8ByteSize then throw (.file .nameTooLong)
  let place := directory ++ [name]
  modify fun tree => tree.set place (.file ByteArray.empty draftMode)
  return place

/-- How the label of a draft is chosen for a name in a directory. -/
abbrev Labelling := Tree → Place → String → String

/-- Makes an empty draft for a target, under the label that is chosen, and gives
its place. -/
def openDraft (labelling : Labelling) (workingDirectory : Place) (path : Path) :
    Operation Place := do
  let directory ← draftDirectory workingDirectory path
  createDraft directory (draftName path.name (labelling (← get) directory path.name))

/-- Adds bytes to a file. -/
def appendTo (place : Place) (bytes : ByteArray) : Operation Unit := do
  match (← get).get? place with
  | some (.file content mode) => modify fun tree => tree.set place (.file (content ++ bytes) mode)
  | _ => throw (.file .notFound)

/-- Puts a draft in the place of the target, which may be a file, a link or
nothing. -/
def publish (workingDirectory : Place) (draft : Place) (path : Path) : Operation Unit := do
  checkPath path
  let parent ← look fun tree => directoryAt tree workingDirectory path.parent
  if path.name == "" || path.name == ".." then throw (.file .busy)
  let target := parent ++ [path.name]
  match (← get).get? draft, (← get).get? target with
  | _, some .directory => throw (.file .isDirectory)
  | some entry, _ => modify fun tree => (tree.erase draft).set target entry
  | none, _ => throw (.file .notFound)

/-- Removes a draft. -/
def discard (draft : Place) : Operation Unit := modify fun tree => tree.erase draft

/-- The bytes of a text; nothing else can be written. -/
def bytesOf : Json → Except Fault ByteArray
  | .str s => .ok s.toUTF8
  | _ => .error .typeMismatch

/-- Writes a value, which has to be a text, to a target, by a draft whose label is
chosen. -/
def writeBy (labelling : Labelling) (workingDirectory : Place) (path : Path) (content : Json) :
    Operation Unit := do
  let _ ← ensureDirectory workingDirectory path.parent
  let draft ← openDraft labelling workingDirectory path
  tryCatch
    (do
      let bytes ← bytesOf content
      appendTo draft bytes
      publish workingDirectory draft path)
    fun fault => do
      discard draft
      throw fault

/-- Writes a value to a target, by a draft under the first label that is free. -/
def write : Place → Path → Json → Operation Unit := writeBy freeLabel

/-- The path a value names. -/
def pathOf : Json → Except Fault Path
  | .str s => .ok (Path.ofString s)
  | _ => .error .typeMismatch

end Files
end ContentDecl
