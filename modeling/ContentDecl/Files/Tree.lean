/-
# Trees of files

A tree says for every place whether there is a file, a directory or a link.
The root is a directory. A path is followed name by name, unless it is longer
than any path may be; a link on the way is replaced by its target, forty times
at most, and a link at the end only where the operation asks for it.

An operation either has a result or is refused, and what it changed before it
was refused stays changed.

Key definitions: `Files.Tree`, `Files.walk`, `Files.Operation`,
`Files.makeDirectory`, `Files.ensureDirectory`, `Files.contentAt`,
`Files.listBelow`.
-/
import ContentDecl.Fault
import ContentDecl.Files.Path

namespace ContentDecl
namespace Files

/-- What stands at a place. -/
inductive Entry where
  | file (content : ByteArray) (mode : Nat)
  | directory
  | link (target : String)
  deriving Inhabited

/-- What stands where. -/
structure Tree where
  entries : List (Place × Entry) := []
  deriving Inhabited

namespace Tree

def get? (tree : Tree) (place : Place) : Option Entry :=
  if place.isEmpty then some .directory else tree.entries.lookup place

/-- The tree without what stands at a place. -/
def erase (tree : Tree) (place : Place) : Tree :=
  { entries := tree.entries.filter fun entry => entry.1 != place }

/-- The tree with an entry at a place. -/
def set (tree : Tree) (place : Place) (entry : Entry) : Tree :=
  { entries := (place, entry) :: (tree.erase place).entries }

end Tree

/-- The longest name in a directory, in bytes. -/
def maxNameSize : Nat := 255

/-- The longest path that is looked at, in bytes. -/
def maxPathSize : Nat := 4095

/-- Whether a path is too long to be looked at, wherever it leads. -/
def Path.isTooLong (path : Path) : Bool := maxPathSize < path.text.utf8ByteSize

/-- How many links are followed on one way. -/
def maxLinks : Nat := 40

/-- The place that names lead to from a directory. The last name need not be
there. At a link, with the directory it is in, its target and the names behind
it, `follow` goes on; a link at the end is only followed if `followLast`
holds. -/
def walkUpToLink (tree : Tree) (followLast : Bool)
    (follow : Place → String → List String → Except Failure Place) (here : Place) :
    List String → Except Failure Place
  | [] => .ok here
  | name :: rest =>
    if name == "" || name == "." then walkUpToLink tree followLast follow here rest
    else if name == ".." then walkUpToLink tree followLast follow here.dropLast rest
    else if maxNameSize < name.utf8ByteSize then .error .nameTooLong
    else match tree.get? (here ++ [name]) with
      | none => if rest.isEmpty then .ok (here ++ [name]) else .error .notFound
      | some .directory => walkUpToLink tree followLast follow (here ++ [name]) rest
      | some (.file _ _) => if rest.isEmpty then .ok (here ++ [name]) else .error .notDirectory
      | some (.link target) =>
        if rest.isEmpty && !followLast then .ok (here ++ [name]) else follow here target rest

/-- The place that names lead to from a directory, with at most the given
number of links followed on the way. -/
def walk (tree : Tree) (followLast : Bool) : Nat → Place → List String → Except Failure Place
  | 0 => walkUpToLink tree followLast fun _ _ _ => .error .tooManyLinks
  | links + 1 => walkUpToLink tree followLast fun here target rest =>
    walk tree followLast links (if isRooted target then [] else here) (components target ++ rest)

/-- Where a path starts. -/
def startOf (workingDirectory : Place) (path : Path) : Place :=
  if path.isAbsolute then [] else workingDirectory

/-- The place of a path with all links followed. -/
def placeOf (tree : Tree) (workingDirectory : Place) (path : Path) : Except Failure Place :=
  if path.isTooLong then .error .nameTooLong
  else walk tree true maxLinks (startOf workingDirectory path) path.parts

/-- The place of a path that has to be a directory. -/
def directoryAt (tree : Tree) (workingDirectory : Place) (path : Path) :
    Except Failure Place := do
  let place ← placeOf tree workingDirectory path
  match tree.get? place with
  | some .directory => return place
  | some _ => throw .notDirectory
  | none => throw .notFound

def isDirectory (tree : Tree) (workingDirectory : Place) (path : Path) : Bool :=
  (directoryAt tree workingDirectory path).isOk

/-- An operation on a tree. -/
abbrev Operation := ExceptT Fault (StateM Tree)

/-- The result of looking something up, without changing the tree. -/
def look {α : Type} (find : Tree → Except Failure α) : Operation α := do
  match find (← get) with
  | .ok a => return a
  | .error failure => throw (.file failure)

/-- Refuses a path that cannot be looked at. -/
def checkPath (path : Path) : Operation Unit := do
  if path.hasNull then throw .invalidValue
  if path.isTooLong then throw (.file .nameTooLong)

/-- Makes one directory in a directory that is there, and gives its place. -/
def makeIn (parent : Place) (name : String) : Operation Place := do
  if name == ".." then throw (.file .alreadyExists)
  if maxNameSize < name.utf8ByteSize then throw (.file .nameTooLong)
  let place := parent ++ [name]
  match (← get).get? place with
  | some _ => throw (.file .alreadyExists)
  | none => do
    modify fun tree => tree.set place .directory
    return place

/-- Makes the directory of a path if the one it is in is there. -/
def makeDirectory (workingDirectory : Place) (path : Path) : Operation Place := do
  checkPath path
  if path.parts.isEmpty then throw (.file .alreadyExists)
  let parent ← look fun tree => directoryAt tree workingDirectory path.parent
  makeIn parent path.name

/-- The place of a directory that is made, or of the one that is there already
if it cannot be made. -/
def orExisting (workingDirectory : Place) (path : Path) (made : Operation Place) :
    Operation Place :=
  tryCatch made fun fault => do
    match fault with
    | .file .notFound => throw fault
    | .file _ =>
      match directoryAt (← get) workingDirectory path with
      | .ok place => return place
      | .error _ => throw fault
    | _ => throw fault

/-- Makes a directory unless it is there already, and up to the given number
of directories on the way to it. -/
def ensureWithin (workingDirectory : Place) : Nat → Path → Operation Place
  | 0, path => orExisting workingDirectory path (makeDirectory workingDirectory path)
  | depth + 1, path =>
    tryCatch (orExisting workingDirectory path (makeDirectory workingDirectory path))
      fun fault => do
        match fault with
        | .file .notFound => do
          let parent ← ensureWithin workingDirectory depth path.parent
          orExisting workingDirectory path (makeIn parent path.name)
        | _ => throw fault

/-- Makes a directory, and the directories on the way to it, unless they are
there already, and gives its place. -/
def ensureDirectory (workingDirectory : Place) (path : Path) : Operation Place :=
  ensureWithin workingDirectory path.parts.length path

/-- Makes a directory that is not there yet, and the directories on the way to
it. -/
def makeDirectories (workingDirectory : Place) (path : Path) : Operation Place :=
  tryCatch (makeDirectory workingDirectory path) fun fault => do
    match fault with
    | .file .notFound => do
      let parent ← ensureDirectory workingDirectory path.parent
      makeIn parent path.name
    | _ => throw fault

/-- The mode of a new file whose maker does not ask for one. -/
def defaultMode : Nat := 0o644

/-- Writes a file in place, through a link if there is one, and makes the
directories on the way to it. -/
def overwrite (workingDirectory : Place) (path : Path) (content : ByteArray) : Operation Unit := do
  let _ ← ensureDirectory workingDirectory path.parent
  checkPath path
  let place ← look fun tree => placeOf tree workingDirectory path
  match (← get).get? place with
  | some .directory => throw (.file .isDirectory)
  | some (.file _ mode) => modify fun tree => tree.set place (.file content mode)
  | _ => modify fun tree => tree.set place (.file content defaultMode)

/-- Makes a link to a target that need not be there. -/
def makeLink (workingDirectory : Place) (path : Path) (target : String) : Operation Unit := do
  if path.hasNull || target.toList.contains '\x00' then throw .invalidValue
  if target.isEmpty then throw (.file .notFound)
  if maxPathSize < target.utf8ByteSize then throw (.file .nameTooLong)
  checkPath path
  let parent ← look fun tree => directoryAt tree workingDirectory path.parent
  if path.name == "" || path.name == ".." then throw (.file .alreadyExists)
  if maxNameSize < path.name.utf8ByteSize then throw (.file .nameTooLong)
  let place := parent ++ [path.name]
  match (← get).get? place with
  | some _ => throw (.file .alreadyExists)
  | none => modify fun tree => tree.set place (.link target)

/-- What a path leads to. -/
def entryAt (workingDirectory : Place) (path : Path) : Operation Entry := do
  checkPath path
  let place ← look fun tree => placeOf tree workingDirectory path
  match (← get).get? place with
  | some entry => return entry
  | none => throw (.file .notFound)

/-- The bytes of a file. -/
def contentAt (workingDirectory : Place) (path : Path) : Operation ByteArray := do
  match ← entryAt workingDirectory path with
  | .file content _ => return content
  | .directory => throw (.file .isDirectory)
  | .link _ => throw (.file .notFound)

/-- The mode of a directory. -/
def directoryMode : Nat := 0o755

/-- The mode of what a path leads to. -/
def modeOf (workingDirectory : Place) (path : Path) : Operation Nat := do
  match ← entryAt workingDirectory path with
  | .file _ mode => return mode
  | _ => return directoryMode

/-- All that stands below a directory, by the way down from it and in ascending
order. A directory, and a link to one, has a slash at its end. -/
def listBelow (tree : Tree) (directory : Place) : List String :=
  let below := tree.entries.filterMap fun (place, entry) =>
    if directory.length < place.length && directory.isPrefixOf place then
      let way := String.intercalate "/" (place.drop directory.length)
      let leadsToDirectory := match entry with
        | .directory => true
        | .link _ => isDirectory tree [] place.path
        | .file _ _ => false
      some (if leadsToDirectory then way ++ "/" else way)
    else none
  below.mergeSort fun a b => !decide (b < a)

end Files
end ContentDecl
