/-
# Paths

A path is the list of the names between its slashes, and starts at the root or
at the working directory. Empty names and single points do not count; a double
point stays, for it depends on links what it leads to.

Key definitions: `Files.components`, `Files.Path`, `Files.Path.ofString`,
`Files.Path.parent`, `Files.Path.name`, `Files.Path.text`, `Files.collapse`.
-/

namespace ContentDecl
namespace Files

/-- The parts of a text between its slashes. -/
def splitSlashes : List Char → List (List Char)
  | [] => [[]]
  | '/' :: rest => [] :: splitSlashes rest
  | c :: rest =>
    match splitSlashes rest with
    | [] => [[c]]
    | part :: parts => (c :: part) :: parts

/-- The names between the slashes of a text, empty ones included. -/
def components (s : String) : List String := (splitSlashes s.toList).map String.ofList

/-- Whether a text starts with a slash. -/
def isRooted (s : String) : Bool := s.toList.head? == some '/'

/-- A path without the names that do not count. -/
structure Path where
  isAbsolute : Bool
  parts : List String
  deriving DecidableEq, Repr, Inhabited

namespace Path

def ofString (s : String) : Path :=
  { isAbsolute := isRooted s
    parts := (components s).filter fun part => part != "" && part != "." }

/-- The last name, empty if there is none. -/
def name (path : Path) : String := path.parts.getLastD ""

/-- The path without its last name. -/
def parent (path : Path) : Path := { path with parts := path.parts.dropLast }

/-- The names with a slash between any two; a point if there is nothing to
write. -/
def text (path : Path) : String :=
  if path.isAbsolute then "/" ++ String.intercalate "/" path.parts
  else if path.parts.isEmpty then "."
  else String.intercalate "/" path.parts

/-- No name of a file system has a null character. -/
def hasNull (path : Path) : Bool := path.parts.any fun part => part.toList.contains '\x00'

end Path

/-- The way down from the root: the names passed. -/
abbrev Place := List String

/-- The place names lead to, with each double point taken as one step back,
whatever links there are. -/
def collapse (start : Place) (parts : List String) : Place :=
  parts.foldl (fun here part =>
    if part == "" || part == "." then here
    else if part == ".." then here.dropLast
    else here ++ [part]) start

/-- The path from the root to a place. -/
def Place.path (place : Place) : Path := ⟨true, place⟩

/-- The text of a place. -/
def Place.text (place : Place) : String := place.path.text

end Files
end ContentDecl
