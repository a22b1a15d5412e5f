/-
# Failures of file operations

Key definitions: `Files.Failure`.
-/

namespace ContentDecl
namespace Files

/-- Why an operation on a tree of files is refused. -/
inductive Failure where
  /-- A name on the way, or the last one, is not there. -/
  | notFound
  /-- What was to be made is there already. -/
  | alreadyExists
  /-- A directory stands where a file is needed. -/
  | isDirectory
  /-- A file stands where a directory is needed. -/
  | notDirectory
  /-- Links lead on without end. -/
  | tooManyLinks
  /-- A name is longer than a directory can hold, or a path longer than is
  looked at. -/
  | nameTooLong
  /-- The target is a directory's own name for itself or for its parent. -/
  | busy
  deriving DecidableEq, Repr

end Files
end ContentDecl
