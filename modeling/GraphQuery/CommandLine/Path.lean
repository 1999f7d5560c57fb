/-! # Paths

A path is a text with slashes between its segments. The **extension** of a file name is what
follows its last dot; a name that has no dot, or starts with its only dot, has no extension. -/

namespace GraphQuery.CommandLine

/-- The segments of a path. -/
def pathSegments (path : String) : List String := path.splitOn "/"

/-- The path of an entry of the directory at `path`. -/
def joinPath (path name : String) : String :=
  if path.toList.getLast? = some '/' then path ++ name else path ++ "/" ++ name

/-- **The extension of a file name.** -/
def extension? (name : String) : Option String :=
  let backwards := name.toList.reverse
  match backwards.dropWhile (· ≠ '.') with
  | _ :: _ :: _ => some (String.ofList (backwards.takeWhile (· ≠ '.')).reverse)
  | _ => none

end GraphQuery.CommandLine
