import GraphQuery.CommandLine

/-! # The program

Runs the command line on the files it names. They are read before the command runs; a path that
leads to a directory counts as an empty one. -/

namespace GraphQuery.CommandLine

/-- The paths that a command line names. -/
def namedPaths (arguments : List String) : List String :=
  match Invocation.ofArguments arguments with
  | .ok ⟨some (.ast path _), _⟩ | .ok ⟨some (.tokens path), _⟩ => [path]
  | .ok ⟨some (.parse paths _), _⟩ => paths
  | _ => []

/-- The file system in which some paths have been followed, and nothing else can be. -/
def FileSystem.ofFollowed (followed : List (String × Except FileFault Resolved)) : FileSystem :=
  fun path => (Entries.get? followed path).getD (.error .notFound)

/-- What stands at a path that can be followed. -/
def readTree (path : String) : IO FileTree := do
  match ← (IO.FS.readBinFile path).toBaseIO with
  | .ok contents => return .file contents
  | .error (.inappropriateType _ _ _) => return .empty
  | .error error => throw error

/-- Why a path cannot be followed; a file that has turned up there is taken as it is. -/
def faultAt (path : String) : IO (Except FileFault Resolved) := do
  match ← (IO.FS.readBinFile path).toBaseIO with
  | .ok contents => return .ok ⟨path, .file contents⟩
  | .error (.noFileOrDirectory _ _ _) => return .error .notFound
  | .error (.inappropriateType _ _ _) => return .error .notDirectory
  | .error (.invalidArgument _ _ _) => return .error .nameTooLong
  | .error error => throw error

/-- Follows a path and reads what stands there. -/
def follow (path : String) : IO (Except FileFault Resolved) := do
  match ← (IO.FS.realPath path).toBaseIO with
  | .ok absolute => return .ok ⟨toString absolute, ← readTree path⟩
  | .error _ => faultAt path

/-- Runs the program on files; `LOG_LEVEL` is the setting of the log's threshold. -/
def runOnFiles (arguments : List String) : IO UInt32 := do
  let followed ← (namedPaths arguments).mapM fun path => return (path, ← follow path)
  let outcome := run (.ofFollowed followed) (← IO.getEnv "LOG_LEVEL") arguments
  for line in outcome.log do
    IO.eprintln line.shown
  IO.print outcome.output
  IO.eprint outcome.complaint
  return outcome.exitCode.toUInt32

end GraphQuery.CommandLine

/-- **The program.** -/
def main (arguments : List String) : IO UInt32 :=
  GraphQuery.CommandLine.runOnFiles arguments
