import GraphQuery.CommandLine.FileTree
import GraphQuery.Log
import GraphQuery.Text.Quoted

/-! # Finding documents

The documents at and under a path are the files whose extension is one of those asked for. A scan
lists what it comes across: a directory before its entries, entries by name. If a single path is
given and it is a file, it counts as a document even though its extension is another one, provided
that nothing else was found. -/

namespace GraphQuery.CommandLine

/-- **What a scan comes across.** -/
inductive Finding where
  /-- A document, by the path it was found at, its path from the root, and what stands there. -/
  | document (path absolute : String) (tree : FileTree)
  /-- A file with another extension. -/
  | otherFile (path : String)
  /-- Something that is no file. -/
  | nonFile (path : String)
  /-- A path that cannot be followed. -/
  | unreachable (path : String)

/-- The log line about a finding. -/
def Finding.line : Finding → LogLine
  | document path _ _ => ⟨.trace, "Found file at " ++ inQuotes path ++ "."⟩
  | otherFile path => ⟨.trace, "Skipping non-graphql file: " ++ inQuotes path ++ "."⟩
  | nonFile path => ⟨.trace, "Skipping non-file: " ++ inQuotes path ++ "."⟩
  | unreachable path =>
    ⟨.trace, "Encountered an error while iterating recursive filesystem entities at/under "
      ++ inQuotes path ++ "."⟩

/-- The extensions as they are compared: without white space at the ends and leading dots, each
one once, and without empty ones. -/
def normalizeExtensions (extensions : List String) : List String :=
  let bare := extensions.map fun extension =>
    String.ofList ((trim extension).toList.dropWhile (· = '.'))
  (bare.filter (· ≠ "")).eraseDups

/-- Whether the file at a path counts as a document. -/
def hasExtension (extensions : List String) (path : String) : Bool :=
  match extension? ((pathSegments path).getLast?.getD "") with
  | some extension => extensions.contains extension
  | none => false

mutual

/-- What a scan comes across at and under a tree. -/
def findings (extensions : List String) (path absolute : String) : FileTree → List Finding
  | .file contents =>
    [if hasExtension extensions path then .document path absolute (.file contents)
     else .otherFile path]
  | .directory entries => .nonFile path :: findingsOfEntries extensions path absolute entries

/-- What a scan comes across under the entries of a directory. -/
def findingsOfEntries (extensions : List String) (path absolute : String) :
    List (String × FileTree) → List Finding
  | [] => []
  | (name, tree) :: rest =>
    findings extensions (joinPath path name) (joinPath absolute name) tree
      ++ findingsOfEntries extensions path absolute rest

end

/-- **Scans paths** in the order they are given. -/
def scan (files : FileSystem) (extensions paths : List String) : List Finding :=
  paths.flatMap fun path =>
    match files path with
    | .ok found => findings extensions path found.absolute found.tree
    | .error _ => [.unreachable path]

/-- **A document to be read**: the path that messages show, and what stands there. -/
structure Source where
  /-- The path that messages show. -/
  path : String
  /-- What stands there. -/
  tree : FileTree

/-- **The outcome of a scan.** -/
structure Discovery where
  /-- The documents, in the order they were found. -/
  sources : List Source
  /-- The number of files that count as no documents. -/
  skipped : Nat
  /-- The paths that cannot be followed. -/
  unreachable : List String
  /-- What the scan logs. -/
  log : List LogLine

namespace Discovery

/-- The documents among findings. -/
def sourcesOf (found : List Finding) : List Source :=
  found.filterMap fun
    | .document _ absolute tree => some ⟨absolute, tree⟩
    | _ => none

/-- The number of other files among findings. -/
def skippedOf (found : List Finding) : Nat :=
  found.countP fun
    | .otherFile _ => true
    | _ => false

/-- The paths among findings that cannot be followed. -/
def unreachableOf (found : List Finding) : List String :=
  found.filterMap fun
    | .unreachable path => some path
    | _ => none

/-- The single path given, if it is a file. -/
def onlyFile? (files : FileSystem) : List String → Option Source
  | [path] =>
    match files path with
    | .ok found => if found.tree.isFile then some ⟨path, found.tree⟩ else none
    | .error _ => none
  | _ => none

/-- The warning about a file that is taken for a document in spite of its extension. -/
def warning (path : String) (extensions : List String) : LogLine :=
  ⟨.warn, "Proceeding with " ++ inQuotes path
    ++ " even though it doesn't match any of the --graphql-file-exts ("
    ++ String.intercalate ", " (extensions.map fun extension => "`" ++ extension ++ "`") ++ ")."⟩

/-- **Finds the documents** at and under paths. -/
def ofPaths (files : FileSystem) (paths extensions : List String) : Discovery :=
  let extensions := normalizeExtensions extensions
  let found := scan files extensions paths
  let sources := sourcesOf found
  let skipped := skippedOf found
  let scanning : LogLine := ⟨.debug, "Scanning " ++ toString paths.length ++ " input paths..."⟩
  let total (count : Nat) : LogLine := ⟨.debug, "Found " ++ toString count ++ " GraphQL files."⟩
  let log := scanning :: found.map Finding.line
  match if sources.isEmpty then onlyFile? files paths else none with
  | some only =>
    ⟨[only], skipped - 1, unreachableOf found, log ++ [warning only.path extensions, total 1]⟩
  | none => ⟨sources, skipped, unreachableOf found, log ++ [total sources.length]⟩

end Discovery

end GraphQuery.CommandLine
