import GraphQuery.Entries
import GraphQuery.Json
import GraphQuery.CommandLine.Path

/-! # File trees

A **file tree** is a file with its bytes, or a directory of named trees, sorted by name. A path is
followed segment by segment from a place in the tree, and every segment, be it empty, can only be
followed from a directory. Paths and segments have a greatest length in bytes: too long a path is
not followed at all, and too long a segment not any further. A command knows the file system only
by what its paths resolve to. -/

namespace GraphQuery.CommandLine

/-- **A file tree.** -/
inductive FileTree where
  /-- A file and its bytes. -/
  | file (contents : ByteArray)
  /-- A directory and its entries, sorted by name. -/
  | directory (entries : List (String × FileTree))

/-- **Why a path does not give a text.** -/
inductive FileFault where
  /-- There is nothing at the path. -/
  | notFound
  /-- The path goes on after a file. -/
  | notDirectory
  /-- There is a directory at the path. -/
  | isDirectory
  /-- The path, or one of its segments, takes too many bytes. -/
  | nameTooLong
  /-- The bytes of the file are no text. -/
  | notText
deriving DecidableEq

/-- A fault in words. -/
def FileFault.message : FileFault → String
  | notFound => "No such file or directory (os error 2)"
  | notDirectory => "Not a directory (os error 20)"
  | isDirectory => "Is a directory (os error 21)"
  | nameTooLong => "File name too long (os error 36)"
  | notText => "stream did not contain valid UTF-8"

namespace FileTree

/-- The empty directory. -/
def empty : FileTree := directory []

/-- The entries of a directory; a file has none. -/
def entries : FileTree → List (String × FileTree)
  | file _ => []
  | directory entries => entries

/-- Whether a tree is a file. -/
def isFile : FileTree → Bool
  | file _ => true
  | directory _ => false

/-- The text of a file. -/
def text : FileTree → Except FileFault String
  | directory _ => .error .isDirectory
  | file contents =>
    match String.fromUTF8? contents with
    | some text => .ok text
    | none => .error .notText

/-- Changes what stands at a path below a tree, making the directories on the way there. -/
def alter (f : Option FileTree → FileTree) : List String → Option FileTree → FileTree
  | [], tree => f tree
  | name :: rest, tree =>
    let entries := (tree.map entries).getD []
    directory (Json.insertSorted name (alter f rest (Entries.get? entries name)) entries)

/-- Puts a file below a tree. -/
def addFile (path : String) (contents : ByteArray) (tree : FileTree) : FileTree :=
  alter (fun _ => file contents) (pathSegments path) (some tree)

/-- Puts a directory below a tree; one that is there stays as it is. -/
def addDirectory (path : String) (tree : FileTree) : FileTree :=
  alter (fun old => directory ((old.map entries).getD [])) (pathSegments path) (some tree)

end FileTree

/-- **A place in a file tree**: what stands there, and the names that lead there with the
directory each is in, the last name first. -/
structure Place where
  /-- What stands there. -/
  tree : FileTree
  /-- The names that lead there, each with its directory. -/
  trail : List (String × FileTree)

namespace Place

/-- The greatest length of a segment in bytes. -/
def maxSegmentLength : Nat := 255

/-- Follows one segment of a path. The root is its own parent. -/
def follow (place : Place) (segment : String) : Except FileFault Place :=
  match place.tree with
  | .file _ => .error .notDirectory
  | .directory entries =>
    if segment = "" ∨ segment = "." then .ok place
    else if segment = ".." then
      match place.trail with
      | [] => .ok place
      | (_, parent) :: trail => .ok ⟨parent, trail⟩
    else if maxSegmentLength < segment.utf8ByteSize then .error .nameTooLong
    else
      match Entries.get? entries segment with
      | none => .error .notFound
      | some tree => .ok ⟨tree, (segment, place.tree) :: place.trail⟩

/-- Follows segments from left to right. -/
def followAll (place : Place) (segments : List String) : Except FileFault Place :=
  segments.foldlM follow place

/-- The path from the root, without detours. -/
def absolutePath (place : Place) : String :=
  "/" ++ String.intercalate "/" (place.trail.map Prod.fst).reverse

/-- Following nothing stays at the place. -/
@[simp] theorem followAll_nil (place : Place) : place.followAll [] = .ok place := rfl

/-- Following a list of segments is following its head and then its tail. -/
@[simp] theorem followAll_cons (place : Place) (segment : String) (rest : List String) :
    place.followAll (segment :: rest) = (place.follow segment).bind (followAll · rest) := rfl

end Place

/-- What a path resolves to: a tree, and the path from the root that leads to it. -/
structure Resolved where
  /-- The path from the root. -/
  absolute : String
  /-- What stands there. -/
  tree : FileTree

/-- **A file system**, known by what each path resolves to. -/
abbrev FileSystem := String → Except FileFault Resolved

/-- The greatest length of a path in bytes. -/
def maxPathLength : Nat := 4095

/-- The file system that consists of one tree, seen from a directory in it. -/
def FileTree.fileSystem (root : FileTree) (workingDirectory : List String) : FileSystem :=
  fun path => do
    if maxPathLength < path.utf8ByteSize then throw .nameTooLong
    let top : Place := ⟨root, []⟩
    let start ← if path.startsWith "/" then pure top else top.followAll workingDirectory
    let place ← start.followAll (pathSegments path)
    return ⟨place.absolutePath, place.tree⟩

end GraphQuery.CommandLine
