import Statechart.File.Fault
set_option autoImplicit false

/-!
# Workspaces

A tree of files, the directory in it that a program works in, and how paths lead through the tree.  A
path is followed part by part: every part but the last has to lead to a directory, and so has one before
a slash at the end.
-/

namespace Statechart

/-- Files by the names on the way from the top of the tree to them, and directories that may be empty.
`directory` is the one where paths start that do not start with a slash. -/
structure Workspace where
  directory : List String := []
  files : List (List String × ByteArray) := []
  directories : List (List String) := []

namespace Workspace

/-- What a path can lead to. -/
inductive Place where
  | file (bytes : ByteArray)
  | directory
  | nothing

/-- Where a path has led so far: names from the top of the tree. -/
abbrev Position : Type := List String

/-- What is at a position. -/
def placeAt (w : Workspace) (position : Position) : Place :=
  match w.files.find? (·.1 = position) with
  | some (_, bytes) => .file bytes
  | none =>
    if position.isPrefixOf w.directory || w.directories.any position.isPrefixOf
        || w.files.any (position.isPrefixOf ·.1) then
      .directory
    else .nothing

/-- Whether a position is a directory. -/
def isDirectory (w : Workspace) (position : Position) : Bool :=
  match w.placeAt position with
  | .directory => true
  | _ => false

/-- Whether something is at a position. -/
def isPresent (w : Workspace) (position : Position) : Bool :=
  match w.placeAt position with
  | .nothing => false
  | _ => true

/-- The longest name, in bytes. -/
def longestName : Nat := 255

/-- The longest path, in bytes. -/
def longestPath : Nat := 4095

/-- Where one more part of a path leads from a directory; the place itself may be missing. -/
def part (w : Workspace) (position : Position) (name : String) : Except FileFault Position :=
  if !w.isDirectory position then .error .notDirectory
  else if name = "" ∨ name = "." then .ok position
  else if name = ".." then .ok position.dropLast
  else if longestName < name.utf8ByteSize then .error .nameTooLong
  else .ok (position ++ [name])

/-- Where the parts of a path lead; only the last one may lead to nothing. -/
def follow (w : Workspace) (position : Position) : List String → Except FileFault Position
  | [] => .ok position
  | [name] => w.part position name
  | name :: rest => do
    let next ← w.part position name
    if w.isPresent next then w.follow next rest else .error .missing

/-- The parts of a path, between its slashes. -/
def parts (path : String) : List String :=
  path.splitOn "/"

/-- Where a path starts. -/
def start (w : Workspace) (path : String) : Position :=
  if path.startsWith "/" then [] else w.directory

/-- Refuses what is no path, whatever the files are. -/
def checkPath (path : String) : Except FileFault Unit :=
  if path.toList.contains '\x00' then .error .nulInPath
  else if path.isEmpty then .error .missing
  else if longestPath < path.utf8ByteSize then .error .nameTooLong
  else .ok ()

/-- Where a path leads. -/
def locate (w : Workspace) (path : String) : Except FileFault Position := do
  checkPath path
  w.follow (w.start path) (parts path)

/-- Reads the file that a path leads to. -/
def read (w : Workspace) (path : String) : Except FileFault String := do
  let position ← w.locate path
  match w.placeAt position with
  | .file bytes => textOfBytes bytes
  | .directory => .error .directory
  | .nothing => .error .missing

/-- Whether a path leads to anything. -/
def contains (w : Workspace) (path : String) : Bool :=
  match w.locate path with
  | .ok position => w.isPresent position
  | .error _ => false

/-- The parts on the way to the place that a path with a slash at its end names. -/
def partsBeforeEnd (path : String) : List String :=
  ((parts path).reverse.dropWhile (·.isEmpty)).tail.reverse

/-- Opens the file that a path leads to for writing at its end; makes an empty one if there is none.
A path with a slash at its end stands for a directory, whatever its last name is: only the way to it is
followed. -/
def openAtEnd (w : Workspace) (path : String) : Except FileFault Workspace := do
  if path.endsWith "/" then
    checkPath path
    let _ ← w.follow (w.start path) (partsBeforeEnd path ++ ["."])
    .error .directory
  else
    let position ← w.locate path
    match w.placeAt position with
    | .file _ => .ok w
    | .directory => .error .directory
    | .nothing => .ok { w with files := w.files ++ [(position, ByteArray.empty)] }

end Workspace

end Statechart
