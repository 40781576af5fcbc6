import LedgerIndex.Entries
import LedgerIndex.Files.Path
import LedgerIndex.Text.Utf8

/-! # A tree of files

The files and directories under a working directory, in memory.  `Tree.read` and `Tree.write` follow
a path part by part: every part before the last one has to be a directory.  Nothing is known above
the working directory, so a path from the root leads nowhere. -/

namespace LedgerIndex

inductive FileFault where
  | notFound
  | alreadyExists
  | notADirectory
  | isADirectory
  | notText
deriving DecidableEq, Repr

/-- The text of a fault, with the number under which operating systems know it. -/
def FileFault.message : FileFault → String
  | notFound => "No such file or directory (os error 2)"
  | alreadyExists => "File exists (os error 17)"
  | notADirectory => "Not a directory (os error 20)"
  | isADirectory => "Is a directory (os error 21)"
  | notText => "stream did not contain valid UTF-8"

inductive FileEntry where
  | file (content : Bytes)
  | directory
deriving DecidableEq, Repr

/-- The entries under their places; a place is the list of names that leads to it from the working
directory, which itself is always a directory. -/
structure Tree where
  entries : List (List String × FileEntry) := []
deriving DecidableEq, Repr, Inhabited

namespace Tree

def entry? (tree : Tree) (place : List String) : Option FileEntry :=
  if place = [] then some .directory else Entries.get? place tree.entries

/-- The directories that lead to a place, the outermost first. -/
def ancestors (place : List String) : List (List String) :=
  (List.range place.length).map fun n => place.take n

def put (tree : Tree) (place : List String) (entry : FileEntry) : Tree :=
  ⟨Entries.put place entry tree.entries⟩

/-- A tree with one more file, whose directories are made. -/
def addFile (tree : Tree) (path : String) (content : Bytes) : Tree :=
  let place := Path.parts path
  let withDirectories := (ancestors place).foldl
    (fun tree place => if place = [] then tree else tree.put place .directory) tree
  withDirectories.put place (.file content)

/-- Follows parts from a directory to a place, whose last name need not exist. -/
def follow (tree : Tree) : List String → List String → Except FileFault (List String)
  | place, [] => .ok place
  | place, part :: rest =>
    match tree.entry? place with
    | none => .error .notFound
    | some (.file _) => .error .notADirectory
    | some .directory => follow tree (if part = ".." then place.dropLast else place ++ [part]) rest

def place (tree : Tree) (path : String) : Except FileFault (List String) :=
  if path = "" ∨ Path.isAbsolute path then .error .notFound else follow tree [] (Path.parts path)

def read (tree : Tree) (path : String) : Except FileFault Bytes := do
  match tree.entry? (← tree.place path) with
  | none => .error .notFound
  | some .directory => .error .isADirectory
  | some (.file content) =>
    if Path.endsInDirectory path then .error .notADirectory else .ok content

def readText (tree : Tree) (path : String) : Except FileFault String := do
  match Utf8.decode? (← tree.read path) with
  | some text => .ok text
  | none => .error .notText

/-- Writes a file, in a directory that exists. -/
def write (tree : Tree) (path : String) (content : Bytes) : Except FileFault Tree := do
  let place ← tree.place path
  match tree.entry? place with
  | some .directory => .error .isADirectory
  | some (.file _) =>
    if Path.endsInDirectory path then .error .notADirectory
    else .ok (tree.put place (.file content))
  | none =>
    if Path.endsInDirectory path then .error .isADirectory
    else .ok (tree.put place (.file content))

/-- Makes the directories along parts, from a directory on. -/
def makeDirectories (tree : Tree) : List String → List String → Except FileFault Tree
  | _, [] => .ok tree
  | place, part :: rest =>
    let next := if part = ".." then place.dropLast else place ++ [part]
    match tree.entry? next with
    | some .directory => makeDirectories tree next rest
    | some (.file _) => .error (if rest = [] then .alreadyExists else .notADirectory)
    | none => makeDirectories (tree.put next .directory) next rest

/-- Makes a directory and those that lead to it. -/
def createDirectory (tree : Tree) (path : String) : Except FileFault Tree :=
  if Path.isAbsolute path then .error .notFound else tree.makeDirectories [] (Path.parts path)

def files (tree : Tree) : List (String × Bytes) :=
  tree.entries.filterMap fun (place, entry) =>
    match entry with
    | .file content => some ("/".intercalate place, content)
    | .directory => none

/-- The files that an earlier tree does not have, or not with the same content. -/
def changesSince (tree before : Tree) : List (String × Bytes) :=
  let known := before.files
  tree.files.filter fun (path, content) => known.lookup path != some content

end Tree

end LedgerIndex
