/-! # Paths

A path is a text whose parts are divided by slashes.  Empty parts and the part `.` lead nowhere
else. -/

namespace LedgerIndex.Path

/-- The parts of a path, empty ones and points included. -/
def pieces (path : String) : List (List Char) :=
  path.toList.splitOn '/'

def isAbsolute (path : String) : Bool :=
  path.toList.head? == some '/'

/-- The parts of a path that lead somewhere. -/
def parts (path : String) : List String :=
  ((pieces path).filter fun piece => piece ≠ [] ∧ piece ≠ ['.']).map String.ofList

/-- A path that can only lead to a directory. -/
def endsInDirectory (path : String) : Bool :=
  match (pieces path).getLast? with
  | some last => last == [] || last == ['.']
  | none => false

/-- A path seen from a directory; an absolute path stays as it is. -/
def join (directory path : String) : String :=
  if isAbsolute path ∨ directory = "" then path
  else if directory.toList.getLast? = some '/' then directory ++ path
  else directory ++ "/" ++ path

/-- A run of parts at the end that leads nowhere. -/
def dropIdle (pieces : List (List Char)) : List (List Char) :=
  (pieces.reverse.dropWhile fun piece => piece == [] || piece == ['.']).reverse

/-- The text of parts divided by slashes. -/
def ofPieces (pieces : List (List Char)) : String :=
  String.ofList (['/'].intercalate pieces)

/-- The directory of a path: the path without its last part, and without the parts before it that
lead nowhere.  A first part `.` is kept. -/
def directory (path : String) : String :=
  match dropIdle (pieces path) with
  | [] => ""
  | present =>
    match present.dropLast with
    | [] => ""
    | first :: rest =>
      let kept := dropIdle rest
      if kept = [] ∧ first = [] then "/" else ofPieces (first :: kept)

end LedgerIndex.Path
