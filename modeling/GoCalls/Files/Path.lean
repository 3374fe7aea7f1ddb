import GoCalls.Text.Blank
import GoCalls.Text.Bytes

/-!
# Paths

A path has slashes between its pieces. Empty pieces and the piece `.` change nothing, except at the
start.

* `Path.join`: a path inside a directory.
* `Path.ancestors`: a path and the directories above it.
* `Path.relative`: how one path goes on from another.
-/

namespace GoCalls.Path

def slash : UInt8 := 0x2F

def dot : UInt8 := 0x2E

/-- The pieces between slashes. -/
def pieces (path : OsString) : List OsString := Text.cut (· = slash) path

def isAbsolute (path : OsString) : Bool := path.head? = some slash

/-- The path `path` inside the directory `dir`; an absolute path stays as it is. -/
def join (dir path : OsString) : OsString :=
  if isAbsolute path then path
  else if dir = [] || dir.getLast? = some slash then dir ++ path
  else dir ++ slash :: path

/-- A piece that names nothing. -/
def isEmptyPiece (piece : OsString) : Bool := piece = [] || piece = [dot]

/-- The pieces up to the last one that names something. -/
def trimPieces : List OsString → List OsString
  | [] => []
  | first :: rest => first :: (rest.reverse.dropWhile isEmptyPiece).reverse

/-- The path with the given pieces. -/
def ofPieces : List OsString → OsString
  | [[]] => [slash]
  | pieces => List.intercalate [slash] pieces

/-- The path up to the last piece that names something. -/
def trimEnd (path : OsString) : OsString := ofPieces (trimPieces (pieces path))

/-- The directory that a path lies in. -/
def parent? (path : OsString) : Option OsString :=
  match trimPieces (pieces path) with
  | [] => none
  | [only] => if only = [] then none else some []
  | pieces => some (ofPieces (trimPieces pieces.dropLast))

/-- The first `count` of a path and the directories above it. -/
def ancestorsWithin : (count : Nat) → OsString → List OsString
  | 0, _ => []
  | count + 1, path =>
    path :: match parent? path with
      | some dir => ancestorsWithin count dir
      | none => []

/-- A path and the directories above it. -/
def ancestors (path : OsString) : List OsString := ancestorsWithin ((pieces path).length + 1) path

/-- The names along a path, after a slash for its root if it is absolute. -/
def components (path : OsString) : List OsString :=
  match pieces path with
  | [] => []
  | first :: rest =>
    (if first ≠ [] then [first] else if isAbsolute path then [[slash]] else []) ++
      rest.filter fun piece => !isEmptyPiece piece

/-- How `path` goes on from `base`, or nothing when it does not start there. -/
def relative (base path : OsString) : List OsString :=
  ((components base).isPrefixOf? (components path)).getD []

/-- The last name of a path. -/
def fileName (path : OsString) : OsString :=
  match (trimPieces (pieces path)).getLast? with
  | none => []
  | some name => if name = [dot, dot] then [] else name

end GoCalls.Path
