import GoCalls.Files.Path
import Std.Data.TreeMap

/-!
# File trees

A `Disk` holds directories and files by their places, which are the lists of names from the root
down, and the directory that relative paths start from.

* `Disk.find`: the place that a path leads to.
* `Disk.read`, `Disk.write`: the text of a file.
* `Disk.children`: the entries of a directory, in ascending order.
-/

namespace GoCalls

/-- Why a path cannot be used. -/
inductive FileError
  | notFound
  /-- A file stands where the path goes on. -/
  | notDirectory
  | isDirectory
  /-- The bytes of the file are no text. -/
  | notText
  /-- A file stands where a project should be. -/
  | plainFile
  deriving DecidableEq

def FileError.message : FileError → String
  | .notFound => "No such file or directory (os error 2)"
  | .notDirectory => "Not a directory (os error 20)"
  | .isDirectory => "Is a directory (os error 21)"
  | .notText => "stream did not contain valid UTF-8"
  | .plainFile => "not a directory"

/-- What stands at a place. -/
inductive Node
  | dir
  /-- A file, with its text if its bytes are one. -/
  | file (text : Option String)
  deriving DecidableEq

/-- The names from the root down to a file or directory. -/
abbrev Place := List OsString

structure Disk where
  nodes : Std.TreeMap Place Node := ∅
  /-- Where relative paths start. -/
  current : Place := []

namespace Disk

/-- What stands at a place; the root is always a directory. -/
def node? (disk : Disk) (place : Place) : Option Node :=
  if place.isEmpty then some .dir else disk.nodes[place]?

/-- The disk with a directory below `base`, and with those that lead to it. -/
def addDir (disk : Disk) (base : Place) : Place → Disk
  | [] => disk
  | name :: rest =>
    addDir { disk with nodes := disk.nodes.insert (base ++ [name]) .dir } (base ++ [name]) rest

/-- The disk with a file, and with the directories that lead to it. -/
def addFile (disk : Disk) (place : Place) (text : Option String) : Disk :=
  let disk := disk.addDir [] place.dropLast
  { disk with nodes := disk.nodes.insert place (.file text) }

/-- Follow the pieces of a path from a place on. -/
def follow (disk : Disk) : Place → List OsString → Except FileError Place
  | place, [] => .ok place
  | place, piece :: rest =>
    match disk.node? place with
    | some .dir =>
      if Path.isEmptyPiece piece then disk.follow place rest
      else if piece = [Path.dot, Path.dot] then disk.follow place.dropLast rest
      else if (disk.node? (place ++ [piece])).isSome then disk.follow (place ++ [piece]) rest
      else .error .notFound
    | some (.file _) => .error .notDirectory
    | none => .error .notFound

/-- The place that a path leads to. -/
def find (disk : Disk) (path : OsString) : Except FileError Place :=
  if path = [] then .error .notFound
  else disk.follow (if Path.isAbsolute path then [] else disk.current) (Path.pieces path)

/-- What a path leads to. -/
def at? (disk : Disk) (path : OsString) : Option Node :=
  match disk.find path with
  | .ok place => disk.node? place
  | .error _ => none

def isDir (disk : Disk) (path : OsString) : Bool := disk.at? path = some .dir

def isFile (disk : Disk) (path : OsString) : Bool :=
  match disk.at? path with
  | some (.file _) => true
  | _ => false

/-- The text of the file that a path leads to. -/
def read (disk : Disk) (path : OsString) : Except FileError String := do
  match disk.node? (← disk.find path) with
  | some (.file (some text)) => return text
  | some (.file none) => throw .notText
  | some .dir => throw .isDirectory
  | none => throw .notFound

/-- Write a text to a file in a directory. A path to a directory can be no file. -/
def write (disk : Disk) (path : OsString) (text : String) : Except FileError Disk := do
  let pieces := Path.pieces path
  let named := (pieces.reverse.dropWhile (· = [])).reverse
  match named.getLast? with
  | none => throw (if path = [] then .notFound else .isDirectory)
  | some name =>
    let dir ← disk.follow (if Path.isAbsolute path then [] else disk.current) named.dropLast
    match disk.node? dir with
    | some .dir =>
      if named.length < pieces.length || Path.isEmptyPiece name || name = [Path.dot, Path.dot] ||
          disk.node? (dir ++ [name]) = some .dir then
        throw .isDirectory
      else return { disk with nodes := disk.nodes.insert (dir ++ [name]) (.file (some text)) }
    | some (.file _) => throw .notDirectory
    | none => throw .notFound

/-- The entries of a directory, by ascending names. -/
def children (disk : Disk) (dir : Place) : List (OsString × Node) :=
  disk.nodes.toList.filterMap fun (place, node) =>
    match dir.isPrefixOf? place with
    | some [name] => some (name, node)
    | _ => none

/-- The directories below `dir`, each by its names from there, in ascending order. -/
def directories (disk : Disk) (dir : Place) : List Place :=
  disk.nodes.toList.filterMap fun (place, node) =>
    match node, dir.isPrefixOf? place with
    | .dir, some (name :: rest) => some (name :: rest)
    | _, _ => none

/-- The absolute path of a place. -/
def absolute (place : Place) : OsString :=
  Path.slash :: List.intercalate [Path.slash] place

end Disk

end GoCalls
