import GoCalls.Syntax
import GoCalls.Text.Blank
import Std.Data.TreeMap

/-!
# Imports

* `importName`: the name of a package as far as its import path tells it.
* `Imports.ofFile`: the packages that a file can name.
-/

namespace GoCalls

/-- A major version: `v` and digits. -/
def isMajorVersion : List Char → Bool
  | 'v' :: digits => !digits.isEmpty && digits.all Char.isDigit
  | _ => false

/-- The parts of `s` before and after its last dot. -/
def splitLastDot (s : List Char) : Option (List Char × List Char) :=
  if s.contains '.' then
    let tail := (s.reverse.takeWhile (· ≠ '.')).reverse
    some (s.take (s.length - tail.length - 1), tail)
  else none

/-- The name of a package, from its import path: the last element without its version. -/
def importName (path : String) : String :=
  let parts := (Text.cut (· = '/') path.toList).reverse
  let last := parts.headD []
  let versioned := if isMajorVersion last then parts[1]? else none
  let dotted := do
    guard (path.startsWith "gopkg.in/")
    let (base, version) ← splitLastDot last
    guard (isMajorVersion version)
    return base
  String.ofList ((versioned <|> dotted).getD last)

/-- An imported package: its own name and its import path. -/
structure Imported where
  name : String
  path : String
  deriving DecidableEq

/-- The packages that a file imports. -/
structure Imports where
  /-- The packages by their local names. -/
  named : Std.TreeMap String Imported := ∅
  /-- The paths of packages whose members are used without a package name. -/
  dotted : List String := []

/-- The imports with one more specification, where `names` gives the names of known packages by
their paths. -/
def Imports.add (names : Std.TreeMap String String) (imports : Imports) (spec : Import) : Imports :=
  let name := names[spec.path]?.getD (importName spec.path)
  match spec.localName with
  | some "_" => imports
  | some "." => { imports with dotted := imports.dotted ++ [spec.path] }
  | some short => { imports with named := imports.named.insert short ⟨name, spec.path⟩ }
  | none => { imports with named := imports.named.insert name ⟨name, spec.path⟩ }

/-- The imports of a file. Of two imports with one local name the later counts. -/
def Imports.ofFile (names : Std.TreeMap String String) (file : SourceFile) : Imports :=
  file.imports.foldl (Imports.add names) {}

end GoCalls
