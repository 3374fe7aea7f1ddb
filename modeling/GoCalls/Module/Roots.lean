import GoCalls.Files.Disk
import GoCalls.Module.GoMod

/-!
# The sources of imported packages

`Roots` says where the sources of packages outside a module may be: the standard library, vendored
packages, and a cache of required modules. `Roots.locate` finds the directory of a package.
-/

namespace GoCalls

/-- Does an import path belong to the standard library? Its first element then has no dot. -/
def isStandard (path : String) : Bool :=
  !(path.toList.takeWhile (· ≠ '/')).contains '.'

/-- A path as the cache writes it: a mark and the small letter stand for a capital one. -/
def escapePath (path : List Char) : List Char :=
  path.flatMap fun c => if c.isUpper then ['!', c.toLower] else [c]

/-- Where sources of imported packages may be. -/
structure Roots where
  /-- The directory whose `src` holds the standard library. -/
  goroot : Option OsString := none
  vendor : Option OsString := none
  cache : Option OsString := none
  /-- The required modules, those with longer paths first. -/
  requirements : List Requirement := []

/-- The order in which required modules are tried: longer paths come first. -/
def Requirement.le (a b : Requirement) : Bool :=
  b.path.utf8ByteSize < a.path.utf8ByteSize ||
    (a.path.utf8ByteSize = b.path.utf8ByteSize && a.path ≤ b.path)

/-- What remains of an import path inside a required module. -/
def Requirement.rest? (required : Requirement) (path : String) : Option (List Char) :=
  match Text.after? required.path.toList path.toList with
  | some [] => some []
  | some ('/' :: rest) => some ('/' :: rest)
  | _ => none

namespace Roots

/-- Roots with their required modules in any order. -/
def ofParts (goroot vendor cache : Option OsString) (requirements : List Requirement) : Roots :=
  { goroot, vendor, cache, requirements := requirements.mergeSort Requirement.le }

/-- The roots of the module in the directory `dir`, for variables of the environment. -/
def discover (disk : Disk) (env : String → Option String) (dir : OsString) : Roots :=
  let value (name : String) : Option OsString := ((env name).filter (· ≠ "")).map Text.bytes
  let vendor := Path.join dir "vendor"
  ofParts (value "GOROOT")
    (if disk.isFile (Path.join vendor "modules.txt") then some vendor else none)
    (value "GOMODCACHE")
    (match disk.read (Path.join dir "go.mod") with
      | .ok text => GoCalls.requirements text
      | .error _ => [])

/-- The directory in the cache for an import path: that of the first required module around it. -/
def cached? (roots : Roots) (path : String) : Option OsString := do
  let cache ← roots.cache
  let (required, rest) ← roots.requirements.findSome? fun r => (r.rest? path).map (r, ·)
  return Path.join cache (String.ofList
    (escapePath required.path.toList ++ ['@'] ++ escapePath required.version.toList ++
      escapePath rest))

/-- The directories where an import path is looked for. -/
def candidates (roots : Roots) (path : String) : List OsString :=
  if path = "C" then []
  else if isStandard path then
    (roots.goroot.map fun root => Path.join (Path.join root "src") path).toList
  else (roots.vendor.map fun root => Path.join root path).toList ++ (roots.cached? path).toList

/-- The directory with the sources of an imported package. -/
def locate (roots : Roots) (disk : Disk) (path : String) : Option OsString :=
  (roots.candidates path).find? disk.isDir

end Roots

end GoCalls
