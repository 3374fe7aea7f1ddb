import GoCalls.Typing.Imports
import GoCalls.Typing.Universe

/-!
# Types from their text

`TypeEnv.resolve` gives the static type that a type as written stands for in a file. Each step into
a type, and from an alias to its target, is one level, and types below `maxTypeDepth` levels are not
resolved. So resolution ends, also for aliases that stand for each other. A part that cannot be
resolved is the invalid type.
-/

namespace GoCalls

/-- How many levels of a type, or of embedded fields, are followed. -/
def maxTypeDepth : Nat := 8

/-- What types stand for in one file. -/
structure TypeEnv where
  /-- The name and the import path of the package. -/
  package : String
  path : String
  /-- The types that the package declares; an alias comes with its target. -/
  localTypes : Std.TreeMap String (Option TypeExpr)
  imports : Imports

namespace TypeEnv

/-- The type that `expr` stands for, looking at most `fuel` levels deep. -/
def resolveWithin (env : TypeEnv) : (fuel : Nat) → TypeExpr → Option Ty
  | 0, _ => none
  | fuel + 1, expr =>
    let part (t : TypeExpr) : Ty := (env.resolveWithin fuel t).getD .invalid
    match expr with
    | .name none name =>
      match env.localTypes[name]? with
      | some (some target) => env.resolveWithin fuel target
      | some none => some (.declared env.package env.path name)
      | none => Universe.type? name
    | .name (some package) name =>
      env.imports.named[package]?.map fun imported => .declared imported.name imported.path name
    | .pointer t => some (.pointer (part t))
    | .slice t | .array t | .ellipsis t => some (.slice (part t))
    | .map k v => some (.map (part k) (part v))
    | .chan t => some (.chan (part t))
    | .func _ results => some (.func (results.map part))
    | .struct _ => some .struct
    | .interface _ => some .interface
    | .unknown => none

/-- The type that `expr` stands for. -/
def resolve (env : TypeEnv) (expr : TypeExpr) : Option Ty :=
  env.resolveWithin (maxTypeDepth + 1) expr

/-- The type of a function with the given results: one for each name. -/
def signature (env : TypeEnv) (results : List Field) : Ty :=
  .func (results.flatMap fun f =>
    List.replicate (max f.names.length 1) ((env.resolve f.type).getD .invalid))

end TypeEnv

end GoCalls
