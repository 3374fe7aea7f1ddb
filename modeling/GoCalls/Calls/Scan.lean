import GoCalls.Calls.Trace
import GoCalls.Filter

/-!
# The call graph of packages

Each function at top level is a node, whether it has a body or not, and its body is traced in a
fresh context.

* `FuncDecl.trace`, `Package.scan`: what a function and a package add to a graph.
* `Graph.ofPackages`: the call graph of some packages.
-/

namespace GoCalls

/-- The node of a function: the package, the receiver's type if there is one, and the name. -/
def FuncDecl.qualifiedName (package : String) (func : FuncDecl) : String :=
  match func.recv.bind Receiver.typeName with
  | some recv => package ++ "." ++ recv ++ "." ++ func.name.name
  | none => package ++ "." ++ func.name.name

/-- What a function adds to a graph. -/
def FuncDecl.trace (tables : Tables) (package : String) (func : FuncDecl) : Trace :=
  let name := func.qualifiedName package
  { nodes := [name] } ++
    match func.body with
    | some body => stmtsTrace (some tables) { package, scope := name } body
    | none => {}

/-- The functions of a package, file by file. -/
def Package.funcs (package : Package) : List FuncDecl :=
  package.files.flatMap fun file => file.decls.filterMap fun
    | .func d => some d
    | _ => none

/-- What comes of a package. -/
inductive Outcome
  /-- Its functions were traced; there are so many. -/
  | scanned (functions : Nat)
  /-- It does not pass the filter. -/
  | filtered
  | noTypes
  | noFiles
  deriving DecidableEq

/-- The outcome for a package, and what it adds to a graph. -/
def Package.scan (filter : Filter) (package : Package) : Outcome × Trace :=
  if !filter.accepts package.name then (.filtered, {})
  else
    match package.tables with
    | none => (.noTypes, {})
    | some tables =>
      if package.files.isEmpty then (.noFiles, {})
      else
        let funcs := package.funcs
        (.scanned funcs.length,
          funcs.foldr (fun func rest => func.trace tables package.name ++ rest) {})

/-- The call graph of some packages. -/
def Graph.ofPackages (filter : Filter) (packages : List Package) : Graph :=
  packages.foldl (fun graph package => graph.extend (package.scan filter).2) {}

end GoCalls
