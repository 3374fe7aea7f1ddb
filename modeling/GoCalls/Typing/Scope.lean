import GoCalls.Typing.Index

/-!
# Scopes

A file is checked with a stack of scopes, the innermost first. A name that no scope declares is
looked for among the declarations of the package, the imports and the names of the language itself,
in this order.
-/

namespace GoCalls

/-- The names that a block declares, the latest first. -/
abbrev Scope := List (String × Symbol)

/-- The symbol of a name in the innermost scope that declares it. -/
def lookupScopes (scopes : List Scope) (name : String) : Option Symbol :=
  scopes.findSome? fun scope => scope.lookup name

/-- What is known in all of a file. -/
structure FileEnv where
  index : Index
  /-- The declarations of the file's own package. -/
  decls : Declarations
  imports : Imports
  /-- The types of package variables that their initial values give. -/
  inferred : Std.TreeMap String Ty

namespace FileEnv

/-- What types stand for in the file. -/
def typeEnv (env : FileEnv) : TypeEnv :=
  { package := env.decls.name
    path := env.decls.path
    localTypes := env.decls.localTypes
    imports := env.imports }

def resolve (env : FileEnv) (t : TypeExpr) : Option Ty := env.typeEnv.resolve t

/-- The symbol of a name that no scope declares. -/
def global? (env : FileEnv) (name : String) : Option Symbol :=
  let symbol (kind : SymbolKind) (type : Option Ty) : Symbol :=
    ⟨name, some env.decls.name, kind, type⟩
  if let some t := env.decls.funcs[name]? then some (symbol .func (some t))
  else if env.decls.localTypes.contains name then
    some (symbol .typeName (env.resolve (.name none name)))
  else if let some (kind, t) := env.decls.values[name]? then
    some (symbol kind (t <|> env.inferred[name]?))
  else if let some imported := env.imports.named[name]? then
    some (symbol (.package imported.name imported.path) none)
  else
    (env.imports.dotted.findSome? fun path => env.index.member? path name) <|>
      Universe.symbol? name

/-- The symbol that a name stands for. -/
def lookup (env : FileEnv) (scopes : List Scope) (name : String) : Option Symbol :=
  lookupScopes scopes name <|> env.global? name

/-- The import path of the package that a name stands for. -/
def packagePath? (env : FileEnv) (scopes : List Scope) (name : String) : Option String := do
  match (← env.lookup scopes name).kind with
  | .package _ path => some path
  | _ => none

/-- The type that an expression denotes, if it denotes a type and no value. -/
def denotedType (env : FileEnv) (scopes : List Scope) : Expr → Option Ty
  | .type t => env.resolve t
  | .ident i => do
    let symbol ← env.lookup scopes i.name
    if symbol.kind = .typeName then symbol.type else none
  | .selector _ x sel => do
    let path ← env.packagePath? scopes (← x.ident?).name
    let symbol ← env.index.member? path sel.name
    if symbol.kind = .typeName then symbol.type else none
  | .paren x | .index x _ => env.denotedType scopes x
  | .unary .deref x => (env.denotedType scopes x).map .pointer
  | _ => none

/-- The types of the key and the value when ranging over a value of type `t`. -/
def rangeTypes (env : FileEnv) (t : Option Ty) : Option Ty × Option Ty :=
  match t.map env.index.underlying with
  | some (.slice elem) => (some (.basic "int"), some elem)
  | some (.map key value) => (some key, some value)
  | some (.chan elem) => (some elem, none)
  | some (.basic "string") => (some (.basic "int"), some (.basic "rune"))
  | some (.basic name) => (some (.basic name), none)
  | _ => (none, none)

/-- The type of an element of a value of type `t`. An instance of a generic type keeps its type. -/
def elementType (env : FileEnv) (t : Ty) : Option Ty :=
  match env.index.underlying t with
  | .slice elem => some elem
  | .map _ value => some value
  | .basic "string" => some (.basic "byte")
  | .pointer (.slice elem) => some elem
  | .func _ | .named _ _ _ | .struct => some t
  | _ => none

/-- The type of a call of a value of type `t`. -/
def callResult (env : FileEnv) (t : Option Ty) : Option Ty :=
  match t.map env.index.underlying with
  | some (.func [result]) => some result
  | some (.func (first :: second :: rest)) => some (.tuple (first :: second :: rest))
  | _ => none

end FileEnv

/-- The types of `targets` variables. One value for several is a call, or comes with a flag. -/
def spreadTypes (targets : Nat) : List (Option Ty) → List (Option Ty)
  | [t] =>
    if 1 < targets then
      match t with
      | some (.tuple items) => items.map some
      | t => [t, some (.basic "bool")]
    else [t]
  | types => types

/-- The type of a literal. -/
def LitKind.type : LitKind → Ty
  | .int => .basic "int"
  | .float => .basic "float64"
  | .imaginary => .basic "complex128"
  | .rune => .basic "rune"
  | .string => .basic "string"

end GoCalls
