import GoCalls.Typing.Declarations

/-!
# The index of packages

An `Index` holds the declarations of the packages that are known, by their import paths.

* `Index.member?`: a member of a package, as other packages see it.
* `Index.underlying`: what a type is defined as.
* `Index.memberType`: a field or method of a type, also one of an embedded field.
-/

namespace GoCalls

/-- The declarations of packages by their import paths. -/
structure Index where
  /-- The names of the packages. -/
  names : Std.TreeMap String String := ∅
  packages : Std.TreeMap String Declarations := ∅

namespace Index

/-- The index of some packages. Of two with one path the later counts. -/
def ofPackages (packages : List Package) : Index :=
  let names := packages.foldl
    (fun (names : Std.TreeMap String String) p => names.insert p.path p.name) ∅
  { names
    packages := packages.foldl
      (fun (known : Std.TreeMap String Declarations) p =>
        known.insert p.path (Declarations.ofPackage names p)) ∅ }

/-- The member `name` of the package with the path `path`: a function, a type or a value. -/
def member? (index : Index) (path name : String) : Option Symbol := do
  let decls ← index.packages[path]?
  let symbol (kind : SymbolKind) (type : Option Ty) : Symbol := ⟨name, some decls.name, kind, type⟩
  match decls.funcs[name]?, decls.aliases[name]? with
  | some t, _ => return symbol .func (some t)
  | none, some t => return symbol .typeName (some t)
  | none, none =>
    if decls.localTypes.contains name then
      return symbol .typeName (some (.declared decls.name decls.path name))
    else
      let (kind, type) ← decls.values[name]?
      return symbol kind type

/-- The members of a declared type. -/
def namedDecl? (index : Index) : Ty → Option NamedDecl
  | .named _ (some path) name => do (← index.packages[path]?).types[name]?
  | _ => none

/-- What a type is defined as, or the type itself. -/
def underlying (index : Index) (t : Ty) : Ty :=
  ((index.namedDecl? t).bind (·.underlying)).getD t

/-- The type of the member `name` of a value of type `t`, below less than `fuel` embedded fields. -/
def memberWithin (index : Index) (name : String) : (fuel : Nat) → Ty → Option Ty
  | 0, _ => none
  | fuel + 1, t =>
    match t.stripPointers with
    | .named _ none typeName =>
      if typeName = "error" && name = "Error" then some (.func [.basic "string"]) else none
    | base => do
      let decl ← index.namedDecl? base
      let field := (decl.fields.find? (·.name = name)).map (·.type)
      let embedded := (decl.fields.filter (·.embedded)).findSome? fun f =>
        index.memberWithin name fuel f.type
      decl.methods[name]? <|> field <|> embedded

/-- The type of the field or method `name` of a value of type `t`. -/
def memberType (index : Index) (t : Ty) (name : String) : Option Ty :=
  index.memberWithin name (maxTypeDepth + 1) t

end Index

end GoCalls
