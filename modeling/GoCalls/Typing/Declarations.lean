import GoCalls.Typing.Resolve

/-!
# The declarations of a package

`Declarations.ofPackage` collects what a package declares at top level, with the types resolved in
the file of each declaration. Function bodies and initial values play no part in it.
-/

namespace GoCalls

/-- A field of a declared struct type. -/
structure FieldDecl where
  name : String
  type : Ty
  embedded : Bool

/-- The members of a declared type. -/
structure NamedDecl where
  /-- What the type is defined as, unless it is a struct or an interface. -/
  underlying : Option Ty := none
  fields : List FieldDecl := []
  /-- The types of the methods. -/
  methods : Std.TreeMap String Ty := ∅

/-- What a package declares. -/
structure Declarations where
  name : String
  path : String
  /-- The names of types; an alias comes with its target. -/
  localTypes : Std.TreeMap String (Option TypeExpr) := ∅
  types : Std.TreeMap String NamedDecl := ∅
  /-- The aliases whose targets are known. -/
  aliases : Std.TreeMap String Ty := ∅
  funcs : Std.TreeMap String Ty := ∅
  values : Std.TreeMap String (SymbolKind × Option Ty) := ∅

/-- The types that a list of declarations adds to known ones. -/
def localTypesOf (known : Std.TreeMap String (Option TypeExpr)) (decls : List Decl) :
    Std.TreeMap String (Option TypeExpr) :=
  decls.foldl
    (fun known decl =>
      match decl with
      | .type d => known.insert d.name.name (if d.isAlias then some d.type else none)
      | _ => known)
    known

/-- The field of a struct type, if its type and its name are known. An embedded field has the name
of its type. -/
def fieldDecl? (env : TypeEnv) : StructField → Option FieldDecl
  | .mk (some name) t => return ⟨name, ← env.resolve t, false⟩
  | .mk none t => do
    let type ← env.resolve t
    return ⟨← t.baseName, type, true⟩

/-- The members that the definition of a type adds to known ones. -/
def NamedDecl.define (env : TypeEnv) (decl : NamedDecl) : TypeExpr → NamedDecl
  | .struct fields => { decl with fields := decl.fields ++ fields.filterMap (fieldDecl? env) }
  | .interface methods =>
    { decl with methods := methods.foldl (fun ms m => ms.insertIfNew m (.func [])) decl.methods }
  | t => { decl with underlying := env.resolve t }

namespace Declarations

/-- Change the members of a type. -/
def modifyType (decls : Declarations) (name : String) (f : NamedDecl → NamedDecl) : Declarations :=
  { decls with types := decls.types.insert name (f (decls.types[name]?.getD {})) }

/-- Declare values of one kind and type. -/
def addValues (decls : Declarations) (kind : SymbolKind) (type : Option Ty) (names : List Ident) :
    Declarations :=
  { decls with
    values := names.foldl (fun values name => values.insert name.name (kind, type)) decls.values }

/-- Add a function, to the methods of its receiver's type if it has a receiver. -/
def addFunc (env : TypeEnv) (decls : Declarations) (func : FuncDecl) : Declarations :=
  let type := env.signature func.results
  match func.recv.bind Receiver.typeName with
  | some recv =>
    decls.modifyType recv fun d => { d with methods := d.methods.insert func.name.name type }
  | none => { decls with funcs := decls.funcs.insert func.name.name type }

/-- The type of constants: as written, or that of the constants before, when nothing is written. -/
def constType (env : TypeEnv) (last : Option Ty) : ValueSpec → Option Ty
  | .mk _ (some t) _ => env.resolve t
  | .mk _ none [] => last
  | .mk _ none (_ :: _) => none

/-- Add the declarations of a file, where `last` is the type of the constants before them. -/
def addDecls (env : TypeEnv) (last : Option Ty) (decls : Declarations) : List Decl → Declarations
  | [] => decls
  | .type d :: rest =>
    if d.isAlias then
      match env.resolve d.type with
      | some target =>
        addDecls env last { decls with aliases := decls.aliases.insert d.name.name target } rest
      | none => addDecls env last decls rest
    else addDecls env last (decls.modifyType d.name.name fun n => n.define env d.type) rest
  | .func d :: rest => addDecls env last (addFunc env decls d) rest
  | .var (.mk names t _) :: rest =>
    addDecls env last (decls.addValues .var (t.bind env.resolve) names) rest
  | .const spec@(.mk names _ _) :: rest =>
    let type := constType env last spec
    addDecls env type (decls.addValues .const type names) rest

/-- What a file means for the types of its package. -/
def typeEnv (decls : Declarations) (names : Std.TreeMap String String) (file : SourceFile) :
    TypeEnv :=
  { package := decls.name
    path := decls.path
    localTypes := decls.localTypes
    imports := Imports.ofFile names file }

/-- The declarations of a package, where `names` gives the names of known packages by their
paths. -/
def ofPackage (names : Std.TreeMap String String) (package : Package) : Declarations :=
  let start : Declarations :=
    { name := package.name
      path := package.path
      localTypes := package.files.foldl (fun known file => localTypesOf known file.decls) ∅ }
  package.files.foldl
    (fun decls file => addDecls (start.typeEnv names file) none decls file.decls) start

end Declarations

end GoCalls
