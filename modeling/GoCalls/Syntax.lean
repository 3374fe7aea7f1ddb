import GoCalls.Source.Lexeme
import GoCalls.Text.Bytes

/-!
# The syntax of Go

The syntax that the analyses work on: files, declarations, statements, expressions and types.
Every identifier and every selector carries a number, by which tables of types refer to it.
What the analyses do not need is left out: lengths of arrays, parameters of types, the operators
of binary expressions, whose operands form one list for each chain.

* `TypeExpr`: a type as written.
* `Expr`, `Stmt`: expressions and statements, with the clauses and specifications inside them.
* `Decl`, `SourceFile`: declarations at top level, and a file.
-/

namespace GoCalls

/-- An occurrence of a name, with its number. -/
structure Ident where
  id : Nat
  name : String
  deriving DecidableEq

/-! ## Types as written -/

mutual

/-- A type as written. -/
inductive TypeExpr
  | name (package : Option String) (name : String)
  | pointer (target : TypeExpr)
  | slice (elem : TypeExpr)
  | array (elem : TypeExpr)
  | map (key value : TypeExpr)
  | chan (elem : TypeExpr)
  | func (params results : List TypeExpr)
  | struct (fields : List StructField)
  /-- An interface, with the names of the methods that it lists. -/
  | interface (methods : List String)
  /-- The type of a variadic parameter. -/
  | ellipsis (elem : TypeExpr)
  /-- A type outside the analyses. -/
  | unknown

/-- A field of a struct type; an embedded field has no name. -/
inductive StructField
  | mk (name : Option String) (type : TypeExpr)

end

instance : Inhabited TypeExpr := ⟨.unknown⟩

/-- The name of the type behind any number of pointers. -/
def TypeExpr.baseName : TypeExpr → Option String
  | .name _ n => some n
  | .pointer t => t.baseName
  | _ => none

/-- A group of parameters or results of one type; there may be no name. -/
structure Field where
  names : List Ident
  type : TypeExpr

/-- The receiver of a method. -/
structure Receiver where
  name : Option Ident
  type : TypeExpr

/-- The name of the receiver's type. -/
def Receiver.typeName (recv : Receiver) : Option String := recv.type.baseName

/-! ## Expressions and statements -/

/-- The unary operators that the analyses tell apart. -/
inductive UnaryOp
  | addr
  | deref
  | recv
  | other
  deriving DecidableEq

mutual

inductive Expr
  | ident (ident : Ident)
  | selector (id : Nat) (x : Expr) (sel : Ident)
  | call (fn : Expr) (args : List Expr)
  /-- A function literal. -/
  | func (params results : List Field) (body : List Stmt)
  | composite (type : Option TypeExpr) (elements : List Expr)
  | keyValue (key value : Expr)
  | unary (op : UnaryOp) (x : Expr)
  /-- A chain of binary operators, with the operands along its left spine. -/
  | binary (operands : List Expr)
  | index (x : Expr) (indices : List Expr)
  | slice (x : Expr) (bounds : List Expr)
  | typeAssert (x : Expr) (type : Option TypeExpr)
  | paren (x : Expr)
  | lit (kind : LitKind)
  /-- A type in the place of an expression. -/
  | type (type : TypeExpr)
  /-- Any other construct, with its parts. -/
  | other (parts : List Expr)

inductive Stmt
  | expr (x : Expr)
  | assign (lhs rhs : List Expr) (define : Bool)
  /-- Declarations of local variables and constants. -/
  | declare (specs : List ValueSpec)
  | go (call : Expr)
  | defer (call : Expr)
  | ret (results : List Expr)
  | block (body : List Stmt)
  | ifThen (init : Option Stmt) (cond : Expr) (body : List Stmt) (orElse : Option Stmt)
  | loop (init : Option Stmt) (cond : Option Expr) (post : Option Stmt) (body : List Stmt)
  | range (key value : Option Expr) (define : Bool) (x : Expr) (body : List Stmt)
  | switch (init : Option Stmt) (tag : Option Expr) (clauses : List Clause)
  | typeSwitch (init : Option Stmt) (binding : Option Ident) (subject : Expr)
      (clauses : List TypeClause)
  | select (clauses : List CommClause)
  | send (chan value : Expr)
  | incDec (x : Expr)
  | labeled (body : Stmt)
  /-- Any other construct, with its parts. -/
  | other (parts : List Expr)

/-- Names that are declared together, with their type and values. -/
inductive ValueSpec
  | mk (names : List Ident) (type : Option TypeExpr) (values : List Expr)

/-- A clause of a switch. -/
inductive Clause
  | mk (exprs : List Expr) (body : List Stmt)

/-- A clause of a type switch. -/
inductive TypeClause
  | mk (types : List TypeExpr) (body : List Stmt)

/-- A clause of a select statement; the default clause has no communication. -/
inductive CommClause
  | mk (comm : Option Stmt) (body : List Stmt)

end

instance : Inhabited Expr := ⟨.other []⟩

instance : Inhabited Stmt := ⟨.other []⟩

instance : Inhabited ValueSpec := ⟨.mk [] none []⟩

/-- The identifier that an expression is, if it is one. -/
def Expr.ident? : Expr → Option Ident
  | .ident i => some i
  | _ => none

/-! ## Declarations and files -/

structure FuncDecl where
  name : Ident
  recv : Option Receiver
  params : List Field
  results : List Field
  body : Option (List Stmt)

structure TypeDecl where
  name : Ident
  type : TypeExpr
  /-- Is it a second name for the type? -/
  isAlias : Bool

inductive Decl
  | func (decl : FuncDecl)
  | type (decl : TypeDecl)
  | var (spec : ValueSpec)
  | const (spec : ValueSpec)

structure Import where
  localName : Option String
  path : String
  deriving DecidableEq

structure SourceFile where
  path : OsString
  package : String
  imports : List Import
  decls : List Decl

end GoCalls
