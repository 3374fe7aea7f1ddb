import GoCalls.Typing.Scope

/-!
# Checking a package

Checking visits the initial values and the function bodies of a package, with the scopes that are
open at each place, and records what identifiers and selectors stand for. What is unknown stays
unknown, and is never an error.

* `Visit`: the open scopes and the tables so far.
* `visitExpr`, `visitStmt`: an expression, with its type if that is known, and a statement.
* `Index.check`: the tables of a package.
-/

namespace GoCalls

/-- The open scopes, the innermost first, and the tables so far. -/
structure Visit where
  scopes : List Scope := []
  tables : Tables := {}

namespace Visit

/-- Record what an identifier stands for. -/
def use (id : Nat) (symbol : Symbol) : StateM Visit Unit :=
  modify fun v => { v with tables := v.tables.recordUse id symbol }

/-- Record what a selector picks. -/
def select (id : Nat) (selection : Selection) : StateM Visit Unit :=
  modify fun v => { v with tables := v.tables.recordSelection id selection }

/-- Run `body` in a new scope. -/
def inScope {α : Type} (body : StateM Visit α) : StateM Visit α := do
  modify fun v => { v with scopes := [] :: v.scopes }
  let a ← body
  modify fun v => { v with scopes := v.scopes.tail }
  return a

/-- Declare a variable in the innermost scope. The blank name declares nothing. -/
def declare (env : FileEnv) (name : String) (type : Option Ty) : StateM Visit Unit :=
  if name = "_" then pure ()
  else modify fun v =>
    match v.scopes with
    | scope :: outer =>
      { v with scopes := ((name, ⟨name, some env.decls.name, .var, type⟩) :: scope) :: outer }
    | [] => v

/-- Declare variables of one type. -/
def declareAll (env : FileEnv) (type : Option Ty) : List Ident → StateM Visit Unit
  | [] => pure ()
  | i :: is => do
    declare env i.name type
    declareAll env type is

/-- Declare parameters or results. -/
def declareFields (env : FileEnv) : List Field → StateM Visit Unit
  | [] => pure ()
  | f :: fs => do
    declareAll env (env.resolve f.type) f.names
    declareFields env fs

/-- Declare variables with the given types, or with one type if that is known. -/
def declareValues (env : FileEnv) (type : Option Ty) :
    List Ident → List (Option Ty) → StateM Visit Unit
  | [], _ => pure ()
  | i :: is, types => do
    declare env i.name (type <|> types.head?.join)
    declareValues env type is types.tail

/-- Does the innermost scope declare a name? -/
def declaredHere (name : String) : StateM Visit Bool :=
  return ((← get).scopes.head?.bind (·.lookup name)).isSome

end Visit

open Visit

mutual

/-- Visit an expression; its type is given if it is known. -/
def visitExpr (env : FileEnv) : Expr → StateM Visit (Option Ty)
  | .ident i => do
    match env.lookup (← get).scopes i.name with
    | some symbol =>
      use i.id symbol
      return symbol.type
    | none => return none
  | .selector id x sel => do
    let scopes := (← get).scopes
    match x.ident?.bind fun i => (env.packagePath? scopes i.name).map (i, ·) with
    | some (i, path) =>
      match env.lookup scopes i.name with
      | some symbol => use i.id symbol
      | none => pure ()
      match env.index.member? path sel.name with
      | some member =>
        use sel.id member
        return member.type
      | none => return none
    | none =>
      let denoted := env.denotedType scopes x
      let operand ← visitExpr env x
      match denoted <|> operand with
      | some recv =>
        Visit.select id ⟨recv, sel.name⟩
        return env.index.memberType recv sel.name
      | none => return none
  | .call fn args => do
    let scopes := (← get).scopes
    let conversion := env.denotedType scopes fn
    let builtin := do
      let symbol ← env.lookup scopes (← fn.ident?).name
      if symbol.kind = .builtin then some symbol.name else none
    let fnType ← visitExpr env fn
    let argTypes ← visitExprs env args
    match conversion, builtin with
    | some t, _ => return some t
    | none, some name => return Universe.builtinResult name argTypes
    | none, none => return env.callResult fnType
  | .func params results body => do
    inScope do
      declareFields env params
      declareFields env results
      visitStmts env body
    return some (env.typeEnv.signature results)
  | .composite type elements => do
    let _ ← visitExprs env elements
    return type.bind env.resolve
  | .keyValue key value => do
    -- A plain identifier as a key names a field.
    if key.ident?.isNone then
      let _ ← visitExpr env key
    let _ ← visitExpr env value
    return none
  | .unary op x => do
    let t ← visitExpr env x
    match op, t.map env.index.underlying with
    | .addr, _ => return t.map .pointer
    | .deref, some (.pointer target) => return some target
    | .recv, some (.chan elem) => return some elem
    | .other, _ => return t
    | _, _ => return none
  | .binary operands => do
    return (← visitExprs env operands).head?.join
  | .index x indices => do
    let t ← visitExpr env x
    let _ ← visitExprs env indices
    return t.bind env.elementType
  | .slice x bounds => do
    let t ← visitExpr env x
    let _ ← visitExprs env bounds
    return t
  | .typeAssert x type => do
    let _ ← visitExpr env x
    return type.bind env.resolve
  | .paren x => visitExpr env x
  | .lit kind => return some kind.type
  | .type t => return env.resolve t
  | .other parts => do
    let _ ← visitExprs env parts
    return none

/-- Visit expressions in order. -/
def visitExprs (env : FileEnv) : List Expr → StateM Visit (List (Option Ty))
  | [] => return []
  | x :: xs => do
    let t ← visitExpr env x
    return t :: (← visitExprs env xs)

def visitExpr? (env : FileEnv) : Option Expr → StateM Visit (Option Ty)
  | none => return none
  | some x => visitExpr env x

/-- Visit the targets of a definition. A new name is declared, with its type; all else is used. -/
def visitTargets (env : FileEnv) : List Expr → List (Option Ty) → StateM Visit Unit
  | [], _ => pure ()
  | x :: xs, types => do
    match x.ident? with
    | some i =>
      if ← declaredHere i.name then
        let _ ← visitExpr env x
      else declare env i.name types.head?.join
    | none =>
      let _ ← visitExpr env x
    visitTargets env xs types.tail

/-- Visit a statement. -/
def visitStmt (env : FileEnv) : Stmt → StateM Visit Unit
  | .expr x | .go x | .defer x | .incDec x => do
    let _ ← visitExpr env x
  | .assign lhs rhs define => do
    let types ← visitExprs env rhs
    if define then visitTargets env lhs (spreadTypes lhs.length types)
    else
      let _ ← visitExprs env lhs
  | .declare specs => visitSpecs env specs
  | .ret xs | .other xs => do
    let _ ← visitExprs env xs
  | .block body => inScope (visitStmts env body)
  | .ifThen init cond body orElse => inScope do
    visitStmt? env init
    let _ ← visitExpr env cond
    inScope (visitStmts env body)
    visitStmt? env orElse
  | .loop init cond post body => inScope do
    visitStmt? env init
    let _ ← visitExpr? env cond
    visitStmt? env post
    inScope (visitStmts env body)
  | .range key value define x body => do
    let ranged ← visitExpr env x
    inScope do
      if define then
        let (keyType, valueType) := env.rangeTypes ranged
        declareAll env keyType (key.bind Expr.ident?).toList
        declareAll env valueType (value.bind Expr.ident?).toList
      else
        let _ ← visitExpr? env key
        let _ ← visitExpr? env value
      inScope (visitStmts env body)
  | .switch init tag clauses => inScope do
    visitStmt? env init
    let _ ← visitExpr? env tag
    visitClauses env clauses
  | .typeSwitch init binding subject clauses => inScope do
    visitStmt? env init
    let t ← visitExpr env subject
    visitTypeClauses env binding t clauses
  | .select clauses => visitCommClauses env clauses
  | .send chan value => do
    let _ ← visitExpr env chan
    let _ ← visitExpr env value
  | .labeled body => visitStmt env body

/-- Visit statements in order. -/
def visitStmts (env : FileEnv) : List Stmt → StateM Visit Unit
  | [] => pure ()
  | s :: ss => do
    visitStmt env s
    visitStmts env ss

def visitStmt? (env : FileEnv) : Option Stmt → StateM Visit Unit
  | none => pure ()
  | some s => visitStmt env s

/-- Visit the declarations of local variables and constants. -/
def visitSpecs (env : FileEnv) : List ValueSpec → StateM Visit Unit
  | [] => pure ()
  | .mk names type values :: specs => do
    let types ← visitExprs env values
    declareValues env (type.bind env.resolve) names (spreadTypes names.length types)
    visitSpecs env specs

def visitClauses (env : FileEnv) : List Clause → StateM Visit Unit
  | [] => pure ()
  | .mk exprs body :: clauses => do
    let _ ← visitExprs env exprs
    inScope (visitStmts env body)
    visitClauses env clauses

/-- Visit the clauses of a type switch, where the bound variable may have the type of the clause. -/
def visitTypeClauses (env : FileEnv) (binding : Option Ident) (subject : Option Ty) :
    List TypeClause → StateM Visit Unit
  | [] => pure ()
  | .mk types body :: clauses => do
    inScope do
      let t := match types with
        | [t] => env.resolve t
        | _ => subject
      declareAll env t binding.toList
      visitStmts env body
    visitTypeClauses env binding subject clauses

def visitCommClauses (env : FileEnv) : List CommClause → StateM Visit Unit
  | [] => pure ()
  | .mk comm body :: clauses => do
    inScope do
      visitStmt? env comm
      visitStmts env body
    visitCommClauses env clauses

end

/-! ## Packages -/

/-- What is known while a package is checked: the types of variables that their initial values give,
and the tables so far. -/
structure Progress where
  inferred : Std.TreeMap String Ty := ∅
  tables : Tables := {}

/-- Note the types of variables that initial values give. -/
def inferTypes (inferred : Std.TreeMap String Ty) (names : List Ident) (types : List (Option Ty)) :
    Std.TreeMap String Ty :=
  (names.zip types).foldl
    (fun inferred (name, t) =>
      match t with
      | some t => inferred.insert name.name t
      | none => inferred)
    inferred

/-- Visit the initial values of variables or constants at top level. -/
def checkValues (env : FileEnv) (progress : Progress) : ValueSpec → Progress
  | .mk names type values =>
    let env := { env with inferred := progress.inferred }
    let (types, visit) := (visitExprs env values).run { tables := progress.tables }
    let inferred := match type with
      | some _ => progress.inferred
      | none => inferTypes progress.inferred names (spreadTypes names.length types)
    { inferred, tables := visit.tables }

/-- Visit the initial values that a declaration holds. -/
def checkDeclValues (env : FileEnv) (progress : Progress) : Decl → Progress
  | .var spec | .const spec => checkValues env progress spec
  | _ => progress

/-- Visit the body of a function. -/
def visitFunc (env : FileEnv) (func : FuncDecl) (body : List Stmt) : StateM Visit Unit :=
  inScope do
    match func.recv with
    | some recv => declareAll env (env.resolve recv.type) recv.name.toList
    | none => pure ()
    declareFields env func.params
    declareFields env func.results
    visitStmts env body

/-- Visit the function body that a declaration holds. -/
def checkDeclBody (env : FileEnv) (tables : Tables) : Decl → Tables
  | .func func =>
    match func.body with
    | some body => ((visitFunc env func body).run { tables }).2.tables
    | none => tables
  | _ => tables

namespace Index

/-- What is known in all of a file of a package. -/
def fileEnv (index : Index) (decls : Declarations) (inferred : Std.TreeMap String Ty)
    (file : SourceFile) : FileEnv :=
  { index, decls, inferred, imports := Imports.ofFile index.names file }

/-- The tables of a package: first all initial values are visited, then all function bodies. -/
def check (index : Index) (package : Package) : Tables :=
  match index.packages[package.path]? with
  | none => {}
  | some decls =>
    let progress := package.files.foldl
      (fun progress file =>
        file.decls.foldl (checkDeclValues (index.fileEnv decls progress.inferred file)) progress)
      {}
    package.files.foldl
      (fun tables file =>
        file.decls.foldl (checkDeclBody (index.fileEnv decls progress.inferred file)) tables)
      progress.tables

/-- A package with its tables. -/
def annotate (index : Index) (package : Package) : Package :=
  { package with tables := some (index.check package) }

end Index

end GoCalls
