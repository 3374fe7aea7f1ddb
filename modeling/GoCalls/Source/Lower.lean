import GoCalls.Source.Tree
import GoCalls.Syntax
import GoCalls.Text.Blank

/-!
# From parse trees to syntax

Lowering takes a parse tree to the syntax that the analyses work on. Each identifier and each
selector gets a number of its own. The body of a loop is lowered before its header; all else in the
order of the text, and a selector takes its number before its operand. A node of a kind without a
rule of its own is lowered to its parts.

Each statement, expression and type is one level of nesting, for which a counter goes up and down
again. A node below `maxNesting` levels is left out, and lowering goes on after it; the place of the
first such node is kept. The left operands of binary operators make no levels: a loop walks down to
the leftmost one.

* `Lowering`: a computation that draws numbers and counts levels.
* `typeRule`, `exprRule`, `stmtRule`: the syntax of a node, given how nodes below it are lowered.
* `ParseTree.lower`: the rules tied together.
* `lowerFile`: the syntax of a file.
-/

namespace GoCalls

/-- How many levels of statements, expressions and types may lie within each other. -/
def maxNesting : Nat := 500

/-- The state of lowering. -/
structure Lowerer where
  /-- The next number. -/
  next : Nat
  /-- The levels around the node that is lowered. -/
  depth : Nat := 0
  /-- The place of the first node that lies too deep. -/
  tooDeep : Option Spot := none

abbrev Lowering := StateM Lowerer

namespace Lowering

/-- The next number. -/
def fresh : Lowering Nat := modifyGet fun s => (s.next, { s with next := s.next + 1 })

/-- A name with the next number. -/
def ident (name : String) : Lowering Ident := return ⟨← fresh, name⟩

/-- Enter a level at a node, unless it lies too deep. -/
def descend (spot : Spot) : Lowering Bool := modifyGet fun s =>
  if maxNesting ≤ s.depth then (false, { s with tooDeep := s.tooDeep <|> some spot })
  else (true, { s with depth := s.depth + 1 })

/-- Leave a level. -/
def ascend : Lowering Unit := modify fun s => { s with depth := s.depth - 1 }

/-- Lower a node one level down. For one that lies too deep stands `stub`. -/
def nested {α : Type} (spot : Spot) (stub : α) (body : Lowering α) : Lowering α := do
  if ← descend spot then
    let a ← body
    ascend
    return a
  else return stub

end Lowering

open Lowering ParseTree

/-- What a node is lowered to, as a type, as an expression and as a statement. -/
structure Lowered where
  type : Lowering TypeExpr
  expr : Lowering Expr
  stmt : Lowering Stmt

section Rules

variable {root : ParseTree} (lower : root.Below → Lowered)

/-! ## Types -/

/-- The type of a node, which may be absent. -/
def typeOr : Option root.Below → Lowering TypeExpr
  | some t => (lower t).type
  | none => return .unknown

def type? (t : Option root.Below) : Lowering (Option TypeExpr) := t.mapM fun t => (lower t).type

def types (ts : List root.Below) : Lowering (List TypeExpr) := ts.mapM fun t => (lower t).type

/-- The identifiers in the field for names. -/
def idents (parts : List root.Below) : Lowering (List Ident) :=
  (fieldNodes parts .name).mapM fun t => ident t.text

/-- A group of parameters: first its names, then its type. -/
def param (t : root.Below) : Lowering Field := do
  let names ← idents t.parts
  let type ← typeOr lower (field? t.parts .type)
  return ⟨names, if t.kind = .variadicParameterDeclaration then .ellipsis type else type⟩

/-- The groups in a list of parameters. -/
def paramNodes (list : root.Below) : List root.Below :=
  (named list.parts).filter fun t =>
    t.kind = .parameterDeclaration || t.kind = .variadicParameterDeclaration

/-- A list of parameters. -/
def params (list : root.Below) : Lowering (List Field) := (paramNodes list).mapM (param lower)

/-- A list of parameters, which may be absent. -/
def paramsOr : Option root.Below → Lowering (List Field)
  | some list => params lower list
  | none => return []

/-- The results of a function: a list of parameters or one type. -/
def results (parts : List root.Below) : Lowering (List Field) :=
  match field? parts .result with
  | some t =>
    if t.kind = .parameterList then params lower t
    else return [⟨[], ← (lower t).type⟩]
  | none => return []

/-- The types of a list of parameters, one for each name. -/
def fieldTypes (fields : List Field) : List TypeExpr :=
  fields.flatMap fun f => List.replicate (max f.names.length 1) f.type

/-- The declarations of fields in a struct type. -/
def fieldDeclarations (parts : List root.Below) : List root.Below :=
  ((named parts).filter fun t => t.kind = .fieldDeclarationList).flatMap fun list =>
    (named list.parts).filter fun t => t.kind = .fieldDeclaration

/-- The fields of a declaration. Without names it is an embedded field, perhaps behind a pointer. -/
def structFields (t : root.Below) : Lowering (List StructField) := do
  let type ← typeOr lower (field? t.parts .type)
  match fieldNodes t.parts .name with
  | [] => return [.mk none (if hasMark t.parts "*" then .pointer type else type)]
  | names => return names.map fun n => .mk (some n.text) type

/-- The names of the methods that an interface type lists. -/
def methodNames (parts : List root.Below) : List String :=
  ((named parts).filter fun t => t.kind = .methodElem || t.kind = .methodSpec).filterMap fun t =>
    (field? t.parts .name).map fun n => n.text

/-- The type that the node `root` is. -/
def typeRule : Lowering TypeExpr :=
  let parts := root.parts
  match root.kind with
  | .typeIdentifier | .identifier => return .name none root.text
  | .qualifiedType =>
    return .name ((field? parts .package).map fun t => t.text)
      (((field? parts .name).map fun t => t.text).getD "")
  | .genericType => typeOr lower (field? parts .type)
  | .pointerType => return .pointer (← typeOr lower (named parts).head?)
  | .parenthesizedType => typeOr lower (named parts).head?
  | .sliceType => return .slice (← typeOr lower (field? parts .element))
  | .arrayType | .implicitLengthArrayType =>
    return .array (← typeOr lower (field? parts .element))
  | .mapType => do
    let key ← typeOr lower (field? parts .key)
    return .map key (← typeOr lower (field? parts .value))
  | .channelType => return .chan (← typeOr lower (field? parts .value))
  | .functionType => do
    let params ← paramsOr lower (field? parts .parameters)
    let results ← results lower parts
    return .func (fieldTypes params) (fieldTypes results)
  | .structType => return .struct (← (fieldDeclarations parts).mapM (structFields lower)).flatten
  | .interfaceType => return .interface (methodNames parts)
  | _ => return .unknown

/-! ## Expressions -/

/-- The expression of a node, which may be absent. -/
def exprOr : Option root.Below → Lowering Expr
  | some t => (lower t).expr
  | none => return .other []

def expr? (t : Option root.Below) : Lowering (Option Expr) := t.mapM fun t => (lower t).expr

def exprs (ts : List root.Below) : Lowering (List Expr) := ts.mapM fun t => (lower t).expr

/-- The expressions in a node, which may be absent. -/
def exprsIn : Option root.Below → Lowering (List Expr)
  | some t => exprs lower (named t.parts)
  | none => return []

/-- A list of expressions, or one expression. -/
def exprList (t : root.Below) : Lowering (List Expr) :=
  if t.kind = .expressionList then exprs lower (named t.parts) else return [← (lower t).expr]

/-- A list of expressions, which may be absent. -/
def exprListOr : Option root.Below → Lowering (List Expr)
  | some t => exprList lower t
  | none => return []

/-- The nodes of a sequence of statements, without the lists around some of them. -/
def statementNodes (t : root.Below) : List root.Below :=
  if t.kind = .statementList then (named t.parts).attach.flatMap fun u => statementNodes u.1
  else [t]
termination_by sizeOf t.tree
decreasing_by exact Below.sizeOf_lt_of_mem_parts (mem_of_mem_named u.2)

def stmts (ts : List root.Below) : Lowering (List Stmt) :=
  (ts.flatMap statementNodes).mapM fun t => (lower t).stmt

/-- The statements of a block, which may be absent. -/
def blockOr : Option root.Below → Lowering (List Stmt)
  | some t => stmts lower (named t.parts)
  | none => return []

/-- The leftmost operand of binary operators, and the right ones, of which the last comes first. -/
def spine (rights : List (Option root.Below)) :
    Option root.Below → List (Option root.Below) × Option root.Below
  | none => (rights, none)
  | some t =>
    if t.kind = .binaryExpression then
      match _h : field? t.parts .left with
      | some left => spine (field? t.parts .right :: rights) (some left)
      | none => (field? t.parts .right :: rights, none)
    else (rights, some t)
termination_by left => (left.map fun t => sizeOf t.tree).getD 0
decreasing_by exact Below.sizeOf_lt_of_mem_parts (mem_of_field? _h)

/-- The chain of binary operators at the node `root`: its leftmost operand, then the right ones in
the order of the text. -/
def chain : Lowering Expr := do
  let (rights, left) := spine [field? root.parts .right] (field? root.parts .left)
  let first ← exprOr lower left
  return .binary (first :: (← rights.mapM (exprOr lower)))

/-- The operator that a mark stands for. -/
def UnaryOp.ofKind : Option Kind → UnaryOp
  | some (.mark "&") => .addr
  | some (.mark "*") => .deref
  | some (.mark "<-") => .recv
  | _ => .other

/-- The expression that the node `root` is, where `self` is the type that it is. -/
def exprRule (self : Lowering TypeExpr) : Lowering Expr :=
  let parts := root.parts
  match root.kind with
  | .identifier | .fieldIdentifier | .packageIdentifier | .constant =>
    return .ident (← ident root.text)
  | .literal kind => return .lit kind
  | .selectorExpression => do
    let id ← fresh
    let x ← exprOr lower (field? parts .operand)
    return .selector id x (← ident (((field? parts .field).map fun t => t.text).getD ""))
  | .callExpression => do
    let fn ← exprOr lower (field? parts .function)
    return .call fn (← exprsIn lower (field? parts .arguments))
  | .typeConversionExpression => do
    let type ← typeOr lower (field? parts .type)
    return .call (.type type) (← expr? lower (field? parts .operand)).toList
  | .funcLiteral => do
    let params ← paramsOr lower (field? parts .parameters)
    let results ← results lower parts
    return .func params results (← blockOr lower (field? parts .body))
  | .compositeLiteral => do
    let type ← type? lower (field? parts .type)
    return .composite type (← exprsIn lower (field? parts .body))
  | .literalValue => return .composite none (← exprs lower (named parts))
  | .literalElement => exprOr lower (named parts).head?
  | .keyedElement =>
    match named parts with
    | key :: value :: _ => do
      let key ← (lower key).expr
      return .keyValue key (← (lower value).expr)
    | ts => return .other (← exprs lower ts)
  | .unaryExpression => do
    let op := UnaryOp.ofKind ((field? parts .operator).map fun t => t.kind)
    return .unary op (← exprOr lower (field? parts .operand))
  | .binaryExpression => chain lower
  | .indexExpression => do
    let x ← exprOr lower (field? parts .operand)
    return .index x (← exprs lower (fieldNodes parts .index))
  | .sliceExpression => do
    let x ← exprOr lower (field? parts .operand)
    return .slice x (← exprs lower ([FieldName.start, .stop, .capacity].filterMap (field? parts)))
  | .typeAssertionExpression => do
    let x ← exprOr lower (field? parts .operand)
    return .typeAssert x (← type? lower (field? parts .type))
  | .parenthesizedExpression => return .paren (← exprOr lower (named parts).head?)
  | kind =>
    if kind.isType then return .type (← self) else return .other (← exprs lower (named parts))

/-! ## Statements -/

def stmt? (t : Option root.Below) : Lowering (Option Stmt) := t.mapM fun t => (lower t).stmt

/-- The specifications of the given kind at or below a node, through lists of them. -/
def specNodes (kind : Kind) (isList : Kind → Bool) (t : root.Below) : List root.Below :=
  if t.kind = kind then [t]
  else if isList t.kind then (named t.parts).attach.flatMap fun u => specNodes kind isList u.1
  else []
termination_by sizeOf t.tree
decreasing_by exact Below.sizeOf_lt_of_mem_parts (mem_of_mem_named u.2)

/-- Names that are declared together: first the names, then the type and the values. -/
def valueSpec (t : root.Below) : Lowering ValueSpec := do
  let names ← idents t.parts
  let type ← type? lower (field? t.parts .type)
  return .mk names type (← exprListOr lower (field? t.parts .value))

/-- The specifications of the given kind in a declaration with the given parts. -/
def valueSpecs (kind : Kind) (parts : List root.Below) : Lowering (List ValueSpec) :=
  ((named parts).flatMap (specNodes kind Kind.isSpecList)).mapM (valueSpec lower)

/-- The clauses of one of the given kinds. -/
def clauseNodes (kind : Kind) (parts : List root.Below) : List root.Below :=
  (named parts).filter fun t => t.kind = kind || t.kind = .defaultCase

def clause (t : root.Below) : Lowering Clause := do
  let exprs ← exprListOr lower (field? t.parts .value)
  return .mk exprs (← stmts lower (unfielded t.parts))

def typeClause (t : root.Below) : Lowering TypeClause := do
  let types ← types lower (fieldNodes t.parts .type)
  return .mk types (← stmts lower (unfielded t.parts))

def commClause (t : root.Below) : Lowering CommClause := do
  let comm ← stmt? lower (field? t.parts .communication)
  return .mk comm (← stmts lower (unfielded t.parts))

/-- A loop, the body of which is lowered first. -/
def forStmt (parts : List root.Below) : Lowering Stmt := do
  let body ← blockOr lower (field? parts .body)
  match (unfielded parts).head? with
  | some header =>
    if header.kind = .rangeClause then
      let targets ← exprListOr lower (field? header.parts .left)
      let x ← exprOr lower (field? header.parts .right)
      return .range targets[0]? targets[1]? (hasMark header.parts ":=") x body
    else if header.kind = .forClause then
      let init ← stmt? lower (field? header.parts .initializer)
      let cond ← expr? lower (field? header.parts .condition)
      return .loop init cond (← stmt? lower (field? header.parts .update)) body
    else return .loop none (some (← (lower header).expr)) none body
  | none => return .loop none none none body

/-- The identifier that a type switch binds, in the header with the given parts. -/
def bindingNode? (guarded : Bool) (header : List root.Below) : Option root.Below :=
  match field? header .alias with
  | some t => (named t.parts ++ [t]).find? fun u => u.kind = .identifier
  | none =>
    if guarded && hasMark header ":=" then
      (named header).find? fun u => u.kind = .identifier
    else none

def typeSwitch (parts : List root.Below) : Lowering Stmt := do
  let init ← stmt? lower (field? parts .initializer)
  let guard := (named parts).find? fun t => t.kind = .typeSwitchGuard
  let header := (guard.map Below.parts).getD parts
  let binding ← (bindingNode? guard.isSome header).mapM fun t => ident t.text
  let subject ← exprOr lower
    (field? header .value <|> guard.bind fun t => (named t.parts).getLast?)
  return .typeSwitch init binding subject
    (← (clauseNodes .typeCase parts).mapM (typeClause lower))

/-- The statement that the node `root` is. -/
def stmtRule : Lowering Stmt :=
  let parts := root.parts
  match root.kind with
  | .expressionStatement =>
    match (named parts).head? with
    | some t => return .expr (← (lower t).expr)
    | none => return .other []
  | .assignmentStatement | .shortVarDeclaration => do
    let lhs ← exprListOr lower (field? parts .left)
    let rhs ← exprListOr lower (field? parts .right)
    return .assign lhs rhs (root.kind = .shortVarDeclaration)
  | .varDeclaration => return .declare (← valueSpecs lower .varSpec parts)
  | .constDeclaration => return .declare (← valueSpecs lower .constSpec parts)
  | .goStatement => return .go (← exprOr lower (named parts).head?)
  | .deferStatement => return .defer (← exprOr lower (named parts).head?)
  | .returnStatement => return .ret (← exprListOr lower (named parts).head?)
  | .block => return .block (← stmts lower (named parts))
  | .ifStatement => do
    let init ← stmt? lower (field? parts .initializer)
    let cond ← exprOr lower (field? parts .condition)
    let body ← blockOr lower (field? parts .consequence)
    return .ifThen init cond body (← stmt? lower (field? parts .alternative))
  | .forStatement => forStmt lower parts
  | .expressionSwitchStatement => do
    let init ← stmt? lower (field? parts .initializer)
    let tag ← expr? lower (field? parts .value)
    return .switch init tag (← (clauseNodes .expressionCase parts).mapM (clause lower))
  | .typeSwitchStatement => typeSwitch lower parts
  | .selectStatement =>
    return .select (← (clauseNodes .communicationCase parts).mapM (commClause lower))
  | .sendStatement => do
    let chan ← exprOr lower (field? parts .channel)
    return .send chan (← exprOr lower (field? parts .value))
  | .receiveStatement => do
    let lhs ← exprListOr lower (field? parts .left)
    let rhs ← expr? lower (field? parts .right)
    return .assign lhs rhs.toList (hasMark parts ":=")
  | .incStatement | .decStatement => return .incDec (← exprOr lower (named parts).head?)
  | .labeledStatement =>
    match (unfielded parts).head? with
    | some t => return .labeled (← (lower t).stmt)
    | none => return .other []
  | _ =>
    return .other (← exprs lower ((named parts).filter fun t =>
      t.kind ≠ .labelName && t.kind ≠ .typeDeclaration))

end Rules

/-- The rules tied together. -/
def ParseTree.lower (root : ParseTree) : Lowered :=
  let below (t : root.Below) : Lowered := t.tree.lower
  let type := nested root.spot .unknown (typeRule below)
  { type
    expr := nested root.spot (.other []) (exprRule below type)
    stmt := nested root.spot (.other []) (stmtRule below) }
termination_by sizeOf root
decreasing_by exact t.isBelow.sizeOf_lt

/-! ## Files -/

section Files

variable {root : ParseTree} (lower : root.Below → Lowered)

/-- A function declaration. Of the receivers only the first name of the first group counts. -/
def funcDecl? (t : root.Below) : Lowering (Option FuncDecl) :=
  match field? t.parts .name with
  | none => return none
  | some n => do
    let name ← ident n.text
    let recv ← paramsOr lower (field? t.parts .receiver)
    let params ← paramsOr lower (field? t.parts .parameters)
    let results ← results lower t.parts
    let body ← (field? t.parts .body).mapM fun b => stmts lower (named b.parts)
    return some
      { name, recv := recv.head?.map fun f => ⟨f.names.head?, f.type⟩, params, results, body }

def typeSpec? (t : root.Below) : Lowering (Option TypeDecl) :=
  if t.kind = .typeSpec || t.kind = .typeAlias then
    match field? t.parts .name with
    | none => return none
    | some n => do
      let name ← ident n.text
      let type ← typeOr lower (field? t.parts .type)
      return some ⟨name, type, t.kind = .typeAlias⟩
  else return none

/-- The declarations of a node at top level. -/
def declarations (t : root.Below) : Lowering (List Decl) :=
  match t.kind with
  | .functionDeclaration | .methodDeclaration =>
    return ((← funcDecl? lower t).map Decl.func).toList
  | .typeDeclaration =>
    return (← (named t.parts).mapM (typeSpec? lower)).reduceOption.map Decl.type
  | .varDeclaration => return (← valueSpecs lower .varSpec t.parts).map Decl.var
  | .constDeclaration => return (← valueSpecs lower .constSpec t.parts).map Decl.const
  | _ => return []

/-- The name in a package clause. -/
def packageName? (t : root.Below) : Option String :=
  if t.kind = .packageClause then (named t.parts).head?.map fun n => n.text else none

/-- The path that an import names, without the quotes around it, and its name in the file. -/
def importSpec? (t : root.Below) : Option Import :=
  (field? t.parts .path).map fun path =>
    { localName := (field? t.parts .name).map fun n => n.text
      path := String.ofList (Text.strip (fun c => c = '"' || c = '\x60') path.text.toList) }

/-- The imports of a node at top level. -/
def importSpecs (t : root.Below) : List Import :=
  if t.kind = .importDeclaration then
    ((named t.parts).flatMap (specNodes .importSpec (· = .importSpecList))).filterMap importSpec?
  else []

end Files

/-- The syntax of the file at `path`. The last package clause counts. -/
def ParseTree.file (path : OsString) (root : ParseTree) : Lowering SourceFile := do
  let parts := named root.parts
  let decls ← parts.mapM (declarations fun t => t.tree.lower)
  return {
    path
    package := ((parts.filterMap packageName?).getLast?).getD ""
    imports := parts.flatMap importSpecs
    decls := decls.flatten }

/-- The syntax of a file, or the first node that lies too deep, and the first number that is not
used. -/
def lowerFile (path : OsString) (tree : ParseTree) (next : Nat) : Except Spot SourceFile × Nat :=
  let (file, s) := (tree.file path).run { next }
  match s.tooDeep with
  | none => (.ok file, s.next)
  | some spot => (.error spot, s.next)

end GoCalls
