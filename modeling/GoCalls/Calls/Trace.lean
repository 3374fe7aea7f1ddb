import GoCalls.Calls.Callee
import GoCalls.Graph

/-!
# The calls in a body

The calls in a body are traced in order, each as one edge. A function literal is entered only where
it is assigned to a variable: it is then a routine with a name of its own, and the variable is bound
to it from there on. So calls depend on the bindings before them.

* `Context.afterStmt`: the bindings after a statement.
* `exprEdges`: the calls in an expression.
* `stmtTrace`: the calls and closures in a statement.
-/

namespace GoCalls

/-! ## Bindings -/

/-- The context after one value of an assignment. -/
def Context.afterValue (ctx : Context) : Expr → Expr → Context
  | .ident var, .func _ _ _ => ctx.bind var.name (ctx.scopedName var.name)
  | _, _ => ctx

/-- The context after an assignment. -/
def Context.afterAssign (ctx : Context) : List Expr → List Expr → Context
  | x :: xs, value :: values => (ctx.afterValue x value).afterAssign xs values
  | _, _ => ctx

mutual

/-- The context after a statement. -/
def Context.afterStmt (ctx : Context) : Stmt → Context
  | .assign lhs rhs _ => ctx.afterAssign lhs rhs
  | .block body => ctx.afterStmts body
  | .ifThen init _ body orElse => ((ctx.afterStmt? init).afterStmts body).afterStmt? orElse
  | .loop init _ post body => ((ctx.afterStmt? init).afterStmt? post).afterStmts body
  | .range _ _ _ _ body => ctx.afterStmts body
  | .switch init _ clauses => (ctx.afterStmt? init).afterClauses clauses
  | .typeSwitch init _ _ clauses => (ctx.afterStmt? init).afterTypeClauses clauses
  | .select clauses => ctx.afterCommClauses clauses
  | .labeled body => ctx.afterStmt body
  | .expr _ | .incDec _ | .declare _ | .go _ | .defer _ | .ret _ | .send _ _ | .other _ => ctx

def Context.afterStmts (ctx : Context) : List Stmt → Context
  | [] => ctx
  | s :: ss => (ctx.afterStmt s).afterStmts ss

def Context.afterStmt? (ctx : Context) : Option Stmt → Context
  | none => ctx
  | some s => ctx.afterStmt s

def Context.afterClauses (ctx : Context) : List Clause → Context
  | [] => ctx
  | .mk _ body :: clauses => (ctx.afterStmts body).afterClauses clauses

def Context.afterTypeClauses (ctx : Context) : List TypeClause → Context
  | [] => ctx
  | .mk _ body :: clauses => (ctx.afterStmts body).afterTypeClauses clauses

def Context.afterCommClauses (ctx : Context) : List CommClause → Context
  | [] => ctx
  | .mk comm body :: clauses => ((ctx.afterStmt? comm).afterStmts body).afterCommClauses clauses

end

/-! ## Calls in expressions -/

/-- The edge of a call of `fn`, which is a direct one unless a statement or a closure says
otherwise. -/
def callEdges (tables : Option Tables) (ctx : Context) (kind : Option CallKind) (fn : Expr) :
    List Edge :=
  match callee? tables ctx fn with
  | some callee =>
    if ctx.scope = "" then []
    else [⟨ctx.scope, callee.name, kind.getD (if callee.viaBinding then .closure else .direct)⟩]
  | none => []

mutual

/-- The calls in an expression: a call comes before those in its parts. -/
def exprEdges (tables : Option Tables) (ctx : Context) : Expr → List Edge
  | .call fn args =>
    callEdges tables ctx none fn ++ exprEdges tables ctx fn ++ exprsEdges tables ctx args
  | .func _ _ _ | .ident _ | .lit _ | .type _ => []
  | .selector _ x _ | .unary _ x | .paren x | .typeAssert x _ => exprEdges tables ctx x
  | .composite _ parts | .binary parts | .other parts => exprsEdges tables ctx parts
  | .keyValue key value => exprEdges tables ctx key ++ exprEdges tables ctx value
  | .index x parts | .slice x parts => exprEdges tables ctx x ++ exprsEdges tables ctx parts

def exprsEdges (tables : Option Tables) (ctx : Context) : List Expr → List Edge
  | [] => []
  | x :: xs => exprEdges tables ctx x ++ exprsEdges tables ctx xs

end

/-- The calls in the operand of a `go` or `defer` statement. -/
def operandEdges (tables : Option Tables) (ctx : Context) (kind : CallKind) : Expr → List Edge
  | .call fn args =>
    callEdges tables ctx (some kind) fn ++ exprEdges tables ctx fn ++ exprsEdges tables ctx args
  | .paren x => operandEdges tables ctx kind x
  | x => exprEdges tables ctx x

/-- The calls in local declarations. -/
def specsEdges (tables : Option Tables) (ctx : Context) : List ValueSpec → List Edge
  | [] => []
  | .mk _ _ values :: specs => exprsEdges tables ctx values ++ specsEdges tables ctx specs

/-! ## Calls in statements -/

/-- A trace of edges alone. -/
def Trace.ofEdges (edges : List Edge) : Trace := { edges }

mutual

/-- The calls and closures in a statement. -/
def stmtTrace (tables : Option Tables) (ctx : Context) : Stmt → Trace
  | .expr x | .incDec x => .ofEdges (exprEdges tables ctx x)
  | .assign lhs rhs _ =>
    let after := ctx.afterAssign lhs rhs
    closuresTrace tables ctx lhs rhs ++
      .ofEdges (exprsEdges tables after lhs ++ exprsEdges tables after rhs)
  | .declare specs => .ofEdges (specsEdges tables ctx specs)
  | .go x => .ofEdges (operandEdges tables ctx .go x)
  | .defer x => .ofEdges (operandEdges tables ctx .defer x)
  | .ret xs | .other xs => .ofEdges (exprsEdges tables ctx xs)
  | .block body => stmtsTrace tables ctx body
  | .ifThen init cond body orElse =>
    let inner := ctx.afterStmt? init
    stmt?Trace tables ctx init ++ .ofEdges (exprEdges tables inner cond) ++
      stmtsTrace tables inner body ++ stmt?Trace tables (inner.afterStmts body) orElse
  | .loop init cond post body =>
    let inner := ctx.afterStmt? init
    stmt?Trace tables ctx init ++ .ofEdges (exprsEdges tables inner cond.toList) ++
      stmt?Trace tables inner post ++ stmtsTrace tables (inner.afterStmt? post) body
  | .range key value _ x body =>
    .ofEdges (exprsEdges tables ctx key.toList ++ exprsEdges tables ctx value.toList ++
        exprEdges tables ctx x) ++
      stmtsTrace tables ctx body
  | .switch init tag clauses =>
    let inner := ctx.afterStmt? init
    stmt?Trace tables ctx init ++ .ofEdges (exprsEdges tables inner tag.toList) ++
      clausesTrace tables inner clauses
  | .typeSwitch init _ subject clauses =>
    let inner := ctx.afterStmt? init
    stmt?Trace tables ctx init ++ .ofEdges (exprEdges tables inner subject) ++
      typeClausesTrace tables inner clauses
  | .select clauses => commClausesTrace tables ctx clauses
  | .send chan value => .ofEdges (exprEdges tables ctx chan ++ exprEdges tables ctx value)
  | .labeled body => stmtTrace tables ctx body

def stmtsTrace (tables : Option Tables) (ctx : Context) : List Stmt → Trace
  | [] => {}
  | s :: ss => stmtTrace tables ctx s ++ stmtsTrace tables (ctx.afterStmt s) ss

def stmt?Trace (tables : Option Tables) (ctx : Context) : Option Stmt → Trace
  | none => {}
  | some s => stmtTrace tables ctx s

/-- The closures that an assignment gives to variables, with what their bodies hold. -/
def closuresTrace (tables : Option Tables) (ctx : Context) : List Expr → List Expr → Trace
  | x :: xs, value :: values =>
    closureTrace tables ctx x value ++ closuresTrace tables (ctx.afterValue x value) xs values
  | _, _ => {}

/-- The closure that a value gives to a variable. Its body sees the variable. -/
def closureTrace (tables : Option Tables) (ctx : Context) : Expr → Expr → Trace
  | .ident var, .func _ _ body =>
    let name := ctx.scopedName var.name
    { nodes := [name] } ++ stmtsTrace tables ((ctx.bind var.name name).enter name) body
  | _, _ => {}

def clausesTrace (tables : Option Tables) (ctx : Context) : List Clause → Trace
  | [] => {}
  | .mk exprs body :: clauses =>
    .ofEdges (exprsEdges tables ctx exprs) ++ stmtsTrace tables ctx body ++
      clausesTrace tables (ctx.afterStmts body) clauses

def typeClausesTrace (tables : Option Tables) (ctx : Context) : List TypeClause → Trace
  | [] => {}
  | .mk _ body :: clauses =>
    stmtsTrace tables ctx body ++ typeClausesTrace tables (ctx.afterStmts body) clauses

def commClausesTrace (tables : Option Tables) (ctx : Context) : List CommClause → Trace
  | [] => {}
  | .mk comm body :: clauses =>
    let inner := ctx.afterStmt? comm
    stmt?Trace tables ctx comm ++ stmtsTrace tables inner body ++
      commClausesTrace tables (inner.afterStmts body) clauses

end

end GoCalls
