import GoCalls.Proofs.Code
import GoCalls.Typing.Symbol
import Mathlib.Data.List.Nodup

/-!
# Numbers in the syntax

A `Mark` is an identifier or a selector of some syntax, with its number and the name that is written
there. Tables refer to the syntax by numbers, so they make sense where no two marks share one.

* `Expr.marks`, `Stmt.marks`: all marks at any depth, also under function literals, in the order of
  checking.
* `Code.marks`: the marks of a piece of code.
* `Package.marks`, **`Package.UniqueIds`**: the marks of a package, and that their numbers differ.
-/

namespace GoCalls

/-- A name that stands alone, the name that a selector picks, or the selector itself. -/
inductive MarkKind where
  | name
  | member
  | selector
  deriving DecidableEq

/-- An identifier or a selector: its number and the name that it is written with. -/
structure Mark where
  id : Nat
  name : String
  kind : MarkKind
  deriving DecidableEq

def Ident.mark (i : Ident) : Mark := ⟨i.id, i.name, .name⟩

def fieldsMarks (fields : List Field) : List Mark := fields.flatMap fun f => f.names.map Ident.mark

mutual

/-- The marks of an expression. -/
def Expr.marks : Expr → List Mark
  | .ident i => [i.mark]
  | .selector id x sel => x.marks ++ [⟨id, sel.name, .selector⟩, ⟨sel.id, sel.name, .member⟩]
  | .call fn args => fn.marks ++ exprsMarks args
  | .func params results body => fieldsMarks params ++ fieldsMarks results ++ stmtsMarks body
  | .composite _ xs | .binary xs | .other xs => exprsMarks xs
  | .keyValue key value => key.marks ++ value.marks
  | .unary _ x | .paren x | .typeAssert x _ => x.marks
  | .index x xs | .slice x xs => x.marks ++ exprsMarks xs
  | .lit _ | .type _ => []

def exprsMarks : List Expr → List Mark
  | [] => []
  | x :: xs => x.marks ++ exprsMarks xs

def expr?Marks : Option Expr → List Mark
  | none => []
  | some x => x.marks

/-- The marks of a statement. -/
def Stmt.marks : Stmt → List Mark
  | .expr x | .go x | .defer x | .incDec x => x.marks
  | .assign lhs rhs _ => exprsMarks rhs ++ exprsMarks lhs
  | .declare specs => specsMarks specs
  | .ret xs | .other xs => exprsMarks xs
  | .block body => stmtsMarks body
  | .ifThen init cond body orElse =>
    stmt?Marks init ++ cond.marks ++ stmtsMarks body ++ stmt?Marks orElse
  | .loop init cond post body =>
    stmt?Marks init ++ expr?Marks cond ++ stmt?Marks post ++ stmtsMarks body
  | .range key value _ x body => x.marks ++ expr?Marks key ++ expr?Marks value ++ stmtsMarks body
  | .switch init tag clauses => stmt?Marks init ++ expr?Marks tag ++ clausesMarks clauses
  | .typeSwitch init binding subject clauses =>
    binding.toList.map Ident.mark ++ stmt?Marks init ++ subject.marks ++ typeClausesMarks clauses
  | .select clauses => commClausesMarks clauses
  | .send chan value => chan.marks ++ value.marks
  | .labeled body => body.marks

def stmtsMarks : List Stmt → List Mark
  | [] => []
  | s :: ss => s.marks ++ stmtsMarks ss

def stmt?Marks : Option Stmt → List Mark
  | none => []
  | some s => s.marks

def specsMarks : List ValueSpec → List Mark
  | [] => []
  | .mk names _ values :: specs => names.map Ident.mark ++ exprsMarks values ++ specsMarks specs

def clausesMarks : List Clause → List Mark
  | [] => []
  | .mk exprs body :: clauses => exprsMarks exprs ++ stmtsMarks body ++ clausesMarks clauses

def typeClausesMarks : List TypeClause → List Mark
  | [] => []
  | .mk _ body :: clauses => stmtsMarks body ++ typeClausesMarks clauses

def commClausesMarks : List CommClause → List Mark
  | [] => []
  | .mk comm body :: clauses => stmt?Marks comm ++ stmtsMarks body ++ commClausesMarks clauses

end

/-- The marks of a piece of code. -/
def Code.marks : Code → List Mark
  | .expr x | .operand _ x | .target _ x => x.marks
  | .stmt s => s.marks
  | .spec s => specsMarks [s]
  | .block _ body | .closure _ _ body => stmtsMarks body

/-! ## Declarations and packages -/

def FuncDecl.marks (func : FuncDecl) : List Mark :=
  func.name.mark :: (func.recv.bind (·.name)).toList.map Ident.mark ++ fieldsMarks func.params ++
    fieldsMarks func.results ++ stmtsMarks (func.body.getD [])

def Decl.marks : Decl → List Mark
  | .func d => d.marks
  | .type d => [d.name.mark]
  | .var spec | .const spec => specsMarks [spec]

def SourceFile.marks (file : SourceFile) : List Mark := file.decls.flatMap Decl.marks

/-- The marks of all files of a package. -/
def Package.marks (package : Package) : List Mark := package.files.flatMap SourceFile.marks

/-- No two marks share a number. -/
def UniqueIds (marks : List Mark) : Prop := (marks.map (·.id)).Nodup

theorem UniqueIds.eq {marks : List Mark} (h : UniqueIds marks) {m m' : Mark} (hm : m ∈ marks)
    (hm' : m' ∈ marks) (hid : m.id = m'.id) : m = m' := List.inj_on_of_nodup_map h hm hm' hid

/-- The identifiers and selectors of a package all have different numbers. -/
def Package.UniqueIds (package : Package) : Prop := GoCalls.UniqueIds package.marks

end GoCalls
