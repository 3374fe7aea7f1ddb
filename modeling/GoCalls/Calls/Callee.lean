import GoCalls.Syntax
import GoCalls.Typing.Symbol

/-!
# The names of callees

Code is traced in a `Context`: the qualified name of the routine around it, and the variables that
are known to hold closures. There `callee?` gives the qualified name of the routine that a call
invokes. A bound variable stands for its closure; for all else types decide, and where there are
none, the text of the call.
-/

namespace GoCalls

structure Context where
  package : String
  /-- The qualified name of the routine around the code; it may be empty. -/
  scope : String
  /-- The variables that hold closures, with the closures' names, the latest first. -/
  bindings : List (String × String) := []

namespace Context

/-- The closure that a variable holds. -/
def lookup (ctx : Context) (var : String) : Option String := ctx.bindings.lookup var

/-- The name of a closure that is assigned to a variable here. -/
def scopedName (ctx : Context) (var : String) : String :=
  (if ctx.scope = "" then ctx.package else ctx.scope) ++ "." ++ var

/-- The context after a variable has got a closure. -/
def bind (ctx : Context) (var closure : String) : Context :=
  { ctx with bindings := (var, closure) :: ctx.bindings }

/-- The context of a closure's body, which sees all that is bound around it. -/
def enter (ctx : Context) (closure : String) : Context :=
  { ctx with scope := closure }

end Context

/-- What a call invokes. -/
structure Callee where
  name : String
  /-- Is it a variable that holds a closure? -/
  viaBinding : Bool
  deriving DecidableEq

/-- The callee of a call by a plain name. -/
def calleeOfIdent (tables : Option Tables) (ctx : Context) (i : Ident) : Callee :=
  match ctx.lookup i.name with
  | some closure => ⟨closure, true⟩
  | none =>
    match tables.bind (·.uses[i.id]?) with
    | some ⟨_, none, _, _⟩ => ⟨i.name, false⟩
    | _ => ⟨ctx.package ++ "." ++ i.name, false⟩

/-- The callee of a call by a selector, as the tables tell it. -/
def typedSelector? (tables : Tables) (id : Nat) (x : Expr) (sel : Ident) : Option String :=
  let selected := do
    let selection ← tables.selections[id]?
    return (← selection.recv.qualifiedName) ++ "." ++ selection.name
  let used := do
    let symbol ← tables.uses[(← x.ident?).id]?
    return (← symbol.type.bind Ty.qualifiedName <|> symbol.importedPackage) ++ "." ++ sel.name
  selected <|> used

/-- The callee of a call by a selector, from its text. -/
def plainSelector (ctx : Context) (x : Expr) (sel : Ident) : String :=
  match x.ident? with
  | some i => (ctx.lookup i.name).getD i.name ++ "." ++ sel.name
  | none => sel.name

/-- What a call of `fn` invokes, if it is a name or a selector. -/
def callee? (tables : Option Tables) (ctx : Context) (fn : Expr) : Option Callee :=
  match fn with
  | .ident i => some (calleeOfIdent tables ctx i)
  | .selector id x sel =>
    let typed := tables.bind fun t => typedSelector? t id x sel
    some ⟨typed.getD (plainSelector ctx x sel), false⟩
  | _ => none

end GoCalls
