import GoCalls.Source.Lower
import Mathlib.Logic.Basic

/-!
# Levels of nesting

Lowering a node leads to some of the nodes below it, each of which is lowered as a type, an
expression or a statement, one level further down.

* `ParseTree.steps`: the nodes that a node leads to.
* `ParseTree.levels`: how many levels of nesting a tree has.
-/

namespace GoCalls

open ParseTree

/-- What a node is lowered as. -/
inductive Role
  | type
  | expr
  | stmt

section Steps

variable {root : ParseTree}

/-- Nodes that are lowered in one role. -/
def inRole (role : Role) (ts : List root.Below) : List (Role × root.Below) :=
  ts.map fun t => (role, t)

def fieldSteps (role : Role) (parts : List root.Below) (f : FieldName) : List (Role × root.Below) :=
  inRole role (field? parts f).toList

def paramSteps (list : root.Below) : List (Role × root.Below) :=
  (paramNodes list).flatMap fun t => fieldSteps .type t.parts .type

def resultSteps (parts : List root.Below) : List (Role × root.Below) :=
  (field? parts .result).toList.flatMap fun t =>
    if t.kind = .parameterList then paramSteps t else [(.type, t)]

def signatureSteps (parts : List root.Below) : List (Role × root.Below) :=
  (field? parts .parameters).toList.flatMap paramSteps ++ resultSteps parts

def exprsInSteps (t : Option root.Below) : List (Role × root.Below) :=
  inRole .expr (t.toList.flatMap fun t => named t.parts)

def exprListSteps (t : Option root.Below) : List (Role × root.Below) :=
  inRole .expr (t.toList.flatMap fun t => if t.kind = .expressionList then named t.parts else [t])

def stmtListSteps (ts : List root.Below) : List (Role × root.Below) :=
  inRole .stmt (ts.flatMap statementNodes)

def blockSteps (t : Option root.Below) : List (Role × root.Below) :=
  t.toList.flatMap fun t => stmtListSteps (named t.parts)

def valueSpecSteps (kind : Kind) (parts : List root.Below) : List (Role × root.Below) :=
  ((named parts).flatMap (specNodes kind Kind.isSpecList)).flatMap fun t =>
    fieldSteps .type t.parts .type ++ exprListSteps (field? t.parts .value)

def clauseSteps (kind : Kind) (header : root.Below → List (Role × root.Below))
    (parts : List root.Below) : List (Role × root.Below) :=
  (clauseNodes kind parts).flatMap fun t => header t ++ stmtListSteps (unfielded t.parts)

/-- The nodes that the header of a loop leads to. -/
def headerSteps (parts : List root.Below) : List (Role × root.Below) :=
  (unfielded parts).head?.toList.flatMap fun header =>
    if header.kind = .rangeClause then
      exprListSteps (field? header.parts .left) ++ fieldSteps .expr header.parts .right
    else if header.kind = .forClause then
      fieldSteps .stmt header.parts .initializer ++ fieldSteps .expr header.parts .condition ++
        fieldSteps .stmt header.parts .update
    else [(.expr, header)]

def forSteps (parts : List root.Below) : List (Role × root.Below) :=
  blockSteps (field? parts .body) ++ headerSteps parts

def typeSwitchSteps (parts : List root.Below) : List (Role × root.Below) :=
  let guard := (named parts).find? fun t => t.kind = .typeSwitchGuard
  let header := (guard.map Below.parts).getD parts
  fieldSteps .stmt parts .initializer ++
    inRole .expr (field? header .value <|> guard.bind fun t => (named t.parts).getLast?).toList ++
    clauseSteps .typeCase (fun t => inRole .type (fieldNodes t.parts .type)) parts

end Steps

namespace ParseTree

variable (root : ParseTree)

/-- The nodes that a type leads to. -/
def typeSteps : List (Role × root.Below) :=
  let parts := root.parts
  match root.kind with
  | .genericType => fieldSteps .type parts .type
  | .pointerType | .parenthesizedType => inRole .type (named parts).head?.toList
  | .sliceType | .arrayType | .implicitLengthArrayType => fieldSteps .type parts .element
  | .mapType => fieldSteps .type parts .key ++ fieldSteps .type parts .value
  | .channelType => fieldSteps .type parts .value
  | .functionType => signatureSteps parts
  | .structType => (fieldDeclarations parts).flatMap fun t => fieldSteps .type t.parts .type
  | _ => []

/-- The nodes that an expression leads to. -/
def exprSteps : List (Role × root.Below) :=
  let parts := root.parts
  match root.kind with
  | .identifier | .fieldIdentifier | .packageIdentifier | .constant | .literal _ => []
  | .selectorExpression | .unaryExpression => fieldSteps .expr parts .operand
  | .callExpression => fieldSteps .expr parts .function ++ exprsInSteps (field? parts .arguments)
  | .typeConversionExpression => fieldSteps .type parts .type ++ fieldSteps .expr parts .operand
  | .funcLiteral => signatureSteps parts ++ blockSteps (field? parts .body)
  | .compositeLiteral => fieldSteps .type parts .type ++ exprsInSteps (field? parts .body)
  | .literalElement | .parenthesizedExpression => inRole .expr (named parts).head?.toList
  | .keyedElement => inRole .expr ((named parts).take 2)
  | .binaryExpression =>
    let (rights, left) := spine [field? parts .right] (field? parts .left)
    inRole .expr (left.toList ++ rights.reduceOption)
  | .indexExpression => fieldSteps .expr parts .operand ++ inRole .expr (fieldNodes parts .index)
  | .sliceExpression =>
    fieldSteps .expr parts .operand ++
      inRole .expr ([FieldName.start, .stop, .capacity].filterMap (field? parts))
  | .typeAssertionExpression => fieldSteps .expr parts .operand ++ fieldSteps .type parts .type
  | _ => inRole .expr (named parts)

/-- The nodes that a statement leads to. -/
def stmtSteps : List (Role × root.Below) :=
  let parts := root.parts
  match root.kind with
  | .expressionStatement | .goStatement | .deferStatement | .incStatement | .decStatement =>
    inRole .expr (named parts).head?.toList
  | .assignmentStatement | .shortVarDeclaration =>
    exprListSteps (field? parts .left) ++ exprListSteps (field? parts .right)
  | .varDeclaration => valueSpecSteps .varSpec parts
  | .constDeclaration => valueSpecSteps .constSpec parts
  | .returnStatement => exprListSteps (named parts).head?
  | .block => stmtListSteps (named parts)
  | .ifStatement =>
    fieldSteps .stmt parts .initializer ++ fieldSteps .expr parts .condition ++
      blockSteps (field? parts .consequence) ++ fieldSteps .stmt parts .alternative
  | .forStatement => forSteps parts
  | .expressionSwitchStatement =>
    fieldSteps .stmt parts .initializer ++ fieldSteps .expr parts .value ++
      clauseSteps .expressionCase (fun t => exprListSteps (field? t.parts .value)) parts
  | .typeSwitchStatement => typeSwitchSteps parts
  | .selectStatement =>
    clauseSteps .communicationCase (fun t => fieldSteps .stmt t.parts .communication) parts
  | .sendStatement => fieldSteps .expr parts .channel ++ fieldSteps .expr parts .value
  | .receiveStatement => exprListSteps (field? parts .left) ++ fieldSteps .expr parts .right
  | .labeledStatement => inRole .stmt (unfielded parts).head?.toList
  | _ =>
    inRole .expr ((named parts).filter fun t =>
      t.kind ≠ .labelName && t.kind ≠ .typeDeclaration)

/-- The nodes that a node leads to, one level further down, with their roles. -/
def steps : Role → List (Role × root.Below)
  | .type => root.typeSteps
  | .expr => if root.kind.isType then root.typeSteps else root.exprSteps
  | .stmt => root.stmtSteps

/-- The levels that a node itself makes. A type in the place of an expression makes one for each. -/
def ownLevels : Role → Nat
  | .expr => if root.kind.isType then 2 else 1
  | _ => 1

/-- The levels of nesting at and below a node. -/
def levels (root : ParseTree) (role : Role) : Nat :=
  root.ownLevels role + ((root.steps role).map fun c => c.2.tree.levels c.1).foldr max 0
termination_by sizeOf root
decreasing_by exact c.2.isBelow.sizeOf_lt

theorem foldr_max_le_iff {α : Type} {f : α → Nat} {as : List α} {n : Nat} :
    (as.map f).foldr max 0 ≤ n ↔ ∀ a ∈ as, f a ≤ n := by
  induction as with
  | nil => simp
  | cons a as ih => rw [List.map_cons, List.foldr_cons, Nat.max_le, ih, List.forall_mem_cons]

theorem add_levels_le_iff {root : ParseTree} {role : Role} {n m : Nat} :
    n + root.levels role ≤ m ↔ n + root.ownLevels role ≤ m ∧
      ∀ c ∈ root.steps role, n + root.ownLevels role + c.2.tree.levels c.1 ≤ m := by
  have hsplit (k : Nat) : n + (root.ownLevels role + k) ≤ m ↔
      n + root.ownLevels role ≤ m ∧ k ≤ m - (n + root.ownLevels role) := by
    omega
  rw [levels, hsplit, foldr_max_le_iff]
  refine and_congr_right fun hown => forall₂_congr fun c _ => ?_
  omega

theorem levels_expr_of_isType {root : ParseTree} (h : root.kind.isType) :
    root.levels .expr = root.levels .type + 1 := by
  have hown : root.ownLevels .expr = 2 := if_pos h
  have hsteps : root.steps .expr = root.steps .type := if_pos h
  rw [levels, levels, hown, hsteps, Nat.add_right_comm]
  rfl

/-! ## Files -/

section Files

variable {root : ParseTree}

def funcSteps (t : root.Below) : List (Role × root.Below) :=
  (field? t.parts .name).toList.flatMap fun _ =>
    (field? t.parts .receiver).toList.flatMap paramSteps ++ signatureSteps t.parts ++
      blockSteps (field? t.parts .body)

def typeSpecSteps (t : root.Below) : List (Role × root.Below) :=
  if t.kind = .typeSpec || t.kind = .typeAlias then
    (field? t.parts .name).toList.flatMap fun _ => fieldSteps .type t.parts .type
  else []

/-- The nodes that a declaration leads to. -/
def declSteps (t : root.Below) : List (Role × root.Below) :=
  match t.kind with
  | .functionDeclaration | .methodDeclaration => funcSteps t
  | .typeDeclaration => (named t.parts).flatMap typeSpecSteps
  | .varDeclaration => valueSpecSteps .varSpec t.parts
  | .constDeclaration => valueSpecSteps .constSpec t.parts
  | _ => []

end Files

/-- The levels of nesting in a file. -/
def fileLevels (root : ParseTree) : Nat :=
  (((named root.parts).flatMap declSteps).map fun c => c.2.tree.levels c.1).foldr max 0

end ParseTree

end GoCalls
