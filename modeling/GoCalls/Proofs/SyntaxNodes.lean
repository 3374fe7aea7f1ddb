import GoCalls.Proofs.Marks
import Mathlib.Data.List.Chain
import Mathlib.Data.List.Flatten
import Mathlib.Data.List.ReduceOption

/-!
# The syntax of a file as a tree

Statements, expressions and types are the nodes of the syntax. What stands between them, such as the
clauses of a switch, is no node.

* `Syntactic`: the numbers in a piece of syntax, and its topmost nodes.
* `SyntaxNode.children`, `SourceFile.IsPath`: the nodes as a tree.
* `SyntaxNode.Fits`: paths from a node on are short, and the chains of operators on them flat.
* `SyntaxNode.marks`, `SourceFile.IsPath.marks_subset`: the marks of a node are marks of its file.
-/

namespace GoCalls

/-- A node in the syntax of a file. -/
inductive SyntaxNode
  | stmt (s : Stmt)
  | expr (x : Expr)
  | type (t : TypeExpr)

/-- The numbers of marks. -/
def Mark.ids (marks : List Mark) : List Nat := marks.map (·.id)

@[simp] theorem Mark.ids_nil : Mark.ids [] = [] := rfl

@[simp] theorem Mark.ids_cons (m : Mark) (marks : List Mark) :
    Mark.ids (m :: marks) = m.id :: Mark.ids marks := rfl

@[simp] theorem Mark.ids_append (as bs : List Mark) :
    Mark.ids (as ++ bs) = Mark.ids as ++ Mark.ids bs := List.map_append

/-- Pieces of syntax. -/
class Syntactic (α : Type) where
  /-- The numbers of the identifiers and selectors in it. -/
  ids : α → List Nat
  /-- The nodes in it that lie in no other one. -/
  nodes : α → List SyntaxNode

namespace Syntactic

/-! ## Pieces -/

instance {α : Type} [Syntactic α] : Syntactic (List α) := ⟨List.flatMap ids, List.flatMap nodes⟩

instance {α : Type} [Syntactic α] : Syntactic (Option α) :=
  ⟨fun a => ids a.toList, fun a => nodes a.toList⟩

instance : Syntactic Nat := ⟨fun n => [n], fun _ => []⟩

instance : Syntactic Ident := ⟨fun i => [i.id], fun _ => []⟩

instance : Syntactic TypeExpr := ⟨fun _ => [], fun t => [.type t]⟩

instance : Syntactic StructField where
  ids _ := []
  nodes | .mk _ t => nodes t

instance : Syntactic Field := ⟨fun f => ids f.names, fun f => nodes f.type⟩

instance : Syntactic Expr := ⟨fun x => Mark.ids x.marks, fun x => [.expr x]⟩

instance : Syntactic Stmt := ⟨fun s => Mark.ids s.marks, fun s => [.stmt s]⟩

instance : Syntactic ValueSpec where
  ids | .mk names _ values => ids names ++ ids values
  nodes | .mk _ t values => nodes t ++ nodes values

instance : Syntactic Clause where
  ids | .mk exprs body => ids exprs ++ ids body
  nodes | .mk exprs body => nodes exprs ++ nodes body

instance : Syntactic TypeClause where
  ids | .mk _ body => ids body
  nodes | .mk types body => nodes types ++ nodes body

instance : Syntactic CommClause where
  ids | .mk comm body => ids comm ++ ids body
  nodes | .mk comm body => nodes comm ++ nodes body

instance : Syntactic FuncDecl where
  ids d := Mark.ids d.marks
  nodes d := nodes (d.recv.map (·.type)) ++ nodes d.params ++ nodes d.results ++ nodes d.body

instance : Syntactic TypeDecl := ⟨fun d => [d.name.id], fun d => nodes d.type⟩

instance : Syntactic Decl where
  ids
    | .func d => ids d
    | .type d => ids d
    | .var spec | .const spec => ids spec
  nodes
    | .func d => nodes d
    | .type d => nodes d
    | .var spec | .const spec => nodes spec

instance : Syntactic SourceFile := ⟨fun f => ids f.decls, fun f => nodes f.decls⟩

/-! ## Numbers -/

section Numbers

variable {α : Type} [Syntactic α]

theorem ids_cons (a : α) (as : List α) : ids (a :: as) = ids a ++ ids as := List.flatMap_cons

theorem ids_flatten (ass : List (List α)) : ids ass.flatten = ids ass := by
  rw [← List.flatMap_id']
  exact List.flatMap_assoc

theorem ids_reduceOption (as : List (Option α)) : ids as.reduceOption = ids as := by
  rw [List.reduceOption, List.filterMap_eq_flatMap_toList]
  exact List.flatMap_assoc

theorem ids_map {β : Type} [Syntactic β] (f : α → β) (h : ∀ a, ids (f a) = ids a) (as : List α) :
    ids (as.map f) = ids as :=
  (List.flatMap_map f ids as).trans (congrArg (List.flatMap · as) (funext h))

theorem nodes_map {β : Type} [Syntactic β] (f : α → β) (h : ∀ a, nodes (f a) = nodes a)
    (as : List α) : nodes (as.map f) = nodes as :=
  (List.flatMap_map f nodes as).trans (congrArg (List.flatMap · as) (funext h))

theorem nodes_reduceOption (as : List (Option α)) : nodes as.reduceOption = nodes as := by
  rw [List.reduceOption, List.filterMap_eq_flatMap_toList]
  exact List.flatMap_assoc

theorem nodes_flatten (ass : List (List α)) : nodes ass.flatten = nodes ass := by
  rw [← List.flatMap_id']
  exact List.flatMap_assoc

@[simp] theorem ids_some (a : α) : ids (some a) = ids a := List.append_nil _

end Numbers

@[simp] theorem ids_ident (i : Ident) : ids i = [i.id] := rfl

@[simp] theorem ids_idents (is : List Ident) : ids is = Mark.ids (is.map Ident.mark) := by
  induction is with
  | nil => rfl
  | cons i is ih => rw [ids_cons, ih]; rfl

@[simp] theorem ids_ident? (i : Option Ident) : ids i = Mark.ids (i.toList.map Ident.mark) :=
  ids_idents i.toList

@[simp] theorem ids_type (t : TypeExpr) : ids t = [] := rfl

@[simp] theorem ids_types (ts : List TypeExpr) : ids ts = [] :=
  List.flatMap_eq_nil_iff.mpr fun _ _ => rfl

@[simp] theorem ids_structFields (fs : List StructField) : ids fs = [] :=
  List.flatMap_eq_nil_iff.mpr fun _ _ => rfl

@[simp] theorem ids_type? (t : Option TypeExpr) : ids t = [] := ids_types t.toList

@[simp] theorem ids_fields (fs : List Field) : ids fs = Mark.ids (fieldsMarks fs) := by
  induction fs with
  | nil => rfl
  | cons f fs ih =>
    rw [ids_cons, ih, fieldsMarks, fieldsMarks, List.flatMap_cons, Mark.ids_append, ← ids_idents]
    rfl

@[simp] theorem ids_expr (x : Expr) : ids x = Mark.ids x.marks := rfl

@[simp] theorem ids_stmt (s : Stmt) : ids s = Mark.ids s.marks := rfl

@[simp] theorem ids_exprs (xs : List Expr) : ids xs = Mark.ids (exprsMarks xs) := by
  induction xs with
  | nil => rw [exprsMarks]; rfl
  | cons x xs ih => rw [ids_cons, ih, exprsMarks, Mark.ids_append, ids_expr]

@[simp] theorem ids_stmts (ss : List Stmt) : ids ss = Mark.ids (stmtsMarks ss) := by
  induction ss with
  | nil => rw [stmtsMarks]; rfl
  | cons s ss ih => rw [ids_cons, ih, stmtsMarks, Mark.ids_append, ids_stmt]

@[simp] theorem ids_expr? (x : Option Expr) : ids x = Mark.ids (expr?Marks x) := by
  cases x with
  | none => rw [expr?Marks]; rfl
  | some x => rw [ids_some, expr?Marks, ids_expr]

@[simp] theorem exprsMarks_toList (x : Option Expr) : exprsMarks x.toList = expr?Marks x := by
  cases x with
  | none => rw [Option.toList_none, exprsMarks, expr?Marks]
  | some x => rw [Option.toList_some, exprsMarks, exprsMarks, expr?Marks, List.append_nil]

@[simp] theorem ids_stmt? (s : Option Stmt) : ids s = Mark.ids (stmt?Marks s) := by
  cases s with
  | none => rw [stmt?Marks]; rfl
  | some s => rw [ids_some, stmt?Marks, ids_stmt]

@[simp] theorem ids_specs (specs : List ValueSpec) : ids specs = Mark.ids (specsMarks specs) := by
  induction specs with
  | nil => rw [specsMarks]; rfl
  | cons spec specs ih =>
    obtain ⟨names, t, values⟩ := spec
    rw [ids_cons, ih, specsMarks, Mark.ids_append, Mark.ids_append, ← ids_idents, ← ids_exprs]
    rfl

@[simp] theorem ids_clauses (cs : List Clause) : ids cs = Mark.ids (clausesMarks cs) := by
  induction cs with
  | nil => rw [clausesMarks]; rfl
  | cons c cs ih =>
    obtain ⟨exprs, body⟩ := c
    rw [ids_cons, ih, clausesMarks, Mark.ids_append, Mark.ids_append, ← ids_exprs, ← ids_stmts]
    rfl

@[simp] theorem ids_typeClauses (cs : List TypeClause) :
    ids cs = Mark.ids (typeClausesMarks cs) := by
  induction cs with
  | nil => rw [typeClausesMarks]; rfl
  | cons c cs ih =>
    obtain ⟨types, body⟩ := c
    rw [ids_cons, ih, typeClausesMarks, Mark.ids_append, ← ids_stmts]
    rfl

@[simp] theorem ids_commClauses (cs : List CommClause) :
    ids cs = Mark.ids (commClausesMarks cs) := by
  induction cs with
  | nil => rw [commClausesMarks]; rfl
  | cons c cs ih =>
    obtain ⟨comm, body⟩ := c
    rw [ids_cons, ih, commClausesMarks, Mark.ids_append, Mark.ids_append, ← ids_stmt?, ← ids_stmts]
    rfl

theorem ids_body (body : Option (List Stmt)) : ids body = Mark.ids (stmtsMarks (body.getD [])) := by
  cases body with
  | none => rw [Option.getD_none, stmtsMarks]; rfl
  | some body => rw [ids_some, ids_stmts, Option.getD_some]

theorem ids_func (d : FuncDecl) : ids d = Mark.ids d.marks := rfl

theorem nodes_func (d : FuncDecl) :
    nodes d = nodes (d.recv.map (·.type)) ++ nodes d.params ++ nodes d.results ++ nodes d.body := rfl

theorem ids_decl (d : Decl) : ids d = Mark.ids d.marks := by
  cases d with
  | func d | type d => rfl
  | var spec | const spec => exact (List.append_nil _).symm.trans (ids_specs [spec])

theorem ids_file (file : SourceFile) : ids file = Mark.ids file.marks := by
  rw [SourceFile.marks, Mark.ids, List.map_flatMap]
  exact congrArg (List.flatMap · file.decls) (funext ids_decl)

end Syntactic

open Syntactic

/-! ## Paths -/

def TypeExpr.children : TypeExpr → List SyntaxNode
  | .name _ _ | .interface _ | .unknown => []
  | .pointer t | .slice t | .array t | .chan t | .ellipsis t => nodes t
  | .map key value => nodes key ++ nodes value
  | .func params results => nodes params ++ nodes results
  | .struct fields => nodes fields

def Expr.children : Expr → List SyntaxNode
  | .ident _ | .lit _ => []
  | .selector _ x _ | .unary _ x | .paren x => nodes x
  | .call x xs | .index x xs | .slice x xs => nodes x ++ nodes xs
  | .func params results body => nodes params ++ nodes results ++ nodes body
  | .composite t xs => nodes t ++ nodes xs
  | .keyValue key value => nodes key ++ nodes value
  | .binary xs | .other xs => nodes xs
  | .typeAssert x t => nodes x ++ nodes t
  | .type t => nodes t

def Stmt.children : Stmt → List SyntaxNode
  | .expr x | .go x | .defer x | .incDec x => nodes x
  | .assign lhs rhs _ => nodes lhs ++ nodes rhs
  | .declare specs => nodes specs
  | .ret xs | .other xs => nodes xs
  | .block body => nodes body
  | .ifThen init cond body orElse => nodes init ++ nodes cond ++ nodes body ++ nodes orElse
  | .loop init cond post body => nodes init ++ nodes cond ++ nodes post ++ nodes body
  | .range key value _ x body => nodes key ++ nodes value ++ nodes x ++ nodes body
  | .switch init tag clauses => nodes init ++ nodes tag ++ nodes clauses
  | .typeSwitch init _ subject clauses => nodes init ++ nodes subject ++ nodes clauses
  | .select clauses => nodes clauses
  | .send chan value => nodes chan ++ nodes value
  | .labeled body => nodes body

namespace SyntaxNode

/-- The nodes directly inside a node. -/
def children : SyntaxNode → List SyntaxNode
  | .stmt s => s.children
  | .expr x => x.children
  | .type t => t.children

/-- A chain of operators has two operands at least. If `plain`, the first of them is no chain. -/
def IsFlat (plain : Prop) : SyntaxNode → Prop
  | .expr (.binary operands) =>
    2 ≤ operands.length ∧ (plain → ∀ inner, operands.head? ≠ some (.binary inner))
  | _ => True

/-- A node makes no path of more than `n` nodes, and all chains in it are flat. -/
def Fits (plain : Prop) : (n : Nat) → SyntaxNode → Prop
  | 0, _ => False
  | n + 1, c => c.IsFlat plain ∧ ∀ d ∈ c.children, d.Fits plain n

variable {plain : Prop} {n : Nat} {c : SyntaxNode}

theorem Fits.succ (h : c.Fits plain n) : c.Fits plain (n + 1) := by
  induction n generalizing c with
  | zero => exact h.elim
  | succ n ih => exact ⟨h.1, fun d hd => ih (h.2 d hd)⟩

/-- A path that starts at a node. -/
theorem Fits.path {nodes : List SyntaxNode} (h : c.Fits plain n)
    (hpath : (c :: nodes).IsChain fun c d => d ∈ c.children) :
    (c :: nodes).length ≤ n ∧ ∀ d ∈ c :: nodes, d.IsFlat plain := by
  induction nodes generalizing n c with
  | nil =>
    obtain _ | n := n
    · exact h.elim
    · exact ⟨Nat.le_add_left 1 n, List.forall_mem_singleton.mpr h.1⟩
  | cons d nodes ih =>
    obtain _ | n := n
    · exact h.elim
    · obtain ⟨hd, hrest⟩ := List.isChain_cons_cons.mp hpath
      obtain ⟨hlength, hflat⟩ := ih (h.2 d hd) hrest
      exact ⟨Nat.succ_le_succ hlength, List.forall_mem_cons.mpr ⟨h.1, hflat⟩⟩

end SyntaxNode

/-- Nodes of a file from the top on, each directly inside the one before it. -/
structure SourceFile.IsPath (file : SourceFile) (path : List SyntaxNode) : Prop where
  top : ∀ c, path.head? = some c → c ∈ nodes file
  inside : path.IsChain fun c d => d ∈ c.children

/-! ## Short paths -/

/-- All nodes of a piece of syntax fit. -/
def FitsIn {α : Type} [Syntactic α] (plain : Prop) (n : Nat) (a : α) : Prop :=
  ∀ c ∈ nodes a, c.Fits plain n

section Fitting

variable {α : Type} [Syntactic α] {plain : Prop} {n : Nat}

theorem FitsIn.succ {a : α} (h : FitsIn plain n a) : FitsIn plain (n + 1) a :=
  fun c hc => (h c hc).succ

theorem fitsIn_list {as : List α} : FitsIn plain n as ↔ ∀ a ∈ as, FitsIn plain n a :=
  List.forall_mem_flatMap

theorem fitsIn_option {a : Option α} : FitsIn plain n a ↔ ∀ b ∈ a, FitsIn plain n b := by
  cases a with
  | none => simp [FitsIn, nodes]
  | some a => simp [FitsIn, nodes]

theorem fitsIn_type {t : TypeExpr} (h : ∀ c ∈ t.children, c.Fits plain n) :
    FitsIn plain (n + 1) t :=
  List.forall_mem_singleton.mpr ⟨trivial, h⟩

theorem fitsIn_stmt {s : Stmt} (h : ∀ c ∈ s.children, c.Fits plain n) : FitsIn plain (n + 1) s :=
  List.forall_mem_singleton.mpr ⟨trivial, h⟩

theorem fitsIn_expr {x : Expr} (hflat : (SyntaxNode.expr x).IsFlat plain)
    (h : ∀ c ∈ x.children, c.Fits plain n) : FitsIn plain (n + 1) x :=
  List.forall_mem_singleton.mpr ⟨hflat, h⟩

theorem fitsIn_unknown : FitsIn plain (n + 1) TypeExpr.unknown := fitsIn_type nofun

theorem fitsIn_other : FitsIn plain (n + 1) (Expr.other []) := fitsIn_expr trivial nofun

theorem fitsIn_empty : FitsIn plain (n + 1) (Stmt.other []) := fitsIn_stmt nofun

theorem fitsIn_nil : FitsIn plain n ([] : List α) := nofun

theorem fitsIn_flatten {ass : List (List α)}
    (h : ∀ as ∈ ass, FitsIn plain n as) : FitsIn plain n ass.flatten := by
  rw [FitsIn, nodes_flatten]
  exact fitsIn_list.mpr h

theorem fitsIn_getElem? {as : List α} (h : FitsIn plain n as) (i : Nat) :
    FitsIn plain n as[i]? :=
  fitsIn_option.mpr fun a ha => fitsIn_list.mp h a (List.mem_of_getElem? ha)

end Fitting

/-! ## Marks of nodes -/

/-- The marks of a node. -/
def SyntaxNode.marks : SyntaxNode → List Mark
  | .stmt s => s.marks
  | .expr x => x.marks
  | .type _ => []

/-- All marks of the nodes of a piece of syntax are among the given ones. -/
def MarkedIn {α : Type} [Syntactic α] (marks : List Mark) (a : α) : Prop :=
  ∀ c ∈ nodes a, c.marks ⊆ marks

section Marked

variable {α : Type} [Syntactic α] {marks : List Mark}

theorem markedIn_list {as : List α} : MarkedIn marks as ↔ ∀ a ∈ as, MarkedIn marks a :=
  List.forall_mem_flatMap

theorem markedIn_none : MarkedIn marks (none : Option α) := List.forall_mem_nil _

theorem markedIn_some {a : α} : MarkedIn marks (some a) ↔ MarkedIn marks a := by
  simp [MarkedIn, nodes]

theorem markedIn_expr {x : Expr} : MarkedIn marks x ↔ x.marks ⊆ marks := List.forall_mem_singleton

theorem markedIn_stmt {s : Stmt} : MarkedIn marks s ↔ s.marks ⊆ marks := List.forall_mem_singleton

theorem markedIn_type (t : TypeExpr) : MarkedIn marks t :=
  List.forall_mem_singleton.mpr (List.nil_subset _)

theorem markedIn_types (ts : List TypeExpr) : MarkedIn marks ts :=
  markedIn_list.mpr fun t _ => markedIn_type t

theorem markedIn_type? (t : Option TypeExpr) : MarkedIn marks t := markedIn_types t.toList

theorem markedIn_fields (fs : List Field) : MarkedIn marks fs :=
  markedIn_list.mpr fun f _ => markedIn_type f.type

theorem markedIn_exprs {xs : List Expr} : MarkedIn marks xs ↔ exprsMarks xs ⊆ marks := by
  rw [markedIn_list]
  induction xs with
  | nil => simp [exprsMarks]
  | cons x xs ih => rw [List.forall_mem_cons, ih, markedIn_expr, exprsMarks, List.append_subset]

theorem markedIn_stmts {ss : List Stmt} : MarkedIn marks ss ↔ stmtsMarks ss ⊆ marks := by
  rw [markedIn_list]
  induction ss with
  | nil => simp [stmtsMarks]
  | cons s ss ih => rw [List.forall_mem_cons, ih, markedIn_stmt, stmtsMarks, List.append_subset]

theorem markedIn_expr? {x : Option Expr} : MarkedIn marks x ↔ expr?Marks x ⊆ marks := by
  rw [← exprsMarks_toList]
  exact markedIn_exprs

theorem markedIn_stmt? {s : Option Stmt} : MarkedIn marks s ↔ stmt?Marks s ⊆ marks := by
  cases s with
  | none => simp [markedIn_none, stmt?Marks]
  | some s => rw [markedIn_some, markedIn_stmt, stmt?Marks]

theorem markedIn_append {β : Type} [Syntactic β] {a : α} {b : β} :
    (∀ c ∈ nodes a ++ nodes b, c.marks ⊆ marks) ↔ MarkedIn marks a ∧ MarkedIn marks b :=
  List.forall_mem_append

theorem markedIn_specs {specs : List ValueSpec} (h : specsMarks specs ⊆ marks) :
    MarkedIn marks specs := by
  rw [markedIn_list]
  induction specs with
  | nil => exact List.forall_mem_nil _
  | cons spec specs ih =>
    obtain ⟨names, t, values⟩ := spec
    rw [specsMarks, List.append_subset, List.append_subset] at h
    exact List.forall_mem_cons.mpr
      ⟨markedIn_append.mpr ⟨markedIn_type? t, markedIn_exprs.mpr h.1.2⟩, ih h.2⟩

theorem markedIn_clauses {cs : List Clause} (h : clausesMarks cs ⊆ marks) :
    MarkedIn marks cs := by
  rw [markedIn_list]
  induction cs with
  | nil => exact List.forall_mem_nil _
  | cons c cs ih =>
    obtain ⟨exprs, body⟩ := c
    rw [clausesMarks, List.append_subset, List.append_subset] at h
    exact List.forall_mem_cons.mpr
      ⟨markedIn_append.mpr ⟨markedIn_exprs.mpr h.1.1, markedIn_stmts.mpr h.1.2⟩, ih h.2⟩

theorem markedIn_typeClauses {cs : List TypeClause} (h : typeClausesMarks cs ⊆ marks) :
    MarkedIn marks cs := by
  rw [markedIn_list]
  induction cs with
  | nil => exact List.forall_mem_nil _
  | cons c cs ih =>
    obtain ⟨types, body⟩ := c
    rw [typeClausesMarks, List.append_subset] at h
    exact List.forall_mem_cons.mpr
      ⟨markedIn_append.mpr ⟨markedIn_types types, markedIn_stmts.mpr h.1⟩, ih h.2⟩

theorem markedIn_commClauses {cs : List CommClause} (h : commClausesMarks cs ⊆ marks) :
    MarkedIn marks cs := by
  rw [markedIn_list]
  induction cs with
  | nil => exact List.forall_mem_nil _
  | cons c cs ih =>
    obtain ⟨comm, body⟩ := c
    rw [commClausesMarks, List.append_subset, List.append_subset] at h
    exact List.forall_mem_cons.mpr
      ⟨markedIn_append.mpr ⟨markedIn_stmt?.mpr h.1.1, markedIn_stmts.mpr h.1.2⟩, ih h.2⟩

theorem Expr.marks_of_mem_children (x : Expr) : ∀ c ∈ x.children, c.marks ⊆ x.marks := by
  cases x <;> simp only [Expr.children, Expr.marks, List.forall_mem_append]
  case ident | lit => simp
  case type t => exact markedIn_type t
  case selector => exact markedIn_expr.mpr (by simp)
  case unary | paren => exact markedIn_expr.mpr (List.Subset.refl _)
  case call | index | slice => exact ⟨markedIn_expr.mpr (by simp), markedIn_exprs.mpr (by simp)⟩
  case func params results body =>
    exact ⟨⟨markedIn_fields params, markedIn_fields results⟩, markedIn_stmts.mpr (by simp)⟩
  case composite t _ => exact ⟨markedIn_type? t, markedIn_exprs.mpr (List.Subset.refl _)⟩
  case keyValue => exact ⟨markedIn_expr.mpr (by simp), markedIn_expr.mpr (by simp)⟩
  case binary | other => exact markedIn_exprs.mpr (List.Subset.refl _)
  case typeAssert t => exact ⟨markedIn_expr.mpr (List.Subset.refl _), markedIn_type? t⟩

theorem Stmt.marks_of_mem_children (s : Stmt) : ∀ c ∈ s.children, c.marks ⊆ s.marks := by
  cases s <;> simp only [Stmt.children, Stmt.marks, List.forall_mem_append]
  case expr | go | defer | incDec => exact markedIn_expr.mpr (List.Subset.refl _)
  case assign => exact ⟨markedIn_exprs.mpr (by simp), markedIn_exprs.mpr (by simp)⟩
  case declare => exact markedIn_specs (List.Subset.refl _)
  case ret | other => exact markedIn_exprs.mpr (List.Subset.refl _)
  case block => exact markedIn_stmts.mpr (List.Subset.refl _)
  case ifThen =>
    exact ⟨⟨⟨markedIn_stmt?.mpr (by grind), markedIn_expr.mpr (by grind)⟩,
      markedIn_stmts.mpr (by grind)⟩, markedIn_stmt?.mpr (by grind)⟩
  case loop =>
    exact ⟨⟨⟨markedIn_stmt?.mpr (by grind), markedIn_expr?.mpr (by grind)⟩,
      markedIn_stmt?.mpr (by grind)⟩, markedIn_stmts.mpr (by grind)⟩
  case range =>
    exact ⟨⟨⟨markedIn_expr?.mpr (by grind), markedIn_expr?.mpr (by grind)⟩,
      markedIn_expr.mpr (by grind)⟩, markedIn_stmts.mpr (by grind)⟩
  case switch =>
    exact ⟨⟨markedIn_stmt?.mpr (by grind), markedIn_expr?.mpr (by grind)⟩,
      markedIn_clauses (by grind)⟩
  case typeSwitch =>
    exact ⟨⟨markedIn_stmt?.mpr (by grind), markedIn_expr.mpr (by grind)⟩,
      markedIn_typeClauses (by grind)⟩
  case select => exact markedIn_commClauses (List.Subset.refl _)
  case send => exact ⟨markedIn_expr.mpr (by simp), markedIn_expr.mpr (by simp)⟩
  case labeled => exact markedIn_stmt.mpr (List.Subset.refl _)

theorem TypeExpr.marks_of_mem_children (t : TypeExpr) : ∀ c ∈ t.children, c.marks ⊆ [] := by
  cases t <;> simp only [TypeExpr.children, List.forall_mem_append]
  case name | interface | unknown => exact List.forall_mem_nil _
  case pointer t | slice t | array t | chan t | ellipsis t => exact markedIn_type t
  case map key value => exact ⟨markedIn_type key, markedIn_type value⟩
  case func params results => exact ⟨markedIn_types params, markedIn_types results⟩
  case struct fields => exact markedIn_list.mpr fun ⟨_, t⟩ _ => markedIn_type t

end Marked

theorem SyntaxNode.marks_of_mem_children {c d : SyntaxNode} (h : d ∈ c.children) :
    d.marks ⊆ c.marks := by
  cases c with
  | stmt s => exact s.marks_of_mem_children d h
  | expr x => exact x.marks_of_mem_children d h
  | type t => exact t.marks_of_mem_children d h

theorem Decl.markedIn (d : Decl) : MarkedIn d.marks d := by
  cases d with
  | type d => exact markedIn_type d.type
  | func d =>
    have hbody : MarkedIn d.marks d.body := by
      cases hd : d.body with
      | none => exact markedIn_none
      | some body =>
        rw [markedIn_some, markedIn_stmts, FuncDecl.marks, hd]
        exact List.subset_append_right _ _
    have hrecv : MarkedIn d.marks (d.recv.map (·.type)) := markedIn_type? _
    exact List.forall_mem_append.mpr ⟨List.forall_mem_append.mpr
      ⟨markedIn_append.mpr ⟨hrecv, markedIn_fields d.params⟩, markedIn_fields d.results⟩, hbody⟩
  | var spec | const spec =>
    exact markedIn_list.mp (markedIn_specs (List.Subset.refl _)) spec List.mem_cons_self

/-- The marks of all nodes on a path are marks of the file. -/
theorem SourceFile.IsPath.marks_subset {file : SourceFile} {path : List SyntaxNode}
    (h : file.IsPath path) : ∀ c ∈ path, c.marks ⊆ file.marks := by
  obtain ⟨htop, hinside⟩ := h
  have hnodes : MarkedIn file.marks file := by
    refine markedIn_list.mpr fun d hd c hc => ?_
    exact fun mark hmark => List.mem_flatMap.mpr ⟨d, hd, d.markedIn c hc hmark⟩
  have hhead : ∀ c, path.head? = some c → c.marks ⊆ file.marks := fun c hc => hnodes c (htop c hc)
  clear htop
  induction path with
  | nil => exact List.forall_mem_nil _
  | cons c path ih =>
    refine List.forall_mem_cons.mpr ⟨hhead c rfl, ih hinside.of_cons fun d hd => ?_⟩
    have hmem : d ∈ c.children := (List.isChain_cons.mp hinside).1 d hd
    exact List.Subset.trans (SyntaxNode.marks_of_mem_children hmem) (hhead c rfl)

end GoCalls
