import GoCalls.Proofs.Lowering

/-!
# Lowering files

A file is accepted just when its levels of nesting are not too many. Its numbers were all drawn for
it. Levels and nodes are not the same: the type of a variadic parameter, the pointer of an embedded
field and the type of a conversion have a node without a level, while parentheses around a type have
a level and leave no node. But no level makes more than two nodes.

* **`LowersBelow.stmtRule`**, **`lowersTree`**, **`lowersFile`**: statements, trees and files.
* **`lowerFile_ok_iff`**: the files that are accepted.
* **`isLowered`**: what comes of them.
-/

namespace GoCalls

open Lowering ParseTree Syntactic
open scoped List

section Rules

variable {root : ParseTree} {plain : Prop} {depth n : Nat} {ok : Role × root.Below → Prop}
  {lower : root.Below → Lowered}

/-- Of the targets of a range, the first two count. -/
theorem count_targets_le (i : Nat) (targets : List Expr) :
    (Mark.ids (expr?Marks targets[0]?)).count i + (Mark.ids (expr?Marks targets[1]?)).count i ≤
      (Mark.ids (exprsMarks targets)).count i := by
  rcases targets with _ | ⟨a, _ | ⟨b, rest⟩⟩
  · simp [expr?Marks]
  · simp [expr?Marks, exprsMarks]
  · simp [expr?Marks, exprsMarks, ← Nat.add_assoc]

namespace LowersBelow

variable (h : LowersBelow plain depth n ok lower)
include h

/-! ## Statements -/

theorem stmt? (t : Option root.Below) :
    Lowers depth (∀ u ∈ t, ok (.stmt, u)) [] (FitsIn plain (n + 2)) (stmt? lower t) :=
  (Lowers.mapM? fun t _ => h.stmt t).imp fun _ ht => (fitsIn_option.mpr ht).succ

theorem valueSpecs (kind : Kind) (parts : List root.Below) :
    Lowers depth (∀ c ∈ valueSpecSteps kind parts, ok c) [] (FitsIn plain (n + 2))
      (valueSpecs lower kind parts) := by
  refine Lowers.congr (.imp (.mapM fun t _ => ?_) fun _ => fitsIn_list.mpr)
    List.forall_mem_flatMap.symm
  refine Lowers.congr ((lowers_idents depth _).bind fun names _ => (h.type? _).bind fun type htype =>
    (h.exprListOr _).map (by simp [ids]) fun values hvalues =>
    List.forall_mem_append.mpr ⟨htype, hvalues⟩) ?_
  simp only [List.forall_mem_append, forall_fieldSteps, true_and]

omit h in
theorem clauses {α : Type} [Syntactic α] {kind : Kind}
    {header : root.Below → List (Role × root.Below)} {clause : root.Below → Lowering α}
    (hclause : ∀ t, Lowers depth
      (∀ c ∈ header t ++ stmtListSteps (unfielded t.parts), ok c) [] (FitsIn plain (n + 2)) (clause t))
    (parts : List root.Below) :
    Lowers depth (∀ c ∈ clauseSteps kind header parts, ok c) [] (FitsIn plain (n + 2))
      ((clauseNodes kind parts).mapM clause) :=
  Lowers.congr (.imp (.mapM fun t _ => hclause t) fun _ => fitsIn_list.mpr)
    List.forall_mem_flatMap.symm

theorem clause (t : root.Below) :
    Lowers depth (∀ c ∈ exprListSteps (field? t.parts .value) ++
      stmtListSteps (unfielded t.parts), ok c) [] (FitsIn plain (n + 2)) (clause lower t) := by
  refine Lowers.congr ((h.exprListOr _).bind fun exprs hexprs => (h.stmts _).map (by simp [ids])
    fun body hbody => List.forall_mem_append.mpr ⟨hexprs, hbody⟩) List.forall_mem_append.symm

theorem typeClause (t : root.Below) :
    Lowers depth (∀ c ∈ inRole .type (fieldNodes t.parts .type) ++
      stmtListSteps (unfielded t.parts), ok c) [] (FitsIn plain (n + 2)) (typeClause lower t) := by
  refine Lowers.congr ((h.types _).bind fun types htypes => (h.stmts _).map (by simp [ids])
    fun body hbody => List.forall_mem_append.mpr ⟨htypes, hbody⟩) ?_
  rw [List.forall_mem_append, forall_inRole]

theorem commClause (t : root.Below) :
    Lowers depth (∀ c ∈ fieldSteps .stmt t.parts .communication ++
      stmtListSteps (unfielded t.parts), ok c) [] (FitsIn plain (n + 2)) (commClause lower t) := by
  refine Lowers.congr ((h.stmt? _).bind fun comm hcomm => (h.stmts _).map (by simp [ids])
    fun body hbody => List.forall_mem_append.mpr ⟨hcomm, hbody⟩) ?_
  rw [List.forall_mem_append, forall_fieldSteps]

/-- The body of a loop is lowered first. -/
theorem forStmt (parts : List root.Below) :
    Lowers depth (∀ c ∈ forSteps parts, ok c) [] (FitsIn plain (n + 3)) (forStmt lower parts) := by
  unfold GoCalls.forStmt forSteps
  refine Lowers.congr ((h.blockOr _).bind (q := ∀ c ∈ headerSteps parts, ok c)
    fun body hbody => ?_) List.forall_mem_append.symm
  unfold headerSteps
  cases (unfielded parts).head? with
  | none =>
    refine Lowers.congr (.pure (by simp [Stmt.marks, stmt?Marks, expr?Marks]) (fitsIn_stmt ?_))
      (by simp)
    simp only [Stmt.children, List.forall_mem_append]
    exact ⟨⟨⟨List.forall_mem_nil _, List.forall_mem_nil _⟩, List.forall_mem_nil _⟩, hbody⟩
  | some header =>
    rw [Option.toList_some, List.flatMap_singleton]
    dsimp only
    split_ifs with hrange hclause
    · refine Lowers.congr ((h.exprListOr _).bind fun targets htargets => (h.exprOr _).map
        (fun x i => ?_) fun x hx => fitsIn_stmt ?_) ?_
      · have htargets := count_targets_le i targets
        simp [Stmt.marks] at htargets ⊢
        omega
      · simp only [Stmt.children, List.forall_mem_append]
        exact ⟨⟨⟨fitsIn_getElem? htargets 0, fitsIn_getElem? htargets 1⟩, hx⟩, hbody⟩
      · simp only [List.forall_mem_append, forall_fieldSteps]
    · refine Lowers.congr ((h.stmt? _).bind fun init hinit => (h.expr? _).bind fun cond hcond =>
        (h.stmt? _).map (fun post i => ?_) fun post hpost => fitsIn_stmt ?_) ?_
      · simp [Stmt.marks]
        omega
      · simp only [Stmt.children, List.forall_mem_append]
        exact ⟨⟨⟨hinit, hcond⟩, hpost⟩, hbody⟩
      · simp only [List.forall_mem_append, forall_fieldSteps, and_assoc]
    · refine Lowers.congr ((h.anyExpr header).map (fun x i => ?_) fun x hx => fitsIn_stmt ?_) (by simp)
      · simp [Stmt.marks, stmt?Marks, expr?Marks]
        omega
      · simp only [Stmt.children, List.forall_mem_append]
        exact ⟨⟨⟨List.forall_mem_nil _, fitsIn_option.mpr (by simpa using hx)⟩, List.forall_mem_nil _⟩,
          hbody⟩

theorem typeSwitch (parts : List root.Below) :
    Lowers depth (∀ c ∈ typeSwitchSteps parts, ok c) [] (FitsIn plain (n + 3))
      (typeSwitch lower parts) := by
  refine Lowers.congr ((h.stmt? _).bind fun init hinit =>
    (Lowers.mapM? fun t _ => lowers_ident depth t.text).bind fun binding _ =>
    (h.exprOr _).bind fun subject hsubject => (clauses h.typeClause _).map (fun cs i => ?_)
    fun cs hcs => fitsIn_stmt ?_) ?_
  · simp [Stmt.marks]
    omega
  · simp only [Stmt.children, List.forall_mem_append]
    exact ⟨⟨hinit, hsubject⟩, hcs⟩
  · simp only [typeSwitchSteps, List.forall_mem_append, forall_fieldSteps, forall_inRole,
      Option.mem_toList, Option.mem_def, implies_true, true_and, and_assoc]

/-- **The statement of a node.** -/
theorem stmtRule :
    Lowers depth (∀ c ∈ root.stmtSteps, ok c) [] (FitsIn plain (n + 3)) (stmtRule lower) := by
  unfold GoCalls.stmtRule
  split
  case h_1 hkind => -- expressions
    simp only [stmtSteps, hkind]
    cases (named root.parts).head? with
    | none =>
      exact Lowers.congr (.pure (by simp [Stmt.marks, exprsMarks])
        (fitsIn_stmt (List.forall_mem_nil _))) (by simp [inRole])
    | some t =>
      exact Lowers.congr ((h.anyExpr t).map (by simp [Stmt.marks]) fun x hx => fitsIn_stmt hx)
        (by simp [inRole])
  case h_2 hkind | h_3 hkind => -- assignments and definitions
    simp only [stmtSteps, hkind]
    refine Lowers.congr ((h.exprListOr _).bind fun lhs hlhs => (h.exprListOr _).map
      (fun rhs i => ?_) fun rhs hrhs => fitsIn_stmt (List.forall_mem_append.mpr ⟨hlhs, hrhs⟩))
      List.forall_mem_append.symm
    simp [Stmt.marks, Nat.add_comm]
  case h_4 hkind | h_5 hkind => -- declarations of values
    simp only [stmtSteps, hkind]
    exact (h.valueSpecs _ _).map (by simp [Stmt.marks]) fun specs hspecs => fitsIn_stmt hspecs
  case h_6 hkind | h_7 hkind => -- `go` and `defer`
    simp only [stmtSteps, hkind]
    exact Lowers.congr ((h.exprOr _).map (by simp [Stmt.marks]) fun x hx => fitsIn_stmt hx)
      (by simp only [forall_inRole, Option.mem_toList, Option.mem_def])
  case h_8 hkind => -- `return`
    simp only [stmtSteps, hkind]
    exact (h.exprListOr _).map (by simp [Stmt.marks]) fun xs hxs => fitsIn_stmt hxs
  case h_9 hkind => -- blocks
    simp only [stmtSteps, hkind]
    exact (h.stmts _).map (by simp [Stmt.marks]) fun body hbody => fitsIn_stmt hbody
  case h_10 hkind => -- branches
    simp only [stmtSteps, hkind]
    refine Lowers.congr ((h.stmt? _).bind fun init hinit => (h.exprOr _).bind fun cond hcond =>
      (h.blockOr _).bind fun body hbody => (h.stmt? _).map (by simp [Stmt.marks])
      fun orElse helse => fitsIn_stmt ?_) ?_
    · simp only [Stmt.children, List.forall_mem_append]
      exact ⟨⟨⟨hinit, hcond⟩, hbody⟩, helse⟩
    · simp only [List.forall_mem_append, forall_fieldSteps, and_assoc]
  case h_11 hkind => -- loops
    simp only [stmtSteps, hkind]
    exact h.forStmt _
  case h_12 hkind => -- switches
    simp only [stmtSteps, hkind]
    refine Lowers.congr ((h.stmt? _).bind fun init hinit => (h.expr? _).bind fun tag htag =>
      (clauses h.clause _).map (by simp [Stmt.marks]) fun cs hcs => fitsIn_stmt ?_) ?_
    · simp only [Stmt.children, List.forall_mem_append]
      exact ⟨⟨hinit, htag⟩, hcs⟩
    · simp only [List.forall_mem_append, forall_fieldSteps, and_assoc]
  case h_13 hkind => -- type switches
    simp only [stmtSteps, hkind]
    exact h.typeSwitch _
  case h_14 hkind => -- `select`
    simp only [stmtSteps, hkind]
    exact (clauses h.commClause _).map (by simp [Stmt.marks]) fun cs hcs => fitsIn_stmt hcs
  case h_15 hkind => -- sending
    simp only [stmtSteps, hkind]
    refine Lowers.congr ((h.exprOr _).bind fun chan hchan => (h.exprOr _).map (by simp [Stmt.marks])
      fun value hvalue => fitsIn_stmt (List.forall_mem_append.mpr ⟨hchan, hvalue⟩)) ?_
    simp only [List.forall_mem_append, forall_fieldSteps]
  case h_16 hkind => -- receiving
    simp only [stmtSteps, hkind]
    refine Lowers.congr ((h.exprListOr _).bind fun lhs hlhs => (h.expr? _).map (fun rhs i => ?_)
      fun rhs hrhs => fitsIn_stmt (List.forall_mem_append.mpr ⟨hlhs, hrhs⟩)) ?_
    · simp [Stmt.marks, Nat.add_comm]
    · simp only [List.forall_mem_append, forall_fieldSteps]
  case h_17 hkind | h_18 hkind => -- increments and decrements
    simp only [stmtSteps, hkind]
    exact Lowers.congr ((h.exprOr _).map (by simp [Stmt.marks]) fun x hx => fitsIn_stmt hx)
      (by simp only [forall_inRole, Option.mem_toList, Option.mem_def])
  case h_19 hkind => -- labels
    simp only [stmtSteps, hkind]
    cases (unfielded root.parts).head? with
    | none =>
      exact Lowers.congr (.pure (by simp [Stmt.marks, exprsMarks])
        (fitsIn_stmt (List.forall_mem_nil _))) (by simp [inRole])
    | some t =>
      exact Lowers.congr ((h.stmt t).map (by simp [Stmt.marks]) fun x hx => fitsIn_stmt hx.succ)
        (by simp [inRole])
  case h_20 => -- all other kinds
    have hsteps : root.stmtSteps = inRole .expr ((named root.parts).filter fun t =>
        t.kind ≠ .labelName && t.kind ≠ .typeDeclaration) := by
      unfold stmtSteps
      split <;> simp_all
    rw [hsteps]
    exact Lowers.congr ((h.exprs _).map (by simp [Stmt.marks]) fun xs hxs => fitsIn_stmt hxs)
      forall_inRole.symm

end LowersBelow

end Rules

/-! ## Trees -/

section Trees

variable (root : ParseTree)

theorem lower_type :
    root.lower.type = nested root.spot .unknown (typeRule fun t : root.Below => t.tree.lower) := by
  rw [lower]

theorem lower_expr :
    root.lower.expr =
      nested root.spot (.other []) (exprRule (fun t : root.Below => t.tree.lower) root.lower.type) := by
  rw [lower_type, lower]

theorem lower_stmt :
    root.lower.stmt = nested root.spot (.other []) (stmtRule fun t : root.Below => t.tree.lower) := by
  rw [lower]

end Trees

/-- What lowering a tree comes to. -/
structure LowersTree (plain : Prop) (depth : Nat) (root : ParseTree) : Prop where
  type : Lowers depth (depth + root.levels .type ≤ maxNesting) []
    (FitsIn plain (2 * (maxNesting - depth) + 1)) root.lower.type
  expr : Lowers depth (depth + root.levels .expr ≤ maxNesting) []
    (IsExprOf plain (2 * (maxNesting - depth) + 1) root.kind) root.lower.expr
  stmt : Lowers depth (depth + root.levels .stmt ≤ maxNesting) []
    (FitsIn plain (2 * (maxNesting - depth) + 1)) root.lower.stmt

theorem levels_le_iff {root : ParseTree} {role : Role} {depth : Nat} (h : root.ownLevels role = 1) :
    (depth < maxNesting ∧ ∀ c ∈ root.steps role, depth + 1 + c.2.tree.levels c.1 ≤ maxNesting) ↔
      depth + root.levels role ≤ maxNesting := by
  rw [add_levels_le_iff, h, Nat.lt_iff_add_one_le]

/-- **A tree is lowered** just when its levels are not too many. -/
theorem lowersTree (plain : Prop) (root : ParseTree) (hplain : plain → root.hasPlainOperands)
    (depth : Nat) : LowersTree plain depth root := by
  have hbelow (e : Nat) : LowersBelow plain e (2 * (maxNesting - e))
      (fun c => e + c.2.tree.levels c.1 ≤ maxNesting) (fun t : root.Below => t.tree.lower) := by
    have htree (t : root.Below) :=
      lowersTree plain t.tree (fun h => t.isBelow.hasPlainOperands (hplain h)) e
    exact ⟨fun t => (htree t).type, fun t => (htree t).expr, fun t => (htree t).stmt⟩
  have hbound {e : Nat} (h : e < maxNesting) :
      2 * (maxNesting - e) + 1 = 2 * (maxNesting - (e + 1)) + 3 := by
    omega
  have htype (e : Nat) : Lowers e (e + root.levels .type ≤ maxNesting) []
      (FitsIn plain (2 * (maxNesting - e) + 1)) root.lower.type := by
    rw [lower_type]
    refine (Lowers.nested root.spot rfl fitsIn_unknown fun hlt => ?_).congr (levels_le_iff rfl)
    rw [hbound hlt]
    exact (hbelow (e + 1)).typeRule
  refine ⟨htype depth, ?_, ?_⟩
  · rw [lower_expr]
    have hstub : IsExprOf plain (2 * (maxNesting - depth) + 1) root.kind (.other []) :=
      isExprOf_of_children rfl (List.forall_mem_nil _)
    by_cases hkind : root.kind.isType
    · refine (Lowers.nested (p := depth + 1 + root.levels .type ≤ maxNesting) root.spot rfl hstub
        fun hlt => ?_).congr ?_
      · rw [hbound hlt]
        exact LowersBelow.exprRule_of_isType hkind (htype (depth + 1))
      · rw [levels_expr_of_isType hkind]
        omega
    · refine (Lowers.nested root.spot rfl hstub fun hlt => ?_).congr
        (levels_le_iff (if_neg hkind))
      rw [hbound hlt, steps, if_neg hkind]
      exact (hbelow (depth + 1)).exprRule hplain hkind root.lower.type
  · rw [lower_stmt]
    refine (Lowers.nested root.spot rfl fitsIn_empty fun hlt => ?_).congr (levels_le_iff rfl)
    rw [hbound hlt]
    exact (hbelow (depth + 1)).stmtRule
termination_by sizeOf root
decreasing_by exact t.isBelow.sizeOf_lt

theorem lowersBelow (plain : Prop) (root : ParseTree) (hplain : plain → root.hasPlainOperands)
    (depth : Nat) : LowersBelow plain depth (2 * (maxNesting - depth))
      (fun c => depth + c.2.tree.levels c.1 ≤ maxNesting) (fun t : root.Below => t.tree.lower) := by
  have htree (t : root.Below) :=
    lowersTree plain t.tree (fun h => t.isBelow.hasPlainOperands (hplain h)) depth
  exact ⟨fun t => (htree t).type, fun t => (htree t).expr, fun t => (htree t).stmt⟩

/-! ## Files -/

theorem count_head?_le (i : Nat) (is : List Ident) :
    (Mark.ids (is.head?.toList.map Ident.mark)).count i ≤ (Mark.ids (is.map Ident.mark)).count i := by
  cases is with
  | nil => exact Nat.le_refl _
  | cons i is => exact (List.sublist_append_left [i.id] _).count_le _

/-- Of the receivers only the first name is kept. -/
theorem count_receiver_le (i : Nat) (fields : List Field) :
    (Mark.ids (((fields.head?.map fun f => Receiver.mk f.names.head? f.type).bind
      (·.name)).toList.map Ident.mark)).count i ≤ (Mark.ids (fieldsMarks fields)).count i := by
  cases fields with
  | nil => exact Nat.le_refl _
  | cons f fs =>
    have hname := count_head?_le i f.names
    simp only [List.head?_cons, Option.map_some, Option.bind_some, fieldsMarks, List.flatMap_cons,
      Mark.ids_append, List.count_append]
    omega

/-- Elements are taken for something with the same nodes. -/
theorem Lowers.mapList {α β : Type} [Syntactic α] [Syntactic β] {depth n : Nat} {p plain : Prop}
    {x : Lowering (List α)} (f : α → β) (hids : ∀ a, ids (f a) = ids a)
    (hnodes : ∀ a, nodes (f a) = nodes a) (hx : Lowers depth p [] (FitsIn plain n) x) :
    Lowers depth p [] (FitsIn plain n) (x >>= fun as => Pure.pure (as.map f)) := by
  refine hx.map (fun as i => ?_) fun as has => ?_
  · rw [ids_map f hids, List.nil_append]
  · rw [FitsIn, nodes_map f hnodes]
    exact has

namespace LowersBelow

variable {root : ParseTree} {plain : Prop} {depth n : Nat} {ok : Role × root.Below → Prop}
  {lower : root.Below → Lowered} (h : LowersBelow plain depth n ok lower)
include h

theorem body? (t : Option root.Below) :
    Lowers depth (∀ c ∈ blockSteps t, ok c) [] (FitsIn plain (n + 2))
      (t.mapM fun b => GoCalls.stmts lower (named b.parts)) := by
  refine ((Lowers.mapM? fun b _ => h.stmts (named b.parts)).imp fun _ => fitsIn_option.mpr).congr ?_
  simp only [blockSteps, List.forall_mem_flatMap, Option.mem_toList, Option.mem_def]

theorem funcDecl? (t : root.Below) :
    Lowers depth (∀ c ∈ funcSteps t, ok c) [] (FitsIn plain (n + 2)) (funcDecl? lower t) := by
  unfold GoCalls.funcDecl? funcSteps
  cases field? t.parts .name with
  | none => exact Lowers.congr (.pure (fun _ => Nat.le_refl _) nofun) (by simp)
  | some name =>
    rw [Option.toList_some, List.flatMap_singleton]
    refine Lowers.congr ((lowers_ident depth _).bind fun name _ => (h.paramsOr _).bind
      fun recv hrecv => (h.paramsOr _).bind fun params hparams => (h.results _).bind
      fun results hresults => (h.body? _).map (fun body i => ?_) fun body hbody => ?_) ?_
    · have hfirst := count_receiver_le i recv
      simp only [ids_some, ids_func, FuncDecl.marks, ids_fields, ids_body, ids_ident, Ident.mark,
        List.nil_append, List.cons_append, Mark.ids_cons, Mark.ids_append, List.count_append,
        List.count_cons] at hfirst ⊢
      omega
    · have hfirst : FitsIn plain (n + 2) (recv.head?.map (·.type)) := by
        refine fitsIn_option.mpr fun type htype => ?_
        obtain ⟨f, hf, rfl⟩ := Option.map_eq_some_iff.mp htype
        exact fitsIn_list.mp hrecv f (List.mem_of_head? hf)
      refine fitsIn_option.mpr fun d hd => ?_
      obtain rfl := Option.some.inj hd
      simp only [FitsIn, nodes_func, List.forall_mem_append, Option.map_map]
      exact ⟨⟨⟨hfirst, hparams⟩, hresults⟩, hbody⟩
    · simp only [signatureSteps, List.forall_mem_append, true_and, and_assoc]

theorem typeSpec? (t : root.Below) :
    Lowers depth (∀ c ∈ typeSpecSteps t, ok c) [] (FitsIn plain (n + 2)) (typeSpec? lower t) := by
  unfold GoCalls.typeSpec? typeSpecSteps
  split_ifs
  · cases field? t.parts .name with
    | none => exact Lowers.congr (.pure (fun _ => Nat.le_refl _) nofun) (by simp)
    | some name =>
      rw [Option.toList_some, List.flatMap_singleton]
      refine Lowers.congr ((lowers_ident depth _).bind fun name _ => (h.typeOr _).map
        (fun type i => ?_) fun type htype => ?_) ?_
      · simp [ids]
      · refine fitsIn_option.mpr fun d hd => ?_
        obtain rfl := Option.some.inj hd
        exact htype.succ
      · rw [true_and, forall_fieldSteps]
  · exact Lowers.congr (.pure (fun _ => Nat.le_refl _) nofun) (by simp)

theorem declarations (t : root.Below) :
    Lowers depth (∀ c ∈ declSteps t, ok c) [] (FitsIn plain (n + 2)) (declarations lower t) := by
  unfold GoCalls.declarations
  split
  case h_1 hkind | h_2 hkind =>
    simp only [declSteps, hkind]
    refine (h.funcDecl? t).map (fun d i => ?_) fun d hd => ?_
    · rw [Option.toList_map, ids_map Decl.func fun _ => rfl]
      exact Nat.le_refl _
    · rw [FitsIn, Option.toList_map, nodes_map Decl.func fun _ => rfl]
      exact hd
  case h_3 hkind =>
    simp only [declSteps, hkind]
    refine Lowers.congr ((Lowers.mapM fun u _ => h.typeSpec? u).map (fun ds i => ?_)
      fun ds hds => ?_) List.forall_mem_flatMap.symm
    · rw [ids_map Decl.type fun _ => rfl, ids_reduceOption]
      exact Nat.le_refl _
    · rw [FitsIn, nodes_map Decl.type fun _ => rfl, nodes_reduceOption]
      exact fitsIn_list.mpr hds
  case h_4 hkind =>
    simp only [declSteps, hkind]
    exact (h.valueSpecs _ _).mapList Decl.var (fun _ => rfl) fun _ => rfl
  case h_5 hkind =>
    simp only [declSteps, hkind]
    exact (h.valueSpecs _ _).mapList Decl.const (fun _ => rfl) fun _ => rfl
  case h_6 =>
    refine Lowers.congr (.pure (fun _ => Nat.le_refl _) fitsIn_nil) ?_
    unfold declSteps
    split <;> simp_all

end LowersBelow

/-- **A file is lowered** just when its levels are not too many. -/
theorem lowersFile (plain : Prop) (path : OsString) (root : ParseTree)
    (hplain : plain → root.hasPlainOperands) :
    Lowers 0 (root.fileLevels ≤ maxNesting) [] (fun file => FitsIn plain (2 * maxNesting + 2) file ∧
      file.path = path ∧
      file.package = (((named root.parts).filterMap packageName?).getLast?).getD "" ∧
      file.imports = (named root.parts).flatMap importSpecs) (root.file path) := by
  have hbelow := lowersBelow plain root hplain 0
  refine Lowers.congr ((Lowers.mapM fun t _ => hbelow.declarations t).map (fun ds i => ?_)
    fun ds hds => ⟨fitsIn_flatten hds, rfl, rfl, rfl⟩) ?_
  · exact Nat.le_of_eq (congrArg (List.count i) (ids_flatten ds))
  · simp only [fileLevels, foldr_max_le_iff, List.forall_mem_flatMap, Nat.zero_add]

section LowerFile

variable {path : OsString} {tree : ParseTree} {next next' : Nat} {file : SourceFile}

theorem lowerFile_of_none (h : (tree.file path { next }).2.tooDeep = none) :
    lowerFile path tree next =
      (.ok (tree.file path { next }).1, (tree.file path { next }).2.next) := by
  rcases hrun : (tree.file path).run { next } with ⟨file, n, depth, tooDeep⟩
  obtain rfl : tooDeep = none := (congrArg (·.2.tooDeep) hrun).symm.trans h
  rw [lowerFile, hrun]
  exact (congrArg (fun r => (Except.ok r.1, r.2.next)) hrun).symm

theorem lowerFile_of_some {spot : Spot} (h : (tree.file path { next }).2.tooDeep = some spot) :
    lowerFile path tree next = (.error spot, (tree.file path { next }).2.next) := by
  rcases hrun : (tree.file path).run { next } with ⟨file, n, depth, tooDeep⟩
  obtain rfl : tooDeep = some spot := (congrArg (·.2.tooDeep) hrun).symm.trans h
  rw [lowerFile, hrun]
  exact (congrArg (fun r => (Except.error spot, r.2.next)) hrun).symm

/-- Also a file that is refused gives no number back. -/
theorem le_lowerFile : next ≤ (lowerFile path tree next).2 := by
  have h := (lowersFile False path tree nofun { next } rfl).next_le
  cases hdeep : (tree.file path { next }).2.tooDeep with
  | none => rwa [lowerFile_of_none hdeep]
  | some spot => rwa [lowerFile_of_some hdeep]

/-- **A file is accepted** just when its levels are not too many. -/
theorem lowerFile_ok_iff :
    (∃ file, (lowerFile path tree next).1 = .ok file) ↔ tree.fileLevels ≤ maxNesting := by
  have h := (lowersFile False path tree nofun { next } rfl).tooDeep_iff
  cases hdeep : (tree.file path { next }).2.tooDeep with
  | none =>
    rw [lowerFile_of_none hdeep]
    exact iff_of_true ⟨_, rfl⟩ (h.mp hdeep).2
  | some spot =>
    rw [lowerFile_of_some hdeep]
    refine iff_of_false nofun fun hle => ?_
    simp [h.mpr ⟨rfl, hle⟩] at hdeep

/-- What comes of lowering a file that is accepted. -/
structure IsLowered (plain : Prop) (path : OsString) (tree : ParseTree) (first last : Nat)
    (file : SourceFile) : Prop where
  le : first ≤ last
  drawn : ids file <+~ List.Ico first last
  fits : FitsIn plain (2 * maxNesting + 2) file
  path_eq : file.path = path
  package_eq : file.package = (((named tree.parts).filterMap packageName?).getLast?).getD ""
  imports_eq : file.imports = (named tree.parts).flatMap importSpecs

/-- **A file that is accepted.** -/
theorem isLowered (plain : Prop) (hplain : plain → tree.hasPlainOperands)
    (h : lowerFile path tree next = (.ok file, next')) :
    IsLowered plain path tree next next' file := by
  have hfile := lowersFile plain path tree hplain { next } rfl
  obtain ⟨hfits, hpath, hpackage, himports⟩ := hfile.value
  cases hdeep : (tree.file path { next }).2.tooDeep with
  | none =>
    rw [lowerFile_of_none hdeep, Prod.mk.injEq, Except.ok.injEq] at h
    obtain ⟨rfl, rfl⟩ := h
    exact ⟨hfile.next_le, hfile.drawn, hfits, hpath, hpackage, himports⟩
  | some spot => simp [lowerFile_of_some hdeep] at h

end LowerFile

end GoCalls
