import GoCalls.Proofs.Bindings
import GoCalls.Proofs.Passing

/-!
# The parts that checking passes

Checking a piece of code visits each of its parts, with the scopes in which the part stands. Names
are an exception: a name that a composite literal uses as a key, or that a definition declares, is
not visited. A range statement that defines its targets visits none of them.

* `passes_expr_part`, `passes_stmt_part`: the parts of an expression and of a statement.
* **`Point.passes_of_mem_parts`**: the visit of a piece of code passes its parts.
* **`Point.passes_of_at?`**: it passes all that lies below, at any depth.
-/

namespace GoCalls

/-! ## Expressions -/

section Expressions

variable (env : FileEnv) (ctx : Context) (locals : List String)

theorem touches_expr (x : Expr) : Touches x.marks [] (visitExpr env x) :=
  (visitExpr_visits (keeps_true env) x).touches

theorem touches_exprs (xs : List Expr) : Touches (exprsMarks xs) [] (visitExprs env xs) :=
  (visitExprs_visits (keeps_true env) xs).touches

theorem touches_pure {α : Type} (a : α) : Touches [] [] (pure a) := Visits.pure trivial

theorem passes_exprs {xs : List Expr} {y : Expr} (hy : y ∈ xs) (hu : UniqueIds (exprsMarks xs)) :
    Passes env (exprsMarks xs) locals (visitExprs env xs) ⟨ctx, locals, .expr y⟩ := by
  induction xs with
  | nil => simp at hy
  | cons x xs ih =>
    rw [exprsMarks] at hu ⊢
    rw [visitExprs]
    rcases List.mem_cons.mp hy with rfl | hy
    · exact (Passes.expr env ctx locals y).left
        (fun _ => (touches_exprs env xs).compute fun _ _ => touches_pure _) hu
    · exact Passes.after (touches_expr env x)
        (fun _ => (ih hy hu.right).compute fun _ => touches_pure _) hu

/-- The visit of an expression passes its parts, but perhaps for names. -/
theorem passes_expr_part {x y : Expr} (hy : y ∈ x.parts) (hname : y.ident? = none)
    (hu : UniqueIds x.marks) : Passes env x.marks locals (visitExpr env x) ⟨ctx, locals, .expr y⟩ := by
  have hself := Passes.expr env ctx locals
  cases x with
  | ident | lit | type | func => simp [Expr.parts] at hy
  | selector id x sel =>
    obtain rfl := List.mem_singleton.mp hy
    have hselect (recv : Ty) : Touches [⟨id, sel.name, .selector⟩] []
        (Visit.select id ⟨recv, sel.name⟩) :=
      @Visits.select (fun _ => True) (fun _ _ _ => True) id ⟨recv, sel.name⟩ trivial
    rw [Expr.marks] at hu ⊢
    rw [visitExpr]
    simp only [hname, Option.bind_none]
    refine Passes.get fun u => (hself y).left (fun operand => (?_ : Touches _ [] _)) hu
    split
    · rename_i recv _
      exact ((hselect recv).compute fun _ _ => touches_pure _).weaken (by simp) (by simp)
    · exact Visits.result trivial
  | call fn args =>
    rw [Expr.marks] at hu ⊢
    rw [visitExpr]
    refine Passes.get fun u => ?_
    rcases List.mem_cons.mp hy with rfl | hy
    · refine (hself y).left (fun _ => (touches_exprs env args).compute fun _ _ => ?_) hu
      split <;> exact touches_pure _
    · refine Passes.after (touches_expr env fn)
        (fun _ => (passes_exprs env ctx locals hy hu.right).compute fun _ => ?_) hu
      split <;> exact touches_pure _
  | composite type xs | binary xs | other xs =>
    rw [visitExpr]
    exact (passes_exprs env ctx locals hy hu).compute fun _ => touches_pure _
  | keyValue key value =>
    rw [Expr.marks] at hu ⊢
    have hvalue : Touches value.marks [] (do let _ ← visitExpr env value; return (none : Option Ty)) :=
      (touches_expr env value).compute fun _ _ => touches_pure _
    rw [visitExpr]
    simp only [Expr.parts, List.mem_cons, List.not_mem_nil, or_false] at hy
    rcases hy with rfl | rfl
    · rw [if_pos (by simp [hname])]
      exact (hself y).left (fun _ => hvalue) hu
    · have hrest : Passes env y.marks locals (do let _ ← visitExpr env y; return (none : Option Ty))
          ⟨ctx, locals, .expr y⟩ := (hself y).compute fun _ => touches_pure _
      split_ifs
      · exact Passes.after (touches_expr env key) (fun _ => hrest) hu
      · exact hrest.mono (List.sublist_append_right _ _)
  | unary op x =>
    obtain rfl := List.mem_singleton.mp hy
    rw [visitExpr]
    refine (hself y).compute fun _ => ?_
    split <;> exact touches_pure _
  | typeAssert x type =>
    obtain rfl := List.mem_singleton.mp hy
    rw [visitExpr]
    exact (hself y).compute fun _ => touches_pure _
  | paren x =>
    obtain rfl := List.mem_singleton.mp hy
    rw [visitExpr]
    exact hself y
  | index x xs | slice x xs =>
    rw [Expr.marks] at hu ⊢
    rw [visitExpr]
    rcases List.mem_cons.mp hy with rfl | hy
    · exact (hself y).left (fun _ => (touches_exprs env xs).compute fun _ _ => touches_pure _) hu
    · exact Passes.after (touches_expr env x)
        (fun _ => (passes_exprs env ctx locals hy hu.right).compute fun _ => touches_pure _) hu

end Expressions

/-! ## Lists of parts -/

/-- A name as an expression, or as a target: it has no parts, and checking may leave it out. -/
def Code.IsName : Code → Prop
  | .expr (.ident _) | .target _ (.ident _) => True
  | _ => False

section Lists

variable {env : FileEnv} {ctx : Context} {locals : List String} {q : Point}

theorem touches_stmt (env : FileEnv) (s : Stmt) : Touches s.marks s.declares (visitStmt env s) :=
  visitStmt_visits (keeps_true env) s

theorem touches_stmts (env : FileEnv) (ss : List Stmt) :
    Touches (stmtsMarks ss) (ss.flatMap Stmt.declares) (visitStmts env ss) :=
  visitStmts_visits (keeps_true env) ss

theorem touches_block (env : FileEnv) (ss : List Stmt) :
    Touches (stmtsMarks ss) [] (Visit.inScope (visitStmts env ss)) := (touches_stmts env ss).inScope

theorem Passes.stmt (s : Stmt) :
    Passes env s.marks locals (visitStmt env s) ⟨ctx, locals, .stmt s⟩ :=
  Passes.self env ⟨ctx, locals, .stmt s⟩ (List.append_nil _)

theorem Passes.operand (kind : CallKind) (x : Expr) :
    Passes env x.marks locals (do let _ ← visitExpr env x) ⟨ctx, locals, .operand kind x⟩ :=
  Passes.self env ⟨ctx, locals, .operand kind x⟩ (List.append_nil _)

theorem Passes.block (body : List Stmt) : Passes env (stmtsMarks body) locals
    (Visit.inScope (visitStmts env body)) ⟨ctx, locals, .block [] body⟩ :=
  (Passes.self env ⟨ctx, locals, .block [] body⟩ (List.append_nil _)).inScope

theorem declares_exprs (xs : List Expr) : (xs.map Code.expr).flatMap Code.declares = [] := by
  simp [Code.declares]

theorem declares_closures (lhs rhs : List Expr) :
    ((lhs.zip rhs).filterMap closure?).flatMap Code.declares = [] := by
  refine List.flatMap_eq_nil_iff.mpr fun c hc => ?_
  obtain ⟨pair, -, hc⟩ := List.mem_filterMap.mp hc
  obtain ⟨var, params, results, body, -, rfl⟩ := closure?_eq_some hc
  rfl

theorem declares_targetParts (lhs : List Expr) (define : Bool) :
    (targetParts lhs define).flatMap Code.declares = [] := by
  refine List.flatMap_eq_nil_iff.mpr fun c hc => ?_
  obtain ⟨x, -, rfl | ⟨names, rfl⟩⟩ := mem_targetParts hc
  · rfl
  · rfl

theorem declares_stmt? (s : Option Stmt) :
    (s.toList.map Code.stmt).flatMap Code.declares = s.toList.flatMap Stmt.declares := by
  rw [List.flatMap_map]
  rfl

theorem passes_pointsOf_exprs {xs : List Expr} (hq : q ∈ pointsOf ctx locals (xs.map .expr))
    (hu : UniqueIds (exprsMarks xs)) : Passes env (exprsMarks xs) locals (visitExprs env xs) q := by
  have hlocals := locals_of_mem_pointsOf (declares_exprs xs) hq
  obtain ⟨x, hx, hcode⟩ := List.mem_map.mp (code_mem_of_mem_pointsOf hq)
  obtain ⟨ctx', locals', code⟩ := q
  subst hlocals hcode
  exact passes_exprs env ctx' locals' hx hu

theorem passes_expr_parts {x : Expr} (hq : q ∈ pointsOf ctx locals (x.parts.map .expr))
    (hname : ¬ q.code.IsName) (hu : UniqueIds x.marks) :
    Passes env x.marks locals (visitExpr env x) q := by
  have hlocals := locals_of_mem_pointsOf (declares_exprs x.parts) hq
  obtain ⟨y, hy, hcode⟩ := List.mem_map.mp (code_mem_of_mem_pointsOf hq)
  obtain ⟨ctx', locals', code⟩ := q
  subst hlocals hcode
  have hident : y.ident? = none := by
    cases hi : y.ident? with
    | none => rfl
    | some i =>
      obtain rfl := Expr.ident?_eq_some.mp hi
      exact absurd trivial hname
  exact passes_expr_part env ctx' locals' hy hident hu

theorem passes_expr? {x : Option Expr} (hq : q ∈ pointsOf ctx locals (x.toList.map .expr)) :
    Passes env (expr?Marks x) locals (visitExpr? env x) q := by
  cases x with
  | none => simp [pointsOf] at hq
  | some x =>
    obtain rfl : q = ⟨ctx, locals, .expr x⟩ := by simpa [pointsOf] using hq
    rw [visitExpr?]
    exact Passes.expr env ctx locals x

theorem passes_stmt? {s : Option Stmt} (hq : q ∈ pointsOf ctx locals (s.toList.map .stmt)) :
    Passes env (stmt?Marks s) locals (visitStmt? env s) q := by
  cases s with
  | none => simp [pointsOf] at hq
  | some s =>
    obtain rfl : q = ⟨ctx, locals, .stmt s⟩ := by simpa [pointsOf] using hq
    rw [visitStmt?]
    exact Passes.stmt s

theorem passes_stmts {ss : List Stmt} (hq : q ∈ pointsOf ctx locals (ss.map .stmt))
    (hu : UniqueIds (stmtsMarks ss)) : Passes env (stmtsMarks ss) locals (visitStmts env ss) q := by
  induction ss generalizing ctx locals with
  | nil => simp [pointsOf] at hq
  | cons s ss ih =>
    rw [stmtsMarks] at hu ⊢
    rw [visitStmts]
    rcases List.mem_cons.mp hq with rfl | hq
    · exact (Passes.stmt s).left (fun _ => touches_stmts env ss) hu
    · exact Passes.right (touches_stmt env s) (fun _ => ih hq hu.right) hu

theorem visitSpecs_cons (env : FileEnv) (spec : ValueSpec) (specs : List ValueSpec) :
    visitSpecs env (spec :: specs) = visitSpecs env [spec] >>= fun _ => visitSpecs env specs := by
  obtain ⟨names, type, values⟩ := spec
  simp [visitSpecs]

theorem specsMarks_cons (spec : ValueSpec) (specs : List ValueSpec) :
    specsMarks (spec :: specs) = specsMarks [spec] ++ specsMarks specs := by
  obtain ⟨names, type, values⟩ := spec
  simp [specsMarks]

theorem touches_specs (env : FileEnv) (specs : List ValueSpec) :
    Touches (specsMarks specs) (specs.flatMap ValueSpec.declares) (visitSpecs env specs) :=
  visitSpecs_visits (keeps_true env) specs

theorem passes_specs {specs : List ValueSpec} (hq : q ∈ pointsOf ctx locals (specs.map .spec))
    (hu : UniqueIds (specsMarks specs)) :
    Passes env (specsMarks specs) locals (visitSpecs env specs) q := by
  induction specs generalizing ctx locals with
  | nil => simp [pointsOf] at hq
  | cons spec specs ih =>
    rw [specsMarks_cons] at hu ⊢
    rw [visitSpecs_cons]
    rcases List.mem_cons.mp hq with rfl | hq
    · have hself := Passes.self env ⟨ctx, locals, .spec spec⟩ (List.append_nil _)
      exact hself.left (fun _ => touches_specs env specs) hu
    · have hspec : Touches (specsMarks [spec]) spec.declares (visitSpecs env [spec]) := by
        simpa using touches_specs env [spec]
      exact Passes.right hspec (fun _ => ih hq hu.right) hu

theorem touches_targets (env : FileEnv) (xs : List Expr) (types : List (Option Ty)) :
    Touches (exprsMarks xs) (declaredNames (xs.filterMap Expr.ident?)) (visitTargets env xs types) :=
  visitTargets_visits (keeps_true env) xs types fun _ _ _ _ => trivial

/-- A new name is declared before the targets on its right. -/
theorem passes_definedTargets {xs : List Expr} {binders : List String} {types : List (Option Ty)}
    (hq : q ∈ pointsOf ctx locals (definedTargets binders xs)) (hname : ¬ q.code.IsName)
    (hu : UniqueIds (exprsMarks xs)) :
    Passes env (exprsMarks xs) (locals ++ binders) (visitTargets env xs types) q := by
  induction xs generalizing binders types with
  | nil => simp [definedTargets, pointsOf] at hq
  | cons x xs ih =>
    have hpoints : pointsOf ctx locals (definedTargets binders (x :: xs)) =
        ⟨ctx, locals, .target binders x⟩ ::
          pointsOf ctx locals (definedTargets (binders ++ declaredNames x.ident?.toList) xs) := by
      simp [definedTargets, pointsOf, Code.declares, Context.after]
    rw [hpoints] at hq
    rw [exprsMarks] at hu ⊢
    rw [visitTargets]
    cases hx : x.ident? with
    | none =>
      rcases List.mem_cons.mp hq with rfl | hq
      · have hself : Passes env x.marks (locals ++ binders) (visitExpr env x)
            ⟨ctx, locals, .target binders x⟩ :=
          ⟨List.Sublist.refl _, fun v hv => ⟨v, hv, .refl _ _, .refl _ _⟩⟩
        exact hself.left (fun _ => touches_targets env xs types.tail) hu
      · have hnone : declaredNames x.ident?.toList = [] := by simp [hx, declaredNames]
        rw [hnone, List.append_nil] at hq
        exact Passes.after (touches_expr env x) (fun _ => ih hq hu.right) hu
    | some i =>
      obtain rfl := Expr.ident?_eq_some.mp hx
      rcases List.mem_cons.mp hq with rfl | hq
      · exact absurd trivial hname
      · have hrest : Passes env (exprsMarks xs) (locals ++ binders ++ declaredNames [i])
            (visitTargets env xs types.tail) q := by
          rw [List.append_assoc]
          exact ih hq hu.right
        have hvisit : Touches (Expr.ident i).marks (declaredNames [i]) (visitExpr env (.ident i)) :=
          (touches_expr env _).weaken (List.Subset.refl _) (by simp)
        have hdeclare : Touches (Expr.ident i).marks (declaredNames [i])
            (Visit.declare env i.name types.head?.join) :=
          (declare_visits (keeps_true env) i fun _ _ => trivial).weaken (by simp)
            (List.Subset.refl _)
        refine Passes.declaring (declaredHere_visits i.name) fun here => ?_
        rw [List.append_nil]
        split_ifs
        · exact Passes.right hvisit (fun _ => hrest) hu
        · exact Passes.right hdeclare (fun _ => hrest) hu

theorem touches_fields (env : FileEnv) (fields : List Field) :
    Touches [] (fieldNames fields) (Visit.declareFields env fields) :=
  declareFields_visits (keeps_true env) fields

theorem passes_closure (var : String) (params results : List Field) {body : List Stmt} :
    Passes env (Expr.func params results body).marks locals
      (visitExpr env (.func params results body))
      ⟨ctx, locals, .closure var (fieldNames params ++ fieldNames results) body⟩ := by
  have hbody := Passes.self env
    ⟨ctx, locals, .closure var (fieldNames params ++ fieldNames results) body⟩
    (List.append_assoc locals (fieldNames params) (fieldNames results)).symm
  rw [visitExpr]
  exact ((Passes.declaring (touches_fields env params) fun _ =>
    Passes.declaring (touches_fields env results) fun _ => hbody).inScope.compute
      fun _ => touches_pure _).mono (List.sublist_append_right _ _)

theorem passes_closures {lhs rhs : List Expr}
    (hq : q ∈ pointsOf ctx locals ((lhs.zip rhs).filterMap closure?))
    (hu : UniqueIds (exprsMarks rhs)) : Passes env (exprsMarks rhs) locals (visitExprs env rhs) q := by
  have hlocals := locals_of_mem_pointsOf (declares_closures lhs rhs) hq
  obtain ⟨pair, hzip, hc⟩ := List.mem_filterMap.mp (code_mem_of_mem_pointsOf hq)
  obtain ⟨var, params, results, body, rfl, hcode⟩ := closure?_eq_some hc
  obtain ⟨ctx', locals', code⟩ := q
  subst hlocals hcode
  exact (passes_exprs env ctx' locals' (List.of_mem_zip hzip).2 hu).trans_expr
    (passes_closure var.name params results)

theorem touches_clauses (env : FileEnv) (clauses : List Clause) :
    Touches (clausesMarks clauses) [] (visitClauses env clauses) :=
  visitClauses_visits (keeps_true env) clauses

theorem passes_clauses {clauses : List Clause}
    (hq : q ∈ pointsOf ctx locals (clauses.flatMap Clause.parts))
    (hu : UniqueIds (clausesMarks clauses)) :
    Passes env (clausesMarks clauses) locals (visitClauses env clauses) q := by
  induction clauses generalizing ctx with
  | nil => simp [pointsOf] at hq
  | cons clause clauses ih =>
    obtain ⟨exprs, body⟩ := clause
    rw [clausesMarks, List.append_assoc] at hu ⊢
    rw [visitClauses]
    have hrest := (touches_block env body).bind fun _ _ => touches_clauses env clauses
    simp only [List.flatMap_cons, Clause.parts, pointsOf_append, List.flatMap_append, declares_exprs,
      Code.declares, List.flatMap_nil, List.append_nil, List.mem_append] at hq
    rcases hq with (hq | hq) | hq
    · exact (passes_pointsOf_exprs hq hu.left).left (fun _ => hrest) hu
    · obtain rfl : q = ⟨_, locals, .block [] body⟩ := by simpa [pointsOf] using hq
      exact Passes.after (touches_exprs env exprs)
        (fun _ => (Passes.block body).left (fun _ => touches_clauses env clauses) hu.right) hu
    · exact Passes.after (touches_exprs env exprs) (fun _ =>
        Passes.after (touches_block env body) (fun _ => ih hq hu.right.right) hu.right) hu

theorem touches_typeClauses (env : FileEnv) (binding : Option Ident) (subject : Option Ty)
    (clauses : List TypeClause) : Touches (typeClausesMarks clauses) []
      (visitTypeClauses env binding subject clauses) :=
  visitTypeClauses_visits (keeps_true env) binding (fun _ _ => trivial) clauses

theorem touches_declareAll (env : FileEnv) (t : Option Ty) (is : List Ident) :
    Touches [] (declaredNames is) (Visit.declareAll env t is) :=
  declareAll_visits (keeps_true env) (fun _ _ => trivial) is

theorem passes_typeClauses {binding : Option Ident} {subject : Option Ty}
    {clauses : List TypeClause}
    (hq : q ∈ pointsOf ctx locals (clauses.map (TypeClause.code binding)))
    (hu : UniqueIds (typeClausesMarks clauses)) : Passes env (typeClausesMarks clauses) locals
      (visitTypeClauses env binding subject clauses) q := by
  induction clauses generalizing ctx with
  | nil => simp [pointsOf] at hq
  | cons clause clauses ih =>
    obtain ⟨types, body⟩ := clause
    rw [typeClausesMarks] at hu ⊢
    unfold visitTypeClauses
    simp only [List.map_cons, TypeClause.code, pointsOf, Code.declares, List.append_nil,
      List.mem_cons] at hq
    rcases hq with rfl | hq
    · have hself := Passes.self env
        ⟨ctx, locals, .block (declaredNames binding.toList) body⟩ rfl
      exact (Passes.declaring (touches_declareAll env _ binding.toList) fun _ => hself).inScope.left
        (fun _ => touches_typeClauses env binding subject clauses) hu
    · have hblock (t : Option Ty) := ((touches_declareAll env t binding.toList).bind fun _ _ =>
        touches_stmts env body).inScope
      exact Passes.after (hblock _) (fun _ => ih hq hu.right) hu

theorem visitStmts_comm (env : FileEnv) (comm : Option Stmt) (body : List Stmt) :
    visitStmts env (comm.toList ++ body) = visitStmt? env comm >>= fun _ => visitStmts env body := by
  cases comm <;> simp [visitStmts, visitStmt?]

theorem stmtsMarks_comm (comm : Option Stmt) (body : List Stmt) :
    stmtsMarks (comm.toList ++ body) = stmt?Marks comm ++ stmtsMarks body := by
  cases comm <;> simp [stmtsMarks, stmt?Marks]

theorem touches_commClauses (env : FileEnv) (clauses : List CommClause) :
    Touches (commClausesMarks clauses) [] (visitCommClauses env clauses) :=
  visitCommClauses_visits (keeps_true env) clauses

theorem passes_commClauses {clauses : List CommClause}
    (hq : q ∈ pointsOf ctx locals (clauses.map CommClause.code))
    (hu : UniqueIds (commClausesMarks clauses)) :
    Passes env (commClausesMarks clauses) locals (visitCommClauses env clauses) q := by
  induction clauses generalizing ctx with
  | nil => simp [pointsOf] at hq
  | cons clause clauses ih =>
    obtain ⟨comm, body⟩ := clause
    rw [commClausesMarks, ← stmtsMarks_comm] at hu ⊢
    rw [visitCommClauses, ← visitStmts_comm]
    simp only [List.map_cons, CommClause.code, pointsOf, Code.declares, List.append_nil,
      List.mem_cons] at hq
    rcases hq with rfl | hq
    · exact (Passes.block (comm.toList ++ body)).left (fun _ => touches_commClauses env clauses) hu
    · exact Passes.after (touches_block env (comm.toList ++ body)) (fun _ => ih hq hu.right) hu

/-! ## Statements -/

/-- Where a range statement defines its targets, they are names. -/
def Stmt.PlainRange : Stmt → Prop
  | .range key value true _ _ => (∀ x ∈ key, x.ident?.isSome) ∧ ∀ x ∈ value, x.ident?.isSome
  | _ => True

theorem touches_expr? (env : FileEnv) (x : Option Expr) :
    Touches (expr?Marks x) [] (visitExpr? env x) := (visitExpr?_visits (keeps_true env) x).touches

theorem touches_stmt? (env : FileEnv) (s : Option Stmt) :
    Touches (stmt?Marks s) (s.toList.flatMap Stmt.declares) (visitStmt? env s) :=
  visitStmt?_visits (keeps_true env) s

theorem passes_assign {lhs rhs : List Expr} {define : Bool}
    (hq : q ∈ pointsOf ctx locals (Stmt.assign lhs rhs define).parts) (hname : ¬ q.code.IsName)
    (hu : UniqueIds (exprsMarks rhs ++ exprsMarks lhs)) :
    Passes env (exprsMarks rhs ++ exprsMarks lhs) locals (visitStmt env (.assign lhs rhs define))
      q := by
  have htargets (types : List (Option Ty)) : Touches (exprsMarks lhs)
      (declaredNames (lhs.filterMap Expr.ident?))
      (if define then visitTargets env lhs (spreadTypes lhs.length types)
        else do let _ ← visitExprs env lhs) := by
    split_ifs
    · exact touches_targets env lhs _
    · exact (touches_exprs env lhs).drop.weaken (List.Subset.refl _) (by simp)
  have hclosures := declares_closures lhs rhs
  have hsilent := declares_targetParts lhs define
  simp only [Stmt.parts, pointsOf_append, List.flatMap_append, hclosures, hsilent, List.append_nil,
    List.mem_append] at hq
  rw [visitStmt]
  rcases hq with (hq | hq) | hq
  · exact (passes_closures hq hu.left).left htargets hu
  · refine Passes.after (touches_exprs env rhs) (fun types => ?_) hu
    cases define with
    | true =>
      have htarget : Passes env (exprsMarks lhs) (locals ++ [])
          (visitTargets env lhs (spreadTypes lhs.length types)) q :=
        passes_definedTargets hq hname hu.right
      rwa [List.append_nil] at htarget
    | false => exact (passes_pointsOf_exprs hq hu.right).compute fun _ => touches_pure _
  · exact (passes_pointsOf_exprs hq hu.left).left htargets hu

theorem passes_ifThen {init orElse : Option Stmt} {cond : Expr} {body : List Stmt}
    (hq : q ∈ pointsOf ctx locals (Stmt.ifThen init cond body orElse).parts)
    (hu : UniqueIds (stmt?Marks init ++ (cond.marks ++ (stmtsMarks body ++ stmt?Marks orElse)))) :
    Passes env (stmt?Marks init ++ (cond.marks ++ (stmtsMarks body ++ stmt?Marks orElse))) locals
      (visitStmt env (.ifThen init cond body orElse)) q := by
  have helse := touches_stmt? env orElse
  have hbody := (touches_block env body).bind fun _ _ => helse
  have hcond := (touches_expr env cond).bind fun _ _ => hbody
  simp only [Stmt.parts, pointsOf_append, List.flatMap_append, declares_stmt?, List.flatMap_cons,
    List.flatMap_nil, Code.declares, List.append_nil, List.mem_append] at hq
  rw [visitStmt]
  refine Passes.inScope ?_
  rcases hq with (hq | hq) | hq
  · exact (passes_stmt? hq).left (fun _ => hcond) hu
  · refine Passes.right (touches_stmt? env init) (fun _ => ?_) hu
    simp only [pointsOf, List.mem_cons, Code.declares, List.append_nil, List.not_mem_nil,
      or_false] at hq
    rcases hq with rfl | rfl
    · exact (Passes.expr env _ _ cond).left (fun _ => hbody) hu.right
    · exact Passes.after (touches_expr env cond)
        (fun _ => (Passes.block body).left (fun _ => helse) hu.right.right) hu.right
  · exact Passes.right (touches_stmt? env init) (fun _ => Passes.after (touches_expr env cond)
      (fun _ => Passes.after (touches_block env body) (fun _ => passes_stmt? hq) hu.right.right)
      hu.right) hu

theorem passes_loop {init post : Option Stmt} {cond : Option Expr} {body : List Stmt}
    (hq : q ∈ pointsOf ctx locals (Stmt.loop init cond post body).parts)
    (hu : UniqueIds (stmt?Marks init ++ (expr?Marks cond ++ (stmt?Marks post ++ stmtsMarks body)))) :
    Passes env (stmt?Marks init ++ (expr?Marks cond ++ (stmt?Marks post ++ stmtsMarks body))) locals
      (visitStmt env (.loop init cond post body)) q := by
  have hbody := touches_block env body
  have hpost := (touches_stmt? env post).bind fun _ _ => hbody
  have hcond := (touches_expr? env cond).bind fun _ _ => hpost
  simp only [Stmt.parts, pointsOf_append, List.flatMap_append, declares_stmt?, declares_exprs,
    List.append_nil, List.mem_append] at hq
  rw [visitStmt]
  refine Passes.inScope ?_
  rcases hq with ((hq | hq) | hq) | hq
  · exact (passes_stmt? hq).left (fun _ => hcond) hu
  · exact Passes.right (touches_stmt? env init)
      (fun _ => (passes_expr? hq).left (fun _ => hpost) hu.right) hu
  · exact Passes.right (touches_stmt? env init) (fun _ => Passes.after (touches_expr? env cond)
      (fun _ => (passes_stmt? hq).left (fun _ => hbody) hu.right.right) hu.right) hu
  · obtain rfl : q = _ := List.mem_singleton.mp hq
    refine Passes.right (touches_stmt? env init) (fun _ => Passes.after (touches_expr? env cond)
      (fun _ => Passes.right (touches_stmt? env post) (fun _ => ?_) hu.right.right) hu.right) hu
    rw [List.append_assoc]
    exact Passes.block body

/-- Names have nothing below them. -/
theorem isName_of_mem_target {target : Option Expr} (ht : ∀ x ∈ target, x.ident?.isSome)
    (hq : q ∈ pointsOf ctx locals (target.toList.map .expr)) : q.code.IsName := by
  obtain ⟨y, hy, hcode⟩ := List.mem_map.mp (code_mem_of_mem_pointsOf hq)
  obtain ⟨i, hi⟩ := Option.isSome_iff_exists.mp (ht y (Option.mem_toList.mp hy))
  obtain rfl := Expr.ident?_eq_some.mp hi
  rw [← hcode]
  trivial

theorem passes_rangeBody (t u : Option Ty) (key value : Option Expr) (body : List Stmt) :
    Passes env (stmtsMarks body) locals
      (Visit.inScope do
        Visit.declareAll env t (key.bind Expr.ident?).toList
        Visit.declareAll env u (value.bind Expr.ident?).toList
        Visit.inScope (visitStmts env body))
      ⟨ctx, locals, .block (rangeNames true key value) body⟩ := by
  have hentry : Point.entry ⟨ctx, locals, .block (rangeNames true key value) body⟩ =
      locals ++ declaredNames (key.bind Expr.ident?).toList ++
        declaredNames (value.bind Expr.ident?).toList := by
    rw [List.append_assoc, ← declaredNames_append]
    rfl
  exact (Passes.declaring (touches_declareAll env t _) fun _ =>
    Passes.declaring (touches_declareAll env u _) fun _ =>
      (Passes.self env _ hentry).inScope).inScope

theorem passes_range {key value : Option Expr} {define : Bool} {x : Expr} {body : List Stmt}
    (hq : q ∈ pointsOf ctx locals (Stmt.range key value define x body).parts)
    (hname : ¬ q.code.IsName) (hplain : (Stmt.range key value define x body).PlainRange)
    (hu : UniqueIds (x.marks ++ (expr?Marks key ++ (expr?Marks value ++ stmtsMarks body)))) :
    Passes env (x.marks ++ (expr?Marks key ++ (expr?Marks value ++ stmtsMarks body))) locals
      (visitStmt env (.range key value define x body)) q := by
  have hbody := touches_block env body
  simp only [Stmt.parts, pointsOf_append, List.flatMap_append, declares_exprs, List.append_nil,
    List.mem_append] at hq
  cases define with
  | true =>
    have hrest (t u : Option Ty) := ((touches_declareAll env t (key.bind Expr.ident?).toList).bind
      fun _ _ => (touches_declareAll env u (value.bind Expr.ident?).toList).bind fun _ _ =>
        hbody).inScope
    have hsub : (stmtsMarks body).Sublist (expr?Marks key ++ (expr?Marks value ++ stmtsMarks body)) :=
      (List.sublist_append_right _ _).trans (List.sublist_append_right _ _)
    rw [visitStmt]
    rcases hq with (hq | hq) | hq
    · exact absurd (isName_of_mem_target hplain.1 hq) hname
    · exact absurd (isName_of_mem_target hplain.2 hq) hname
    · simp only [pointsOf, List.mem_cons, Code.declares, List.append_nil, List.not_mem_nil,
        or_false] at hq
      rcases hq with rfl | rfl
      · exact (Passes.expr env _ _ x).left
          (fun _ => (hrest _ _).weaken (by simp) (List.Subset.refl _)) hu
      · exact Passes.after (touches_expr env x)
          (fun _ => (passes_rangeBody _ _ key value body).mono hsub) hu
  | false =>
    have hvalue := (touches_expr? env value).bind fun _ _ => hbody
    have hkey := ((touches_expr? env key).bind fun _ _ => hvalue).inScope
    rw [visitStmt]
    rcases hq with (hq | hq) | hq
    · exact Passes.after (touches_expr env x)
        (fun _ => ((passes_expr? hq).left (fun _ => hvalue) hu.right).inScope) hu
    · exact Passes.after (touches_expr env x) (fun _ => (Passes.after (touches_expr? env key)
        (fun _ => (passes_expr? hq).left (fun _ => hbody) hu.right.right) hu.right).inScope) hu
    · simp only [pointsOf, List.mem_cons, Code.declares, List.append_nil, List.not_mem_nil,
        or_false] at hq
      rcases hq with rfl | rfl
      · exact (Passes.expr env _ _ x).left (fun _ => hkey) hu
      · exact Passes.after (touches_expr env x) (fun _ => (Passes.after (touches_expr? env key)
          (fun _ => Passes.after (touches_expr? env value) (fun _ => Passes.block body)
            hu.right.right) hu.right).inScope) hu

theorem passes_switch {init : Option Stmt} {tag : Option Expr} {clauses : List Clause}
    (hq : q ∈ pointsOf ctx locals (Stmt.switch init tag clauses).parts)
    (hu : UniqueIds (stmt?Marks init ++ (expr?Marks tag ++ clausesMarks clauses))) :
    Passes env (stmt?Marks init ++ (expr?Marks tag ++ clausesMarks clauses)) locals
      (visitStmt env (.switch init tag clauses)) q := by
  have hclauses := touches_clauses env clauses
  have htag := (touches_expr? env tag).bind fun _ _ => hclauses
  simp only [Stmt.parts, pointsOf_append, List.flatMap_append, declares_stmt?, declares_exprs,
    List.append_nil, List.mem_append] at hq
  rw [visitStmt]
  refine Passes.inScope ?_
  rcases hq with (hq | hq) | hq
  · exact (passes_stmt? hq).left (fun _ => htag) hu
  · exact Passes.right (touches_stmt? env init)
      (fun _ => (passes_expr? hq).left (fun _ => hclauses) hu.right) hu
  · exact Passes.right (touches_stmt? env init) (fun _ => Passes.after (touches_expr? env tag)
      (fun _ => passes_clauses hq hu.right.right) hu.right) hu

theorem passes_typeSwitch {init : Option Stmt} {binding : Option Ident} {subject : Expr}
    {clauses : List TypeClause}
    (hq : q ∈ pointsOf ctx locals (Stmt.typeSwitch init binding subject clauses).parts)
    (hu : UniqueIds (stmt?Marks init ++ (subject.marks ++ typeClausesMarks clauses))) :
    Passes env (stmt?Marks init ++ (subject.marks ++ typeClausesMarks clauses)) locals
      (visitStmt env (.typeSwitch init binding subject clauses)) q := by
  have hclauses (t : Option Ty) := touches_typeClauses env binding t clauses
  have hsubject := (touches_expr env subject).bind fun t _ => hclauses t
  simp only [Stmt.parts, pointsOf_append, List.flatMap_append, declares_stmt?, List.flatMap_cons,
    List.flatMap_nil, Code.declares, List.append_nil, List.mem_append] at hq
  rw [visitStmt]
  refine Passes.inScope ?_
  rcases hq with (hq | hq) | hq
  · exact (passes_stmt? hq).left (fun _ => hsubject) hu
  · obtain rfl : q = _ := List.mem_singleton.mp hq
    exact Passes.right (touches_stmt? env init)
      (fun _ => (Passes.expr env _ _ subject).left hclauses hu.right) hu
  · exact Passes.right (touches_stmt? env init) (fun _ => Passes.after (touches_expr env subject)
      (fun _ => passes_typeClauses hq hu.right.right) hu.right) hu

/-- **The visit of a statement passes its parts.** -/
theorem passes_stmt_part {s : Stmt} (hq : q ∈ pointsOf ctx locals s.parts) (hname : ¬ q.code.IsName)
    (hplain : s.PlainRange) (hu : UniqueIds s.marks) :
    Passes env s.marks locals (visitStmt env s) q := by
  cases s with
  | expr x | incDec x =>
    obtain rfl : q = _ := List.mem_singleton.mp hq
    rw [visitStmt]
    exact (Passes.expr env _ _ x).compute fun _ => touches_pure _
  | go x | defer x =>
    obtain rfl : q = _ := List.mem_singleton.mp hq
    rw [visitStmt]
    exact Passes.operand _ x
  | assign lhs rhs define => exact passes_assign hq hname hu
  | declare specs =>
    rw [visitStmt]
    exact passes_specs hq hu
  | ret xs | other xs =>
    rw [visitStmt]
    exact (passes_pointsOf_exprs hq hu).compute fun _ => touches_pure _
  | block body =>
    obtain rfl : q = _ := List.mem_singleton.mp hq
    rw [visitStmt]
    exact Passes.block body
  | ifThen init cond body orElse =>
    simp only [Stmt.marks, List.append_assoc] at hu ⊢
    exact passes_ifThen hq hu
  | loop init cond post body =>
    simp only [Stmt.marks, List.append_assoc] at hu ⊢
    exact passes_loop hq hu
  | range key value define x body =>
    simp only [Stmt.marks, List.append_assoc] at hu ⊢
    exact passes_range hq hname hplain hu
  | switch init tag clauses =>
    simp only [Stmt.marks, List.append_assoc] at hu ⊢
    exact passes_switch hq hu
  | typeSwitch init binding subject clauses =>
    simp only [Stmt.marks, List.append_assoc] at hu ⊢
    exact (passes_typeSwitch hq hu.right).mono (List.sublist_append_right _ _)
  | select clauses =>
    rw [visitStmt]
    exact passes_commClauses hq hu
  | send chan value =>
    rw [visitStmt]
    simp only [Stmt.parts, pointsOf, List.mem_cons, Code.declares, List.append_nil,
      List.not_mem_nil, or_false] at hq
    rcases hq with rfl | rfl
    · exact (Passes.expr env _ _ chan).left (fun _ => (touches_expr env value).drop) hu
    · exact Passes.after (touches_expr env chan)
        (fun _ => (Passes.expr env _ _ value).compute fun _ => touches_pure _) hu
  | labeled body =>
    obtain rfl : q = _ := List.mem_singleton.mp hq
    rw [visitStmt]
    exact Passes.stmt body

end Lists

/-! ## Points -/

/-- Where the code is a range statement that defines its targets, they are names. -/
def Code.PlainRange : Code → Prop
  | .stmt s => s.PlainRange
  | _ => True

namespace Point

variable {env : FileEnv} {p q : Point}

/-- **The visit of a piece of code passes its parts.** -/
theorem passes_of_mem_parts (hq : q ∈ p.parts) (hname : ¬ q.code.IsName)
    (hplain : p.code.PlainRange) (hu : UniqueIds p.code.marks) :
    Passes env p.code.marks p.entry (p.code.visit env) q := by
  obtain ⟨ctx, locals, code⟩ := p
  cases code with
  | expr x => exact (passes_expr_parts hq hname hu).compute fun _ => touches_pure _
  | operand kind x =>
    rcases Code.parts_operand kind x with ⟨y, rfl, -⟩ | hparts
    · obtain rfl : q = _ := List.mem_singleton.mp hq
      rw [Code.visit, visitExpr]
      exact Passes.operand kind y
    · rw [Point.parts, hparts] at hq
      exact (passes_expr_parts hq hname hu).compute fun _ => touches_pure _
  | target binders x =>
    obtain rfl : q = _ := List.mem_singleton.mp hq
    exact (Passes.expr env _ _ x).compute fun _ => touches_pure _
  | stmt s => exact passes_stmt_part hq hname hplain hu
  | spec s =>
    obtain ⟨names, type, values⟩ := s
    have hmarks : specsMarks [.mk names type values] =
        names.map Ident.mark ++ (exprsMarks values ++ []) := by
      simp [specsMarks]
    have hdeclare (types : List (Option Ty)) : Touches [] (declaredNames names) (do
        Visit.declareValues env (type.bind env.resolve) names (spreadTypes names.length types)
        visitSpecs env []) := by
      rw [visitSpecs]
      exact (declareValues_visits (keeps_true env) (fun _ _ => trivial) names
        fun _ _ _ _ => trivial).compute fun _ _ => touches_pure _
    rw [Code.marks, hmarks] at hu ⊢
    rw [Code.visit, visitSpecs]
    exact ((passes_pointsOf_exprs hq hu.right.left).left hdeclare hu.right).mono
      (List.sublist_append_right _ _)
  | block binders body => exact passes_stmts hq hu
  | closure var binders body => exact passes_stmts hq hu

theorem isName_of_at? {site : Point} {path : List Nat} (hp : p.code.IsName)
    (h : p.at? path = some site) : site.code.IsName := by
  induction path generalizing p with
  | nil =>
    obtain rfl := Option.some.inj h
    exact hp
  | cons i path ih =>
    obtain ⟨part, hpart, h⟩ := Option.bind_eq_some_iff.mp h
    have hmem := code_mem_of_mem_pointsOf (List.mem_of_getElem? hpart)
    refine ih ?_ h
    unfold Code.IsName at hp
    split at hp
    · rename_i hcode
      rw [hcode] at hmem
      cases hmem
    · rename_i hcode
      rw [hcode] at hmem
      obtain hpart := List.mem_singleton.mp hmem
      rw [hpart]
      trivial
    · exact hp.elim

/-- **All that lies below a piece of code is passed**, with the scopes in which it stands. -/
theorem passes_of_at? {site : Point} {path : List Nat} (h : p.at? path = some site)
    (hname : ¬ site.code.IsName)
    (hplain : ∀ front q, front <+: path → p.at? front = some q → q.code.PlainRange)
    (hu : UniqueIds p.code.marks) : Passes env p.code.marks p.entry (p.code.visit env) site := by
  induction path generalizing p with
  | nil =>
    obtain rfl := Option.some.inj h
    exact Passes.self env p rfl
  | cons i path ih =>
    obtain ⟨part, hpart, h⟩ := Option.bind_eq_some_iff.mp h
    have hpartName : ¬ part.code.IsName := fun hn => hname (isName_of_at? hn h)
    have hpass : Passes env p.code.marks p.entry (p.code.visit env) part :=
      passes_of_mem_parts (List.mem_of_getElem? hpart) hpartName
        (hplain [] p List.nil_prefix rfl) hu
    refine hpass.trans (ih h (fun front q hfront hq => ?_) (hu.sublist hpass.sub))
    refine hplain (i :: front) q (List.cons_prefix_cons.mpr ⟨rfl, hfront⟩) ?_
    rw [Point.at?, hpart]
    exact hq

end Point

end GoCalls
