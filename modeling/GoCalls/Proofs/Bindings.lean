import GoCalls.Proofs.Code

/-!
# Bindings along the code

* **`Context.afterStmt_eq`**: the bindings after a statement are those after its parts, one after
  another.
* `Context.scope_after`: code never changes the routine around it.
-/

namespace GoCalls

/-- A value is a function literal, and its target a plain identifier. -/
def TakesClosure (x value : Expr) : Prop :=
  ∃ var params results body, x = .ident var ∧ value = .func params results body

theorem closure?_eq_none {x value : Expr} (h : ¬ TakesClosure x value) :
    closure? (x, value) = none :=
  closure?.eq_2 _ fun var params results body e =>
    h ⟨var, params, results, body, (Prod.mk.inj e).1, (Prod.mk.inj e).2⟩

theorem afterValue_eq_self (ctx : Context) {x value : Expr} (h : ¬ TakesClosure x value) :
    ctx.afterValue x value = ctx :=
  Context.afterValue.eq_2 ctx x value fun var params results body hx hv =>
    h ⟨var, params, results, body, hx, hv⟩

/-! ## Lists of parts -/

section Lists

variable (ctx : Context)

theorem after_exprs (xs : List Expr) : (xs.map Code.expr).foldl Context.after ctx = ctx := by
  induction xs with
  | nil => rfl
  | cons x xs ih => simpa [Context.after] using ih

theorem after_stmts (ss : List Stmt) :
    (ss.map Code.stmt).foldl Context.after ctx = ctx.afterStmts ss := by
  induction ss generalizing ctx with
  | nil => simp [Context.afterStmts]
  | cons s ss ih => simpa [Context.afterStmts, Context.after] using ih (ctx.afterStmt s)

theorem after_stmt? (s : Option Stmt) :
    (s.toList.map Code.stmt).foldl Context.after ctx = ctx.afterStmt? s := by
  cases s <;> simp [Context.afterStmt?, Context.after]

theorem after_closures (lhs rhs : List Expr) :
    ((lhs.zip rhs).filterMap closure?).foldl Context.after ctx = ctx.afterAssign lhs rhs := by
  induction lhs generalizing rhs ctx with
  | nil => simp [Context.afterAssign]
  | cons x xs ih =>
    cases rhs with
    | nil => simp [Context.afterAssign]
    | cons value values =>
      rw [List.zip_cons_cons, List.filterMap_cons, Context.afterAssign, ← ih]
      by_cases h : TakesClosure x value
      · obtain ⟨var, params, results, body, rfl, rfl⟩ := h
        rfl
      · rw [closure?_eq_none h, afterValue_eq_self ctx h]

theorem after_definedTargets (binders : List String) (xs : List Expr) :
    (definedTargets binders xs).foldl Context.after ctx = ctx := by
  induction xs generalizing binders with
  | nil => rfl
  | cons x xs ih => exact ih _

theorem after_targetParts (lhs : List Expr) (define : Bool) :
    (targetParts lhs define).foldl Context.after ctx = ctx := by
  cases define with
  | true => exact after_definedTargets ctx [] lhs
  | false => exact after_exprs ctx lhs

theorem after_specs (specs : List ValueSpec) :
    (specs.map Code.spec).foldl Context.after ctx = ctx := by
  induction specs with
  | nil => rfl
  | cons spec specs ih => simpa [Context.after] using ih

theorem after_clauses (clauses : List Clause) :
    (clauses.flatMap Clause.parts).foldl Context.after ctx = ctx.afterClauses clauses := by
  induction clauses generalizing ctx with
  | nil => simp [Context.afterClauses]
  | cons clause clauses ih =>
    obtain ⟨exprs, body⟩ := clause
    rw [List.flatMap_cons, List.foldl_append, ih, Clause.parts, List.foldl_append, after_exprs,
      Context.afterClauses]
    rfl

theorem after_typeClauses (binding : Option Ident) (clauses : List TypeClause) :
    (clauses.map (TypeClause.code binding)).foldl Context.after ctx =
      ctx.afterTypeClauses clauses := by
  induction clauses generalizing ctx with
  | nil => simp [Context.afterTypeClauses]
  | cons clause clauses ih =>
    obtain ⟨types, body⟩ := clause
    rw [List.map_cons, List.foldl_cons, ih, Context.afterTypeClauses]
    rfl

theorem afterStmts_comm (comm : Option Stmt) (body : List Stmt) :
    ctx.afterStmts (comm.toList ++ body) = (ctx.afterStmt? comm).afterStmts body := by
  cases comm <;> simp [Context.afterStmts, Context.afterStmt?]

theorem after_commClauses (clauses : List CommClause) :
    (clauses.map CommClause.code).foldl Context.after ctx = ctx.afterCommClauses clauses := by
  induction clauses generalizing ctx with
  | nil => simp [Context.afterCommClauses]
  | cons clause clauses ih =>
    obtain ⟨comm, body⟩ := clause
    rw [List.map_cons, List.foldl_cons, ih, Context.afterCommClauses, ← afterStmts_comm]
    rfl

end Lists

/-! ## Statements -/

/-- **The bindings after a statement** are those after its parts. -/
theorem Context.afterStmt_eq (ctx : Context) (s : Stmt) :
    ctx.afterStmt s = s.parts.foldl Context.after ctx := by
  cases s <;> simp only [Context.afterStmt, Stmt.parts, List.foldl_append, after_exprs, after_specs,
    after_stmt?, after_closures, after_targetParts, after_clauses, after_typeClauses,
    after_commClauses]
  all_goals rfl

theorem Context.after_eq (ctx : Context) {c : Code}
    (hc : ∀ var binders body, c ≠ .closure var binders body) :
    ctx.after c = c.parts.foldl Context.after ctx := by
  cases c with
  | expr x => rw [Code.parts, after_exprs]; rfl
  | operand kind x =>
    rcases Code.parts_operand kind x with ⟨y, rfl, -⟩ | hparts
    · rfl
    · rw [hparts, after_exprs]
      rfl
  | target binders x => rfl
  | stmt s => exact ctx.afterStmt_eq s
  | spec s =>
    obtain ⟨names, type, values⟩ := s
    rw [Code.parts, after_exprs]
    rfl
  | block binders body => exact (after_stmts ctx body).symm
  | closure var binders body => exact absurd rfl (hc var binders body)

/-! ## The routine around the code -/

theorem scope_foldl_after {cs : List Code}
    (h : ∀ c ∈ cs, ∀ ctx : Context, (ctx.after c).scope = ctx.scope) (ctx : Context) :
    (cs.foldl Context.after ctx).scope = ctx.scope := by
  induction cs generalizing ctx with
  | nil => rfl
  | cons c cs ih =>
    rw [List.foldl_cons, ih fun c hc => h c (List.mem_cons_of_mem _ hc), h c List.mem_cons_self]

theorem Context.scope_after (ctx : Context) (c : Code) : (ctx.after c).scope = ctx.scope := by
  induction c using Code.induction generalizing ctx with
  | step c ih =>
    by_cases hc : ∃ var binders body, c = .closure var binders body
    · obtain ⟨var, binders, body, rfl⟩ := hc
      rfl
    · rw [ctx.after_eq fun var binders body e => hc ⟨var, binders, body, e⟩]
      exact scope_foldl_after (fun d hd ctx => ih d hd ctx) ctx

theorem Context.scopedName_ne_empty (ctx : Context) (var : String) : ctx.scopedName var ≠ "" := by
  intro h
  have := congrArg String.length h
  simp [Context.scopedName] at this

theorem scope_of_mem_pointsOf {ctx : Context} {locals : List String} {cs : List Code} {q : Point}
    (h : q ∈ pointsOf ctx locals cs) : q.ctx.scope = ctx.scope := by
  induction cs generalizing ctx locals with
  | nil => simp [pointsOf] at h
  | cons c cs ih =>
    rcases List.mem_cons.mp h with rfl | h
    · rfl
    · rw [ih h, Context.scope_after]

/-- The parts of code in a routine lie in one. -/
theorem Point.scope_ne_empty_of_mem_parts {p q : Point} (hp : p.ctx.scope ≠ "") (hq : q ∈ p.parts) :
    q.ctx.scope ≠ "" := by
  rw [scope_of_mem_pointsOf hq]
  cases hc : p.code <;> try exact hp
  exact p.ctx.scopedName_ne_empty _

theorem Point.scope_ne_empty_of_at? {p q : Point} {path : List Nat} (hp : p.ctx.scope ≠ "")
    (h : p.at? path = some q) : q.ctx.scope ≠ "" := by
  induction path generalizing p with
  | nil => simp only [Point.at?, Option.some.injEq] at h; exact h ▸ hp
  | cons i path ih =>
    obtain ⟨part, hpart, h⟩ := Option.bind_eq_some_iff.mp h
    exact ih (Point.scope_ne_empty_of_mem_parts hp (List.mem_of_getElem? hpart)) h

end GoCalls
