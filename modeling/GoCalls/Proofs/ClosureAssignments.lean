import GoCalls.Proofs.ClosureScopes
import Mathlib.Logic.Relation

/-!
# What a block binds

Tracing a block changes the bindings of its context exactly by the assignments in it that give
function literals to variables. They count wherever statements lie within statements, but not inside
of function literals, whose bodies are traced in contexts of their own.

* `Stmt.inner`: the statements directly inside a statement.
* `Stmt.GivesClosure`: an assignment gives a function literal to a variable.
* `Context.Rebinds`: two contexts differ in the bindings of some variables.
* **`Context.rebinds_afterStmt`**: the variables that a statement binds.
* **`block_binds_exactly`**: the context after a block.
-/

namespace GoCalls

open Relation

/-! ## Statements in statements -/

/-- The statements of a clause. -/
def Clause.stmts : Clause → List Stmt
  | .mk _ body => body

def TypeClause.stmts : TypeClause → List Stmt
  | .mk _ body => body

/-- The statements of a clause, of which the communication is the first. -/
def CommClause.stmts : CommClause → List Stmt
  | .mk comm body => comm.toList ++ body

/-- The statements directly inside a statement, in the order in which they are traced. -/
def Stmt.inner : Stmt → List Stmt
  | .block body | .range _ _ _ _ body => body
  | .ifThen init _ body orElse => init.toList ++ body ++ orElse.toList
  | .loop init _ post body => init.toList ++ post.toList ++ body
  | .switch init _ clauses => init.toList ++ clauses.flatMap Clause.stmts
  | .typeSwitch init _ _ clauses => init.toList ++ clauses.flatMap TypeClause.stmts
  | .select clauses => clauses.flatMap CommClause.stmts
  | .labeled body => [body]
  | .expr _ | .assign _ _ _ | .declare _ | .go _ | .defer _ | .ret _ | .send _ _ | .incDec _
  | .other _ => []

/-- A statement lies in a block, directly or inside of other statements. -/
def Stmt.LiesIn (s : Stmt) (block : List Stmt) : Prop :=
  ∃ t ∈ block, ReflTransGen (fun t u => u ∈ t.inner) t s

/-- An assignment has a variable in a left position, and a function literal in the right position
that belongs to it. -/
def Stmt.GivesClosure (s : Stmt) (var : String) : Prop :=
  ∃ lhs rhs define, s = .assign lhs rhs define ∧ ∃ (i id : Nat) (params results : List Field)
    (body : List Stmt), lhs[i]? = some (.ident ⟨id, var⟩) ∧
      rhs[i]? = some (.func params results body)

theorem sizeOf_lt_of_mem_clauses {clauses : List Clause} {t : Stmt}
    (h : t ∈ clauses.flatMap Clause.stmts) : sizeOf t < sizeOf clauses := by
  obtain ⟨⟨exprs, body⟩, hmem, ht⟩ := List.mem_flatMap.mp h
  have hbody : sizeOf t < sizeOf body := List.sizeOf_lt_of_mem ht
  have hclause := List.sizeOf_lt_of_mem hmem
  rw [Clause.mk.sizeOf_spec] at hclause
  omega

theorem sizeOf_lt_of_mem_typeClauses {clauses : List TypeClause} {t : Stmt}
    (h : t ∈ clauses.flatMap TypeClause.stmts) : sizeOf t < sizeOf clauses := by
  obtain ⟨⟨types, body⟩, hmem, ht⟩ := List.mem_flatMap.mp h
  have hbody : sizeOf t < sizeOf body := List.sizeOf_lt_of_mem ht
  have hclause := List.sizeOf_lt_of_mem hmem
  rw [TypeClause.mk.sizeOf_spec] at hclause
  omega

theorem sizeOf_lt_of_mem_commClauses {clauses : List CommClause} {t : Stmt}
    (h : t ∈ clauses.flatMap CommClause.stmts) : sizeOf t < sizeOf clauses := by
  obtain ⟨⟨comm, body⟩, hmem, ht⟩ := List.mem_flatMap.mp h
  have hclause := List.sizeOf_lt_of_mem hmem
  rw [CommClause.mk.sizeOf_spec] at hclause
  rcases List.mem_append.mp ht with ht | ht
  · have hcomm := sizeOf_lt_of_mem_toList ht
    omega
  · have hbody := List.sizeOf_lt_of_mem ht
    omega

theorem Stmt.sizeOf_lt_of_mem_inner {s t : Stmt} (h : t ∈ s.inner) : sizeOf t < sizeOf s := by
  cases s <;>
    simp only [Stmt.inner, List.mem_append, List.mem_cons, List.not_mem_nil, or_false] at h
  case block =>
    have hbody := List.sizeOf_lt_of_mem h
    rw [Stmt.block.sizeOf_spec]
    omega
  case range =>
    have hbody := List.sizeOf_lt_of_mem h
    rw [Stmt.range.sizeOf_spec]
    omega
  case ifThen =>
    rw [Stmt.ifThen.sizeOf_spec]
    rcases h with (h | h) | h
    · have hinit := sizeOf_lt_of_mem_toList h
      omega
    · have hbody := List.sizeOf_lt_of_mem h
      omega
    · have helse := sizeOf_lt_of_mem_toList h
      omega
  case loop =>
    rw [Stmt.loop.sizeOf_spec]
    rcases h with (h | h) | h
    · have hinit := sizeOf_lt_of_mem_toList h
      omega
    · have hpost := sizeOf_lt_of_mem_toList h
      omega
    · have hbody := List.sizeOf_lt_of_mem h
      omega
  case switch =>
    rw [Stmt.switch.sizeOf_spec]
    rcases h with h | h
    · have hinit := sizeOf_lt_of_mem_toList h
      omega
    · have hclauses := sizeOf_lt_of_mem_clauses h
      omega
  case typeSwitch =>
    rw [Stmt.typeSwitch.sizeOf_spec]
    rcases h with h | h
    · have hinit := sizeOf_lt_of_mem_toList h
      omega
    · have hclauses := sizeOf_lt_of_mem_typeClauses h
      omega
  case select =>
    have hclauses := sizeOf_lt_of_mem_commClauses h
    rw [Stmt.select.sizeOf_spec]
    omega
  case labeled =>
    subst h
    rw [Stmt.labeled.sizeOf_spec]
    omega

/-! ## Contexts that differ in some bindings -/

namespace Context

/-- The context `after` is as `before`, but for the closures that `bound` variables hold. -/
structure Rebinds (before after : Context) (bound : String → Prop) : Prop where
  package : after.package = before.package
  scope : after.scope = before.scope
  changed : ∀ var, bound var → after.lookup var = some (before.scopedName var)
  kept : ∀ var, ¬ bound var → after.lookup var = before.lookup var

theorem scopedName_congr {a b : Context} (hpackage : a.package = b.package)
    (hscope : a.scope = b.scope) (var : String) : a.scopedName var = b.scopedName var := by
  rw [scopedName, scopedName, hpackage, hscope]

namespace Rebinds

variable {a b c : Context} {P Q : String → Prop}

theorem refl (a : Context) : Rebinds a a fun _ => False :=
  ⟨rfl, rfl, fun _ h => h.elim, fun _ _ => rfl⟩

theorem congr (h : Rebinds a b P) (hpq : ∀ var, P var ↔ Q var) : Rebinds a b Q :=
  ⟨h.package, h.scope, fun var hvar => h.changed var ((hpq var).mpr hvar),
    fun var hvar => h.kept var fun hp => hvar ((hpq var).mp hp)⟩

/-- One change after another, in one routine. -/
theorem trans (hab : Rebinds a b P) (hbc : Rebinds b c Q) :
    Rebinds a c fun var => P var ∨ Q var := by
  refine ⟨hbc.package.trans hab.package, hbc.scope.trans hab.scope, fun var hvar => ?_,
    fun var hvar => ?_⟩
  · by_cases hq : Q var
    · rw [hbc.changed var hq, scopedName_congr hab.package hab.scope]
    · rw [hbc.kept var hq, hab.changed var (hvar.resolve_right hq)]
  · rw [hbc.kept var fun hq => hvar (.inr hq), hab.kept var fun hp => hvar (.inl hp)]

theorem bind (a : Context) (var : String) :
    Rebinds a (a.bind var (a.scopedName var)) (· = var) := by
  refine ⟨rfl, rfl, fun x hx => ?_, fun x hx => ?_⟩
  · rw [lookup_bind, if_pos hx, hx]
  · rw [lookup_bind, if_neg hx]

theorem foldl {bound : Stmt → String → Prop} {ss : List Stmt}
    (h : ∀ s ∈ ss, ∀ ctx : Context, Rebinds ctx (ctx.afterStmt s) (bound s)) (ctx : Context) :
    Rebinds ctx (ss.foldl Context.afterStmt ctx) fun var => ∃ s ∈ ss, bound s var := by
  induction ss generalizing ctx with
  | nil => exact (refl ctx).congr fun var => by simp
  | cons s ss ih =>
    have hrest := ih (fun t ht => h t (List.mem_cons_of_mem _ ht)) (ctx.afterStmt s)
    exact ((h s List.mem_cons_self ctx).trans hrest).congr fun var => by simp

end Rebinds

theorem rebinds_afterAssign (ctx : Context) (lhs rhs : List Expr) :
    Rebinds ctx (ctx.afterAssign lhs rhs) fun var =>
      ∃ (i id : Nat) (params results : List Field) (body : List Stmt),
        lhs[i]? = some (.ident ⟨id, var⟩) ∧ rhs[i]? = some (.func params results body) := by
  induction lhs generalizing rhs ctx with
  | nil => exact (Rebinds.refl ctx).congr fun var => by simp
  | cons x xs ih =>
    cases rhs with
    | nil => exact (Rebinds.refl ctx).congr fun var => by simp
    | cons value values =>
      rw [afterAssign]
      by_cases h : TakesClosure x value
      · obtain ⟨v, params, results, body, rfl, rfl⟩ := h
        refine ((Rebinds.bind ctx v.name).trans (ih _ values)).congr fun var => ⟨?_, ?_⟩
        · rintro (rfl | ⟨i, id, ps, rs, b, hx, hvalue⟩)
          · exact ⟨0, v.id, params, results, body, rfl, rfl⟩
          · exact ⟨i + 1, id, ps, rs, b, hx, hvalue⟩
        · rintro ⟨_ | i, id, ps, rs, b, hx, hvalue⟩
          · have hv : v = ⟨id, var⟩ := by simpa using hx
            exact .inl (by rw [hv])
          · exact .inr ⟨i, id, ps, rs, b, hx, hvalue⟩
      · rw [afterValue_eq_self ctx h]
        refine (ih ctx values).congr fun var => ⟨?_, ?_⟩
        · rintro ⟨i, id, ps, rs, b, hx, hvalue⟩
          exact ⟨i + 1, id, ps, rs, b, hx, hvalue⟩
        · rintro ⟨_ | i, id, ps, rs, b, hx, hvalue⟩
          · exact absurd ⟨_, ps, rs, b, Option.some.inj hx, Option.some.inj hvalue⟩ h
          · exact ⟨i, id, ps, rs, b, hx, hvalue⟩

/-! ## Statements -/

theorem afterStmts_eq_foldl (ctx : Context) (ss : List Stmt) :
    ctx.afterStmts ss = ss.foldl Context.afterStmt ctx := by
  induction ss generalizing ctx with
  | nil => rfl
  | cons s ss ih => exact ih _

theorem afterStmt?_eq_foldl (ctx : Context) (s : Option Stmt) :
    ctx.afterStmt? s = s.toList.foldl Context.afterStmt ctx := by
  cases s <;> rfl

theorem afterClauses_eq_foldl (ctx : Context) (clauses : List Clause) :
    ctx.afterClauses clauses = (clauses.flatMap Clause.stmts).foldl Context.afterStmt ctx := by
  induction clauses generalizing ctx with
  | nil => rfl
  | cons clause clauses ih =>
    obtain ⟨exprs, body⟩ := clause
    rw [afterClauses, ih, afterStmts_eq_foldl, List.flatMap_cons, List.foldl_append]
    rfl

theorem afterTypeClauses_eq_foldl (ctx : Context) (clauses : List TypeClause) :
    ctx.afterTypeClauses clauses =
      (clauses.flatMap TypeClause.stmts).foldl Context.afterStmt ctx := by
  induction clauses generalizing ctx with
  | nil => rfl
  | cons clause clauses ih =>
    obtain ⟨types, body⟩ := clause
    rw [afterTypeClauses, ih, afterStmts_eq_foldl, List.flatMap_cons, List.foldl_append]
    rfl

theorem afterCommClauses_eq_foldl (ctx : Context) (clauses : List CommClause) :
    ctx.afterCommClauses clauses =
      (clauses.flatMap CommClause.stmts).foldl Context.afterStmt ctx := by
  induction clauses generalizing ctx with
  | nil => rfl
  | cons clause clauses ih =>
    obtain ⟨comm, body⟩ := clause
    rw [afterCommClauses, ih, afterStmts_eq_foldl, afterStmt?_eq_foldl, List.flatMap_cons,
      List.foldl_append, CommClause.stmts, List.foldl_append]

/-- A statement changes the context as the statements inside of it do. -/
theorem afterStmt_eq_foldl (ctx : Context) {s : Stmt}
    (h : ∀ lhs rhs define, s ≠ .assign lhs rhs define) :
    ctx.afterStmt s = s.inner.foldl Context.afterStmt ctx := by
  cases s with
  | assign lhs rhs define => exact absurd rfl (h lhs rhs define)
  | _ => simp only [afterStmt, Stmt.inner, List.foldl_append, afterStmts_eq_foldl,
      afterStmt?_eq_foldl, afterClauses_eq_foldl, afterTypeClauses_eq_foldl,
      afterCommClauses_eq_foldl, List.foldl_cons, List.foldl_nil]

/-- **The variables that a statement binds.** -/
theorem rebinds_afterStmt (s : Stmt) (ctx : Context) :
    Rebinds ctx (ctx.afterStmt s) fun var =>
      ∃ t, ReflTransGen (fun t u => u ∈ t.inner) s t ∧ t.GivesClosure var := by
  by_cases hassign : ∃ lhs rhs define, s = .assign lhs rhs define
  · obtain ⟨lhs, rhs, define, rfl⟩ := hassign
    refine (rebinds_afterAssign ctx lhs rhs).congr fun var => ⟨?_, ?_⟩
    · intro h
      exact ⟨_, .refl, lhs, rhs, define, rfl, h⟩
    · rintro ⟨t, ht, hgives⟩
      -- Nothing lies inside an assignment.
      rcases ReflTransGen.cases_head ht with rfl | ⟨u, hu, -⟩
      · obtain ⟨_, _, _, ⟨⟩, h⟩ := hgives
        exact h
      · cases hu
  · rw [afterStmt_eq_foldl ctx fun lhs rhs define e => hassign ⟨lhs, rhs, define, e⟩]
    have hinner : ∀ t ∈ s.inner, ∀ ctx : Context, Rebinds ctx (ctx.afterStmt t) fun var =>
        ∃ u, ReflTransGen (fun t u => u ∈ t.inner) t u ∧ u.GivesClosure var := by
      intro t ht ctx
      have hlt : sizeOf t < sizeOf s := Stmt.sizeOf_lt_of_mem_inner ht
      exact rebinds_afterStmt t ctx
    refine (Rebinds.foldl hinner ctx).congr fun var => ⟨?_, ?_⟩
    · rintro ⟨t, ht, u, hu, hgives⟩
      exact ⟨u, .head ht hu, hgives⟩
    · rintro ⟨u, hu, hgives⟩
      rcases ReflTransGen.cases_head hu with rfl | ⟨t, ht, hu⟩
      · obtain ⟨lhs, rhs, define, hs, -⟩ := hgives
        exact absurd ⟨lhs, rhs, define, hs⟩ hassign
      · exact ⟨t, ht, u, hu, hgives⟩
termination_by sizeOf s

end Context

/-! ## Blocks -/

/-- What follows a block is traced in the context after it. -/
theorem stmtsTrace_append (tables : Option Tables) (ctx : Context) (block rest : List Stmt) :
    stmtsTrace tables ctx (block ++ rest) =
      stmtsTrace tables ctx block ++ stmtsTrace tables (ctx.afterStmts block) rest := by
  induction block generalizing ctx with
  | nil => exact (Trace.empty_append _).symm
  | cons s block ih =>
    rw [List.cons_append, stmtsTrace, stmtsTrace, ih, Context.afterStmts, Trace.append_assoc]

/-- **A block binds exactly the variables to which it gives closures**, and what follows it is
traced with them. -/
theorem block_binds_exactly (tables : Option Tables) (ctx : Context) (block : List Stmt) :
    let after := ctx.afterStmts block
    (∀ rest, stmtsTrace tables ctx (block ++ rest) =
        stmtsTrace tables ctx block ++ stmtsTrace tables after rest) ∧
      after.package = ctx.package ∧ after.scope = ctx.scope ∧
      ∀ var, ((∃ s : Stmt, s.LiesIn block ∧ s.GivesClosure var) →
          after.lookup var = some (ctx.scopedName var)) ∧
        ((¬ ∃ s : Stmt, s.LiesIn block ∧ s.GivesClosure var) →
          after.lookup var = ctx.lookup var) := by
  intro after
  have hfold : Context.Rebinds ctx after fun var => ∃ t ∈ block, ∃ s,
      ReflTransGen (fun t u => u ∈ t.inner) t s ∧ s.GivesClosure var := by
    have hafter : after = block.foldl Context.afterStmt ctx := ctx.afterStmts_eq_foldl block
    rw [hafter]
    exact Context.Rebinds.foldl (fun s _ ctx => ctx.rebinds_afterStmt s) ctx
  have hrebinds : Context.Rebinds ctx after fun var =>
      ∃ s : Stmt, s.LiesIn block ∧ s.GivesClosure var := by
    refine hfold.congr fun var => ⟨?_, ?_⟩
    · rintro ⟨t, ht, s, hs, hgives⟩
      exact ⟨s, ⟨t, ht, hs⟩, hgives⟩
    · rintro ⟨s, ⟨t, ht, hs⟩, hgives⟩
      exact ⟨t, ht, s, hs, hgives⟩
  exact ⟨stmtsTrace_append tables ctx block, hrebinds.package, hrebinds.scope,
    fun var => ⟨hrebinds.changed var, hrebinds.kept var⟩⟩

end GoCalls
