import GoCalls.Proofs.Bindings
import Mathlib.Data.List.Forall2

/-!
# One edge for each call

* `Point.trace`: the trace of a piece of code where it stands; `Point.own`: what of it comes from the
  piece itself and not from its parts.
* **`Point.trace_eq`**: the trace of a piece of code is its own, then those of its parts in order.
* **`edges_of_reached_calls`**: the edges of a body stand for its calls.
-/

namespace GoCalls

/-! ## Traces -/

namespace Trace

@[simp] theorem nodes_append (s t : Trace) : (s ++ t).nodes = s.nodes ++ t.nodes := rfl

@[simp] theorem edges_append (s t : Trace) : (s ++ t).edges = s.edges ++ t.edges := rfl

theorem eq_of_parts {s t : Trace} (hn : s.nodes = t.nodes) (he : s.edges = t.edges) : s = t := by
  cases s; cases t; simp_all

@[simp] theorem append_empty (t : Trace) : t ++ {} = t := by
  apply eq_of_parts <;> simp

@[simp] theorem empty_append (t : Trace) : {} ++ t = t := by
  apply eq_of_parts <;> simp

theorem append_assoc (s t u : Trace) : s ++ t ++ u = s ++ (t ++ u) := by
  apply eq_of_parts <;> simp

@[simp] theorem ofEdges_nil : ofEdges [] = {} := rfl

@[simp] theorem ofEdges_append (as bs : List Edge) :
    ofEdges (as ++ bs) = ofEdges as ++ ofEdges bs := rfl

end Trace

variable (tables : Option Tables)

/-- The trace of a piece of code where it stands. -/
def Point.trace (p : Point) : Trace :=
  match p.code with
  | .expr x | .target _ x => .ofEdges (exprEdges tables p.ctx x)
  | .operand kind x => .ofEdges (operandEdges tables p.ctx kind x)
  | .stmt s => stmtTrace tables p.ctx s
  | .spec s => .ofEdges (specsEdges tables p.ctx [s])
  | .block _ body => stmtsTrace tables p.ctx body
  | .closure var _ body =>
    let name := p.ctx.scopedName var
    { nodes := [name] } ++ stmtsTrace tables ((p.ctx.bind var name).enter name) body

/-- What a piece of code adds before its parts do: the edge of a call, the node of a closure. -/
def Point.own (p : Point) : Trace where
  nodes := match p.code with
    | .closure var _ _ => [p.ctx.scopedName var]
    | _ => []
  edges := match p.code.call? with
    | some (kind, fn) => callEdges tables p.ctx kind fn
    | none => []

/-- The traces of some points, one after another. -/
def tracesOf (points : List Point) : Trace := points.foldr (fun p t => p.trace tables ++ t) {}

@[simp] theorem tracesOf_nil : tracesOf tables [] = {} := rfl

@[simp] theorem tracesOf_cons (p : Point) (ps : List Point) :
    tracesOf tables (p :: ps) = p.trace tables ++ tracesOf tables ps := rfl

theorem tracesOf_append (ps qs : List Point) :
    tracesOf tables (ps ++ qs) = tracesOf tables ps ++ tracesOf tables qs := by
  induction ps with
  | nil => simp
  | cons p ps ih => simp [ih, Trace.append_assoc]

/-! ## Lists of parts -/

section Lists

variable (ctx : Context) (locals : List String)

theorem tracesOf_exprs (xs : List Expr) :
    tracesOf tables (pointsOf ctx locals (xs.map .expr)) = .ofEdges (exprsEdges tables ctx xs) := by
  induction xs generalizing locals with
  | nil => rfl
  | cons x xs ih =>
    rw [List.map_cons, pointsOf, tracesOf_cons, exprsEdges, Trace.ofEdges_append]
    exact congrArg (_ ++ ·) (ih _)

theorem tracesOf_stmts (ss : List Stmt) :
    tracesOf tables (pointsOf ctx locals (ss.map .stmt)) = stmtsTrace tables ctx ss := by
  induction ss generalizing ctx locals with
  | nil => simp [pointsOf, stmtsTrace]
  | cons s ss ih =>
    rw [List.map_cons, pointsOf, tracesOf_cons, ih, stmtsTrace]
    rfl

theorem tracesOf_stmt? (s : Option Stmt) :
    tracesOf tables (pointsOf ctx locals (s.toList.map .stmt)) = stmt?Trace tables ctx s := by
  cases s <;> simp [pointsOf, stmt?Trace, Point.trace]

theorem tracesOf_specs (specs : List ValueSpec) :
    tracesOf tables (pointsOf ctx locals (specs.map .spec)) =
      .ofEdges (specsEdges tables ctx specs) := by
  induction specs generalizing locals with
  | nil => simp [pointsOf, specsEdges]
  | cons spec specs ih =>
    obtain ⟨names, type, values⟩ := spec
    rw [List.map_cons, pointsOf, tracesOf_cons, specsEdges, Trace.ofEdges_append]
    simp only [Context.after, ih]
    simp [Point.trace, specsEdges]

theorem tracesOf_closures (lhs rhs : List Expr) :
    tracesOf tables (pointsOf ctx locals ((lhs.zip rhs).filterMap closure?)) =
      closuresTrace tables ctx lhs rhs := by
  induction lhs generalizing rhs ctx locals with
  | nil => simp [pointsOf, closuresTrace]
  | cons x xs ih =>
    cases rhs with
    | nil => simp [pointsOf, closuresTrace]
    | cons value values =>
      rw [List.zip_cons_cons, List.filterMap_cons, closuresTrace]
      by_cases h : TakesClosure x value
      · obtain ⟨var, params, results, body, rfl, rfl⟩ := h
        simp only [closure?, pointsOf, tracesOf_cons, ih]
        simp only [Point.trace, closureTrace, Context.after, Context.afterValue]
      · rw [closure?_eq_none h, afterValue_eq_self ctx h, closureTrace.eq_2 tables ctx x value,
          Trace.empty_append]
        · exact ih ctx locals values
        · exact fun var params results body hx hv => h ⟨var, params, results, body, hx, hv⟩

theorem tracesOf_definedTargets (binders : List String) (xs : List Expr) :
    tracesOf tables (pointsOf ctx locals (definedTargets binders xs)) =
      .ofEdges (exprsEdges tables ctx xs) := by
  induction xs generalizing locals binders with
  | nil => rfl
  | cons x xs ih =>
    rw [definedTargets, pointsOf, tracesOf_cons, exprsEdges, Trace.ofEdges_append]
    exact congrArg (_ ++ ·) (ih _ _)

theorem tracesOf_targetParts (lhs : List Expr) (define : Bool) :
    tracesOf tables (pointsOf ctx locals (targetParts lhs define)) =
      .ofEdges (exprsEdges tables ctx lhs) := by
  cases define with
  | true => exact tracesOf_definedTargets tables ctx locals [] lhs
  | false => exact tracesOf_exprs tables ctx locals lhs

theorem tracesOf_clauses (clauses : List Clause) :
    tracesOf tables (pointsOf ctx locals (clauses.flatMap Clause.parts)) =
      clausesTrace tables ctx clauses := by
  induction clauses generalizing ctx locals with
  | nil => simp [pointsOf, clausesTrace]
  | cons clause clauses ih =>
    obtain ⟨exprs, body⟩ := clause
    rw [List.flatMap_cons, pointsOf_append, tracesOf_append, ih, clausesTrace, Clause.parts,
      List.foldl_append, after_exprs, pointsOf_append, tracesOf_append, tracesOf_exprs, after_exprs]
    simp [pointsOf, Point.trace, Context.after]

theorem tracesOf_typeClauses (binding : Option Ident) (clauses : List TypeClause) :
    tracesOf tables (pointsOf ctx locals (clauses.map (TypeClause.code binding))) =
      typeClausesTrace tables ctx clauses := by
  induction clauses generalizing ctx locals with
  | nil => simp [pointsOf, typeClausesTrace]
  | cons clause clauses ih =>
    obtain ⟨types, body⟩ := clause
    rw [List.map_cons, pointsOf, tracesOf_cons, ih, typeClausesTrace]
    rfl

theorem stmtsTrace_comm (comm : Option Stmt) (body : List Stmt) :
    stmtsTrace tables ctx (comm.toList ++ body) =
      stmt?Trace tables ctx comm ++ stmtsTrace tables (ctx.afterStmt? comm) body := by
  cases comm <;> simp [stmtsTrace, stmt?Trace, Context.afterStmt?]

theorem tracesOf_commClauses (clauses : List CommClause) :
    tracesOf tables (pointsOf ctx locals (clauses.map CommClause.code)) =
      commClausesTrace tables ctx clauses := by
  induction clauses generalizing ctx locals with
  | nil => simp [pointsOf, commClausesTrace]
  | cons clause clauses ih =>
    obtain ⟨comm, body⟩ := clause
    rw [List.map_cons, pointsOf, tracesOf_cons, ih, commClausesTrace, ← stmtsTrace_comm,
      ← afterStmts_comm]
    rfl

end Lists

/-! ## A piece of code and its parts -/

/-- The edge of a call, if an expression is one. -/
def headEdges (ctx : Context) : Expr → List Edge
  | .call fn _ => callEdges tables ctx none fn
  | _ => []

theorem exprEdges_eq (ctx : Context) (x : Expr) :
    exprEdges tables ctx x = headEdges tables ctx x ++ exprsEdges tables ctx x.parts := by
  cases x <;> simp [headEdges, Expr.parts, exprEdges, exprsEdges]

theorem own_expr (ctx : Context) (locals : List String) (x : Expr) :
    Point.own tables ⟨ctx, locals, .expr x⟩ = .ofEdges (headEdges tables ctx x) := by
  cases x <;> rfl

theorem own_of_call?_eq_none {ctx : Context} {locals : List String} {c : Code}
    (hc : c.call? = none) (hn : ∀ var binders body, c ≠ .closure var binders body) :
    Point.own tables ⟨ctx, locals, c⟩ = {} := by
  apply Trace.eq_of_parts
  · cases c <;> first | rfl | exact absurd rfl (hn _ _ _)
  · simp [Point.own, hc]

theorem trace_eq_operand (ctx : Context) (locals : List String) (kind : CallKind) (x : Expr) :
    Trace.ofEdges (operandEdges tables ctx kind x) = Point.own tables ⟨ctx, locals, .operand kind x⟩ ++
      tracesOf tables (pointsOf ctx locals (Code.operand kind x).parts) := by
  cases x
  case call fn args =>
    rw [Code.parts, tracesOf_exprs, operandEdges, Expr.parts, exprsEdges, List.append_assoc]
    · rfl
    · simp
  case paren x =>
    rw [own_of_call?_eq_none tables rfl (by simp), Trace.empty_append]
    simp [Code.parts, pointsOf, Point.trace, operandEdges]
  all_goals
    rw [own_of_call?_eq_none tables rfl (by simp), Code.parts, tracesOf_exprs, operandEdges,
      exprEdges_eq]
    all_goals simp [headEdges]

theorem trace_eq_stmt (ctx : Context) (locals : List String) (s : Stmt) :
    stmtTrace tables ctx s = tracesOf tables (pointsOf ctx locals s.parts) := by
  cases s <;> simp only [stmtTrace, Stmt.parts]
  case expr | incDec | go | defer | block | labeled => simp [pointsOf, Point.trace]
  case send => simp [pointsOf, Point.trace, Context.after]
  case ret | other => rw [tracesOf_exprs]
  case declare => rw [tracesOf_specs]
  case select => rw [tracesOf_commClauses]
  case assign lhs rhs define =>
    rw [pointsOf_append, pointsOf_append, tracesOf_append, tracesOf_append, tracesOf_closures,
      tracesOf_targetParts, tracesOf_exprs, List.foldl_append, after_closures, after_targetParts,
      Trace.ofEdges_append, Trace.append_assoc]
  case ifThen init cond body orElse =>
    rw [pointsOf_append, pointsOf_append, tracesOf_append, tracesOf_append, tracesOf_stmt?,
      tracesOf_stmt?, List.foldl_append, after_stmt?]
    simp [pointsOf, Point.trace, Context.after, Trace.append_assoc]
  case loop init cond post body =>
    rw [pointsOf_append, pointsOf_append, pointsOf_append, tracesOf_append, tracesOf_append,
      tracesOf_append, tracesOf_stmt?, tracesOf_exprs, tracesOf_stmt?]
    simp only [List.foldl_append, after_stmt?, after_exprs]
    simp [pointsOf, Point.trace]
  case range key value define x body =>
    rw [pointsOf_append, pointsOf_append, tracesOf_append, tracesOf_append, tracesOf_exprs,
      tracesOf_exprs, List.foldl_append, after_exprs, after_exprs]
    simp [pointsOf, Point.trace, Context.after, Trace.append_assoc]
  case switch init tag clauses =>
    rw [pointsOf_append, pointsOf_append, tracesOf_append, tracesOf_append, tracesOf_stmt?,
      tracesOf_exprs, tracesOf_clauses, List.foldl_append, after_stmt?, after_exprs]
  case typeSwitch init binding subject clauses =>
    rw [pointsOf_append, pointsOf_append, tracesOf_append, tracesOf_append, tracesOf_stmt?,
      tracesOf_typeClauses, List.foldl_append, after_stmt?]
    simp [pointsOf, Point.trace, Context.after]

/-- **The trace of a piece of code**: its own, then those of its parts. -/
theorem Point.trace_eq (p : Point) :
    p.trace tables = p.own tables ++ tracesOf tables p.parts := by
  obtain ⟨ctx, locals, code⟩ := p
  cases code with
  | expr x =>
    rw [Point.parts, Code.parts, tracesOf_exprs, own_expr, ← Trace.ofEdges_append]
    exact congrArg Trace.ofEdges (exprEdges_eq tables ctx x)
  | operand kind x => exact trace_eq_operand tables ctx (locals ++ []) kind x
  | target binders x =>
    rw [own_of_call?_eq_none tables rfl (by simp), Trace.empty_append]
    simp [Point.parts, Code.parts, pointsOf, Point.trace, Context.inside]
  | stmt s =>
    rw [own_of_call?_eq_none tables rfl (by simp), Trace.empty_append]
    exact trace_eq_stmt tables ctx _ s
  | spec s =>
    obtain ⟨names, type, values⟩ := s
    rw [own_of_call?_eq_none tables rfl (by simp), Trace.empty_append, Point.parts, Code.parts,
      tracesOf_exprs]
    simp [Point.trace, specsEdges, Context.inside]
  | block binders body =>
    rw [own_of_call?_eq_none tables rfl (by simp), Trace.empty_append, Point.parts, Code.parts,
      tracesOf_stmts]
    rfl
  | closure var binders body =>
    rw [Point.parts, Code.parts, tracesOf_stmts]
    rfl

/-! ## The edges of a walk -/

theorem edges_tracesOf (points : List Point) :
    (tracesOf tables points).edges = points.flatMap fun p => (p.trace tables).edges := by
  induction points with
  | nil => rfl
  | cons p ps ih => simp [ih]

/-- **The edges of a piece of code** are those along its walk. -/
theorem Point.edges_trace (p : Point) :
    (p.trace tables).edges = p.walk.flatMap fun site => (site.2.own tables).edges := by
  induction p using Point.induction with
  | step p ih =>
    have hparts : ∀ part ∈ p.parts.zipIdx, (part.1.trace tables).edges =
        (part.1.walk.map fun site => (part.2 :: site.1, site.2)).flatMap
          fun site => (site.2.own tables).edges := by
      intro part hpart
      rw [ih part.1 (List.fst_mem_of_mem_zipIdx hpart), List.flatMap_map]
    calc (p.trace tables).edges
        = (p.own tables).edges ++ p.parts.flatMap fun q => (q.trace tables).edges := by
          rw [Point.trace_eq, Trace.edges_append, edges_tracesOf]
      _ = (p.own tables).edges ++ p.parts.zipIdx.flatMap fun part => (part.1.trace tables).edges := by
          conv_lhs => rw [← List.zipIdx_map_fst 0 p.parts, List.flatMap_map]
      _ = (p.own tables).edges ++ (p.parts.zipIdx.flatMap fun part => part.1.walk.map
            fun site => (part.2 :: site.1, site.2)).flatMap fun site => (site.2.own tables).edges := by
          rw [List.flatMap_assoc, List.flatMap_congr hparts]
      _ = p.walk.flatMap fun site => (site.2.own tables).edges := by
          rw [Point.walk_eq, List.flatMap_cons]

/-! ## Calls -/

/-- Is the callee of a call a name or a selector? -/
def Expr.isNamed : Expr → Bool
  | .ident _ | .selector _ _ _ => true
  | _ => false

/-- Is a piece of code a call of a name or a selector? -/
def Code.isNamedCall (c : Code) : Bool := c.call?.any (·.2.isNamed)

/-- A call at a point stands in a graph as an edge, with the kind of its statement or of its callee.
-/
structure Point.RecordedAs (site : Point) (edge : Edge) : Prop where
  source : edge.source = site.ctx.scope
  target : ∃ kind fn callee, site.code.call? = some (kind, fn) ∧
    callee? tables site.ctx fn = some callee ∧ edge.target = callee.name
  go : edge.kind = .go ↔ ∃ x, site.code = .operand .go x
  defer : edge.kind = .defer ↔ ∃ x, site.code = .operand .defer x
  closure : edge.kind = .closure ↔ ∃ i args closure,
    site.code = .expr (.call (.ident i) args) ∧ site.ctx.lookup i.name = some closure

/-- Operands belong to `go` and `defer` statements. -/
def Code.SpawnsOperand : Code → Prop
  | .operand kind _ => kind = .go ∨ kind = .defer
  | _ => True

theorem Stmt.spawnsOperand_of_mem_parts {s : Stmt} {c : Code} (h : c ∈ s.parts) :
    c.SpawnsOperand := by
  cases c <;> try trivial
  cases s <;> simp only [Stmt.parts, List.mem_append, List.mem_map, List.mem_cons, reduceCtorEq,
    List.not_mem_nil, and_false, exists_false, or_false, false_or, List.mem_filterMap, List.mem_flatMap,
    Code.operand.injEq] at h
  case assign =>
    rcases h with ⟨pair, -, h⟩ | h
    · obtain ⟨_, _, _, _, -, h⟩ := closure?_eq_some h
      cases h
    · obtain ⟨x, -, h | ⟨names, h⟩⟩ := mem_targetParts h <;> cases h
  case go => exact .inl h.1
  case defer => exact .inr h.1
  case switch =>
    obtain ⟨⟨exprs, body⟩, -, h⟩ := h
    simp [Clause.parts] at h
  case typeSwitch =>
    obtain ⟨⟨types, body⟩, -, h⟩ := h
    simp [TypeClause.code] at h
  case select =>
    obtain ⟨⟨comm, body⟩, -, h⟩ := h
    simp [CommClause.code] at h

theorem Code.spawnsOperand_of_mem_parts {c d : Code} (hc : c.SpawnsOperand) (h : d ∈ c.parts) :
    d.SpawnsOperand := by
  cases c with
  | stmt s => exact Stmt.spawnsOperand_of_mem_parts h
  | operand kind x =>
    rcases Code.parts_operand kind x with ⟨y, rfl, -⟩ | hparts
    · obtain rfl := List.mem_singleton.mp h
      exact hc
    · rw [hparts] at h
      obtain ⟨y, -, rfl⟩ := List.mem_map.mp h
      trivial
  | expr x => obtain ⟨y, -, rfl⟩ := List.mem_map.mp h; trivial
  | target binders x => obtain rfl := List.mem_singleton.mp h; trivial
  | spec s =>
    obtain ⟨names, type, values⟩ := s
    obtain ⟨y, -, rfl⟩ := List.mem_map.mp h
    trivial
  | block | closure => obtain ⟨y, -, rfl⟩ := List.mem_map.mp h; trivial

theorem Point.spawnsOperand_of_at? {p q : Point} {path : List Nat} (hp : p.code.SpawnsOperand)
    (h : p.at? path = some q) : q.code.SpawnsOperand := by
  induction path generalizing p with
  | nil => simp only [Point.at?, Option.some.injEq] at h; exact h ▸ hp
  | cons i path ih =>
    obtain ⟨part, hpart, h⟩ := Option.bind_eq_some_iff.mp h
    have hmem := code_mem_of_mem_pointsOf (List.mem_of_getElem? hpart)
    exact ih (Code.spawnsOperand_of_mem_parts hp hmem) h

theorem exists_callee_of_isNamed (ctx : Context) {fn : Expr} (h : fn.isNamed) :
    ∃ callee, callee? tables ctx fn = some callee := by
  cases fn <;> first | exact ⟨_, rfl⟩ | exact absurd h (by simp [Expr.isNamed])

theorem callEdges_of_isNamed_eq_false (ctx : Context) (kind : Option CallKind) {fn : Expr}
    (h : ¬ fn.isNamed) : callEdges tables ctx kind fn = [] := by
  cases fn <;> first | rfl | exact absurd rfl h

/-- Closures are called by the names of bound variables. -/
theorem viaBinding_iff {ctx : Context} {fn : Expr} {callee : Callee}
    (h : callee? tables ctx fn = some callee) :
    callee.viaBinding = true ↔ ∃ i closure, fn = .ident i ∧ ctx.lookup i.name = some closure := by
  cases fn with
  | ident i =>
    simp only [callee?, Option.some.injEq] at h
    cases hl : ctx.lookup i.name with
    | some closure => simp [← h, calleeOfIdent, hl]
    | none =>
      simp only [calleeOfIdent, hl] at h
      split at h <;> simp [← h, hl]
  | selector id x sel =>
    simp only [callee?, Option.some.injEq] at h
    simp [← h]
  | _ => simp [callee?] at h

theorem Code.call?_cases {c : Code} {kind : Option CallKind} {fn : Expr}
    (h : c.call? = some (kind, fn)) :
    (∃ args, c = .expr (.call fn args) ∧ kind = none) ∨
      ∃ k args, c = .operand k (.call fn args) ∧ kind = some k := by
  cases c with
  | expr x => cases x <;> simp_all [Code.call?]
  | operand k x => cases x <;> simp_all [Code.call?]
  | _ => simp [Code.call?] at h

/-- A call of a name or a selector adds one edge. -/
theorem Point.own_edges_of_isNamedCall {p : Point} (hs : p.ctx.scope ≠ "")
    (hk : p.code.SpawnsOperand) (h : p.code.isNamedCall) :
    ∃ edge, (p.own tables).edges = [edge] ∧ p.RecordedAs tables edge := by
  obtain ⟨ctx, locals, code⟩ := p
  obtain ⟨⟨kind, fn⟩, hcall, hn⟩ := (Option.any_eq_true _ _).mp h
  obtain ⟨callee, hcallee⟩ := exists_callee_of_isNamed tables ctx hn
  have htarget : ∃ kind fn callee', code.call? = some (kind, fn) ∧
      callee? tables ctx fn = some callee' ∧ callee.name = callee'.name :=
    ⟨kind, fn, callee, hcall, hcallee, rfl⟩
  refine ⟨⟨ctx.scope, callee.name, kind.getD (if callee.viaBinding then .closure else .direct)⟩,
    by simp [Point.own, hcall, callEdges, hcallee, hs], ?_⟩
  obtain ⟨args, rfl, rfl⟩ | ⟨k, args, rfl, rfl⟩ := Code.call?_cases hcall
  · have hbind := viaBinding_iff tables hcallee
    refine ⟨rfl, htarget, ?_, ?_, ?_⟩
    · cases callee.viaBinding <;> simp
    · cases callee.viaBinding <;> simp
    · calc (if callee.viaBinding then CallKind.closure else .direct) = .closure
          ↔ callee.viaBinding = true := by cases callee.viaBinding <;> simp
        _ ↔ ∃ i closure, fn = .ident i ∧ ctx.lookup i.name = some closure := hbind
        _ ↔ ∃ i args' closure, Code.expr (.call fn args) = .expr (.call (.ident i) args') ∧
              ctx.lookup i.name = some closure := by simp
  · obtain rfl | rfl := hk
    · exact ⟨rfl, htarget, by simp, by simp, by simp⟩
    · exact ⟨rfl, htarget, by simp, by simp, by simp⟩

/-- Other code adds no edge. -/
theorem Point.own_edges_eq_nil {p : Point} (h : ¬ p.code.isNamedCall) :
    (p.own tables).edges = [] := by
  cases hcall : p.code.call? with
  | none => simp [Point.own, hcall]
  | some call =>
    have hn : ¬ call.2.isNamed := fun hn => h (by simp [Code.isNamedCall, hcall, hn])
    simp [Point.own, hcall, callEdges_of_isNamed_eq_false tables p.ctx call.1 hn]

/-- The edges of a walk stand for its calls. -/
theorem recordedAs_of_walk {walk : List (List Nat × Point)}
    (h : ∀ call ∈ walk, call.2.ctx.scope ≠ "" ∧ call.2.code.SpawnsOperand) :
    List.Forall₂ (fun call edge => call.2.RecordedAs tables edge)
      (walk.filter fun call => call.2.code.isNamedCall)
      (walk.flatMap fun site => (site.2.own tables).edges) := by
  induction walk with
  | nil => exact .nil
  | cons call walk ih =>
    have ih := ih fun call hcall => h call (List.mem_cons_of_mem _ hcall)
    obtain ⟨hs, hk⟩ := h call List.mem_cons_self
    rw [List.flatMap_cons, List.filter_cons]
    split_ifs with hcall
    · obtain ⟨edge, hedge, hrec⟩ := Point.own_edges_of_isNamedCall tables hs hk hcall
      rw [hedge]
      exact .cons hrec ih
    · rw [Point.own_edges_eq_nil tables hcall]
      exact ih

/-- **One edge for each call** of a name or a selector in a body, in the order of tracing. -/
theorem edges_of_reached_calls (graph : Graph) (ctx : Context) (hscope : ctx.scope ≠ "")
    (body : List Stmt) :
    ∃ (calls : List (List Nat × Point)) (edges : List Edge),
      (∀ path site, (path, site) ∈ calls ↔
        (Point.mk ctx [] (.block [] body)).at? path = some site ∧ site.code.isNamedCall) ∧
      calls.Pairwise (fun a b => a.1 < b.1) ∧
      (graph.extend (stmtsTrace tables ctx body)).edges = graph.edges ++ edges ∧
      List.Forall₂ (fun call edge => call.2.RecordedAs tables edge) calls edges := by
  let root : Point := ⟨ctx, [], .block [] body⟩
  refine ⟨root.walk.filter fun call => call.2.code.isNamedCall, (root.trace tables).edges,
    ?_, root.walk_pairwise.filter _, rfl, ?_⟩
  · intro path site
    rw [List.mem_filter, Point.mem_walk]
  · rw [Point.edges_trace]
    refine recordedAs_of_walk tables fun call hcall => ?_
    have hat := Point.mem_walk.mp hcall
    have hroot : root.code.SpawnsOperand := trivial
    exact ⟨Point.scope_ne_empty_of_at? hscope hat, Point.spawnsOperand_of_at? hroot hat⟩

/-- A closure is assigned and then started. -/
theorem edges_of_reached_calls_closure :
    let ctx : Context := { package := "app", scope := "app.F" }
    let body : List Stmt :=
      [.assign [.ident ⟨0, "v"⟩] [.func [] [] [.expr (.call (.ident ⟨1, "helper"⟩) [])]] true,
        .go (.paren (.call (.ident ⟨2, "v"⟩) []))]
    (stmtsTrace none ctx body).edges =
        [⟨"app.F.v", "app.helper", .direct⟩, ⟨"app.F", "app.F.v", .go⟩] ∧
      ∃ (calls : List (List Nat × Point)) (edges : List Edge),
        (∀ path site, (path, site) ∈ calls ↔
          (Point.mk ctx [] (.block [] body)).at? path = some site ∧ site.code.isNamedCall) ∧
        calls.Pairwise (fun a b => a.1 < b.1) ∧
        (({} : Graph).extend (stmtsTrace none ctx body)).edges = [] ++ edges ∧
        List.Forall₂ (fun call edge => call.2.RecordedAs none edge) calls edges :=
  ⟨by decide, edges_of_reached_calls none {} _ (by decide) _⟩

end GoCalls
