import GoCalls.Calls.Trace

/-!
# Code as a tree

A body is a tree of pieces of code. Its branches are what is traced, in the order of tracing. Nothing
lies under a function literal, but where an assignment gives one to a variable, the body of the
literal is a part of the assignment.

* `Code.parts`: the parts of a piece of code, without a look at what lies deeper.
* `Point`: a piece of code, with the bindings and the local names before it.
* `Point.at?`: the point at a path. Paths are compared from the left, so their order is the order of
  tracing, in which a piece of code comes before its parts.
* **`Point.induction`**: what passes from the parts to the whole holds everywhere.
-/

namespace GoCalls

/-- A piece of code. -/
inductive Code
  | expr (x : Expr)
  /-- The operand of a `go` or `defer` statement, through parentheses only. -/
  | operand (kind : CallKind) (x : Expr)
  /-- A target of a definition, with the names that the targets on its left declare. -/
  | target (binders : List String) (x : Expr)
  | stmt (s : Stmt)
  /-- One specification of a local declaration. -/
  | spec (spec : ValueSpec)
  /-- Statements in a scope of their own, which begins with some names. -/
  | block (binders : List String) (body : List Stmt)
  /-- A function literal that is given to a variable, with the names of its parameters. -/
  | closure (var : String) (binders : List String) (body : List Stmt)

/-! ## Parts -/

/-- The names that some identifiers declare. The blank name declares nothing. -/
def declaredNames (idents : List Ident) : List String :=
  (idents.map (·.name)).filter (· ≠ "_")

/-- The names of parameters or results. -/
def fieldNames (fields : List Field) : List String := fields.flatMap fun f => declaredNames f.names

/-- The parts of an expression. -/
def Expr.parts : Expr → List Expr
  | .call fn args => fn :: args
  | .func _ _ _ | .ident _ | .lit _ | .type _ => []
  | .selector _ x _ | .unary _ x | .paren x | .typeAssert x _ => [x]
  | .composite _ xs | .binary xs | .other xs => xs
  | .keyValue key value => [key, value]
  | .index x xs | .slice x xs => x :: xs

/-- The closure that a target of an assignment takes from the value at its position. -/
def closure? : Expr × Expr → Option Code
  | (.ident var, .func params results body) =>
    some (.closure var.name (fieldNames params ++ fieldNames results) body)
  | _ => none

/-- The targets of a definition, which declares new names from left to right. -/
def definedTargets (binders : List String) : List Expr → List Code
  | [] => []
  | x :: xs => .target binders x :: definedTargets (binders ++ declaredNames x.ident?.toList) xs

/-- The targets of an assignment or a definition. -/
def targetParts (lhs : List Expr) : (define : Bool) → List Code
  | true => definedTargets [] lhs
  | false => lhs.map .expr

/-- The names that a range statement declares for its body. -/
def rangeNames (define : Bool) (key value : Option Expr) : List String :=
  if define then
    declaredNames ((key.bind Expr.ident?).toList ++ (value.bind Expr.ident?).toList)
  else []

def Clause.parts : Clause → List Code
  | .mk exprs body => exprs.map .expr ++ [.block [] body]

def TypeClause.code (binding : Option Ident) : TypeClause → Code
  | .mk _ body => .block (declaredNames binding.toList) body

def CommClause.code : CommClause → Code
  | .mk comm body => .block [] (comm.toList ++ body)

/-- The parts of a statement. -/
def Stmt.parts : Stmt → List Code
  | .expr x | .incDec x => [.expr x]
  | .assign lhs rhs define =>
    (lhs.zip rhs).filterMap closure? ++ targetParts lhs define ++ rhs.map .expr
  | .declare specs => specs.map .spec
  | .go x => [.operand .go x]
  | .defer x => [.operand .defer x]
  | .ret xs | .other xs => xs.map .expr
  | .block body => [.block [] body]
  | .ifThen init cond body orElse =>
    init.toList.map .stmt ++ [.expr cond, .block [] body] ++ orElse.toList.map .stmt
  | .loop init cond post body =>
    init.toList.map .stmt ++ cond.toList.map .expr ++ post.toList.map .stmt ++ [.block [] body]
  | .range key value define x body =>
    key.toList.map .expr ++ value.toList.map .expr ++
      [.expr x, .block (rangeNames define key value) body]
  | .switch init tag clauses =>
    init.toList.map .stmt ++ tag.toList.map .expr ++ clauses.flatMap Clause.parts
  | .typeSwitch init binding subject clauses =>
    init.toList.map .stmt ++ [.expr subject] ++ clauses.map (TypeClause.code binding)
  | .select clauses => clauses.map CommClause.code
  | .send chan value => [.expr chan, .expr value]
  | .labeled body => [.stmt body]

namespace Code

/-- The parts of a piece of code, in the order of tracing. -/
def parts : Code → List Code
  | .expr x => x.parts.map .expr
  | .operand kind (.paren x) => [.operand kind x]
  | .operand _ x => x.parts.map .expr
  | .target _ x => [.expr x]
  | .stmt s => s.parts
  | .spec (.mk _ _ values) => values.map .expr
  | .block _ body | .closure _ _ body => body.map .stmt

/-- The call that a piece of code is, with the kind that its statement gives it. -/
def call? : Code → Option (Option CallKind × Expr)
  | .expr (.call fn _) => some (none, fn)
  | .operand kind (.call fn _) => some (some kind, fn)
  | _ => none

/-- How much syntax a piece of code holds. -/
noncomputable def size : Code → Nat
  | .expr x | .operand _ x => sizeOf x
  | .target _ x => sizeOf x + 1
  | .stmt s => sizeOf s
  | .spec s => sizeOf s
  | .block _ body | .closure _ _ body => sizeOf body

/-- The names that are declared between a piece of code and its parts. -/
def binders : Code → List String
  | .block names _ | .closure _ names _ | .target names _ => names
  | _ => []

end Code

/-- The names that a local declaration declares. -/
def ValueSpec.declares : ValueSpec → List String
  | .mk names _ _ => declaredNames names

/-- The names that a statement declares in the scope where it stands. -/
def Stmt.declares : Stmt → List String
  | .assign lhs _ true => declaredNames (lhs.filterMap Expr.ident?)
  | .declare specs => specs.flatMap ValueSpec.declares
  | .labeled body => body.declares
  | _ => []

/-- The names that a piece of code declares in the scope where it stands. -/
def Code.declares : Code → List String
  | .stmt s => s.declares
  | .spec s => s.declares
  | _ => []

/-! ## Points -/

/-- The bindings after a piece of code. -/
def Context.after (ctx : Context) : Code → Context
  | .expr _ | .operand _ _ | .target _ _ | .spec _ => ctx
  | .stmt s => ctx.afterStmt s
  | .block _ body => ctx.afterStmts body
  | .closure var _ _ => ctx.bind var (ctx.scopedName var)

/-- The context in which the parts of a piece of code begin. -/
def Context.inside (ctx : Context) : Code → Context
  | .closure var _ _ => (ctx.bind var (ctx.scopedName var)).enter (ctx.scopedName var)
  | _ => ctx

/-- A piece of code where it stands. -/
structure Point where
  /-- The bindings before it. -/
  ctx : Context
  /-- The names that the scopes around it have declared before it. -/
  locals : List String
  code : Code

/-- Pieces of code, one after another: what one of them binds or declares holds in those after
it. -/
def pointsOf (ctx : Context) (locals : List String) : List Code → List Point
  | [] => []
  | c :: cs => ⟨ctx, locals, c⟩ :: pointsOf (ctx.after c) (locals ++ c.declares) cs

namespace Point

/-- The parts of a piece of code, where they stand. -/
def parts (p : Point) : List Point :=
  pointsOf (p.ctx.inside p.code) (p.locals ++ p.code.binders) p.code.parts

/-- The point at a path: each number picks a part. -/
def at? : Point → List Nat → Option Point
  | p, [] => some p
  | p, i :: path => p.parts[i]?.bind (·.at? path)

end Point

theorem Point.at?_append (p : Point) (path more : List Nat) :
    p.at? (path ++ more) = (p.at? path).bind (·.at? more) := by
  induction path generalizing p with
  | nil => rfl
  | cons i path ih =>
    rw [List.cons_append, Point.at?, Point.at?, Option.bind_assoc]
    exact congrArg _ (funext fun q => ih q)

/-! ## Lists of points -/

theorem pointsOf_append (ctx : Context) (locals : List String) (cs ds : List Code) :
    pointsOf ctx locals (cs ++ ds) = pointsOf ctx locals cs ++
      pointsOf (cs.foldl Context.after ctx) (locals ++ cs.flatMap Code.declares) ds := by
  induction cs generalizing ctx locals with
  | nil => simp [pointsOf]
  | cons c cs ih => simp [pointsOf, ih]

theorem code_mem_of_mem_pointsOf {ctx : Context} {locals : List String} {cs : List Code}
    {q : Point} (h : q ∈ pointsOf ctx locals cs) : q.code ∈ cs := by
  induction cs generalizing ctx locals with
  | nil => simp [pointsOf] at h
  | cons c cs ih =>
    rcases List.mem_cons.mp h with rfl | h
    · exact List.mem_cons_self
    · exact List.mem_cons_of_mem _ (ih h)

/-- Code that declares nothing leaves the names alone. -/
theorem locals_of_mem_pointsOf {ctx : Context} {locals : List String} {cs : List Code}
    (hsilent : cs.flatMap Code.declares = []) {q : Point} (h : q ∈ pointsOf ctx locals cs) :
    q.locals = locals := by
  induction cs generalizing ctx with
  | nil => simp [pointsOf] at h
  | cons c cs ih =>
    rw [List.flatMap_cons, List.append_eq_nil_iff] at hsilent
    rw [pointsOf, hsilent.1, List.append_nil] at h
    rcases List.mem_cons.mp h with rfl | h
    · rfl
    · exact ih hsilent.2 h

theorem Code.parts_operand (kind : CallKind) (x : Expr) :
    (∃ y, x = .paren y ∧ (Code.operand kind x).parts = [.operand kind y]) ∨
      (Code.operand kind x).parts = x.parts.map .expr := by
  by_cases hx : ∃ y, x = .paren y
  · obtain ⟨y, rfl⟩ := hx
    exact .inl ⟨y, rfl, rfl⟩
  · exact .inr (Code.parts.eq_3 _ _ fun y e => hx ⟨y, e⟩)

/-! ## Induction on points -/

theorem Expr.sizeOf_lt_of_mem_parts {x y : Expr} (h : y ∈ x.parts) : sizeOf y < sizeOf x := by
  cases x <;> simp only [Expr.parts, List.mem_cons, List.not_mem_nil, or_false] at h
  case selector | unary | typeAssert | paren =>
    subst h
    simp only [Expr.selector.sizeOf_spec, Expr.unary.sizeOf_spec, Expr.typeAssert.sizeOf_spec,
      Expr.paren.sizeOf_spec]
    omega
  case composite | binary | other =>
    have := List.sizeOf_lt_of_mem h
    simp only [Expr.composite.sizeOf_spec, Expr.binary.sizeOf_spec, Expr.other.sizeOf_spec]
    omega
  case keyValue =>
    simp only [Expr.keyValue.sizeOf_spec]
    rcases h with rfl | rfl <;> omega
  case call | index | slice =>
    simp only [Expr.call.sizeOf_spec, Expr.index.sizeOf_spec, Expr.slice.sizeOf_spec]
    rcases h with rfl | h
    · omega
    · have := List.sizeOf_lt_of_mem h
      omega

theorem sizeOf_lt_of_mem_toList {α : Type} [SizeOf α] {a : α} {o : Option α} (h : a ∈ o.toList) :
    sizeOf a < sizeOf o := by
  obtain rfl := Option.mem_toList.mp h
  simp

theorem closure?_eq_some {pair : Expr × Expr} {c : Code} (h : closure? pair = some c) :
    ∃ var params results body, pair = (.ident var, .func params results body) ∧
      c = .closure var.name (fieldNames params ++ fieldNames results) body := by
  unfold closure? at h
  split at h
  · cases h
    exact ⟨_, _, _, _, rfl, rfl⟩
  · cases h

theorem size_closure_lt {lhs rhs : List Expr} {c : Code}
    (h : c ∈ (lhs.zip rhs).filterMap closure?) : c.size < sizeOf rhs := by
  obtain ⟨pair, hmem, hc⟩ := List.mem_filterMap.mp h
  obtain ⟨var, params, results, body, rfl, rfl⟩ := closure?_eq_some hc
  have hv := List.sizeOf_lt_of_mem (List.of_mem_zip hmem).2
  simp only [Code.size, Expr.func.sizeOf_spec] at hv ⊢
  omega

theorem mem_definedTargets {binders : List String} {xs : List Expr} {c : Code}
    (h : c ∈ definedTargets binders xs) : ∃ names, ∃ x ∈ xs, c = .target names x := by
  induction xs generalizing binders with
  | nil => simp [definedTargets] at h
  | cons x xs ih =>
    rcases List.mem_cons.mp h with rfl | h
    · exact ⟨binders, x, List.mem_cons_self, rfl⟩
    · obtain ⟨names, y, hy, rfl⟩ := ih h
      exact ⟨names, y, List.mem_cons_of_mem _ hy, rfl⟩

theorem mem_targetParts {lhs : List Expr} {define : Bool} {c : Code}
    (h : c ∈ targetParts lhs define) :
    ∃ x ∈ lhs, c = .expr x ∨ ∃ names, c = .target names x := by
  cases define with
  | true =>
    obtain ⟨names, x, hx, rfl⟩ := mem_definedTargets h
    exact ⟨x, hx, .inr ⟨names, rfl⟩⟩
  | false =>
    obtain ⟨x, hx, rfl⟩ := List.mem_map.mp h
    exact ⟨x, hx, .inl rfl⟩

theorem size_clause_lt {clauses : List Clause} {c : Code} (h : c ∈ clauses.flatMap Clause.parts) :
    c.size < sizeOf clauses := by
  obtain ⟨⟨exprs, body⟩, hmem, hc⟩ := List.mem_flatMap.mp h
  have hlt := List.sizeOf_lt_of_mem hmem
  simp only [Clause.parts, List.mem_append, List.mem_map, List.mem_singleton] at hc
  rcases hc with ⟨x, hx, rfl⟩ | rfl
  · have := List.sizeOf_lt_of_mem hx
    simp only [Code.size, Clause.mk.sizeOf_spec] at hlt ⊢
    omega
  · simp only [Code.size, Clause.mk.sizeOf_spec] at hlt ⊢
    omega

theorem size_typeClause_lt {binding : Option Ident} {clauses : List TypeClause} {c : Code}
    (h : c ∈ clauses.map (TypeClause.code binding)) : c.size < sizeOf clauses := by
  obtain ⟨⟨types, body⟩, hmem, rfl⟩ := List.mem_map.mp h
  have hlt := List.sizeOf_lt_of_mem hmem
  simp only [TypeClause.code, Code.size, TypeClause.mk.sizeOf_spec] at hlt ⊢
  omega

theorem size_commClause_lt {clauses : List CommClause} {c : Code}
    (h : c ∈ clauses.map CommClause.code) : c.size < sizeOf clauses := by
  obtain ⟨⟨comm, body⟩, hmem, rfl⟩ := List.mem_map.mp h
  have hlt := List.sizeOf_lt_of_mem hmem
  cases comm <;>
    simp only [CommClause.code, Code.size, CommClause.mk.sizeOf_spec, Option.toList,
      Option.some.sizeOf_spec, Option.none.sizeOf_spec, List.nil_append, List.cons_append,
      List.cons.sizeOf_spec] at hlt ⊢ <;>
    omega

theorem size_expr_lt {xs : List Expr} {c : Code} (h : c ∈ xs.map Code.expr) :
    c.size < sizeOf xs := by
  obtain ⟨x, hx, rfl⟩ := List.mem_map.mp h
  exact List.sizeOf_lt_of_mem hx

theorem size_expr?_lt {x : Option Expr} {c : Code} (h : c ∈ x.toList.map Code.expr) :
    c.size < sizeOf x := by
  obtain ⟨y, hy, rfl⟩ := List.mem_map.mp h
  exact sizeOf_lt_of_mem_toList hy

theorem size_stmt?_lt {s : Option Stmt} {c : Code} (h : c ∈ s.toList.map Code.stmt) :
    c.size < sizeOf s := by
  obtain ⟨t, ht, rfl⟩ := List.mem_map.mp h
  exact sizeOf_lt_of_mem_toList ht

theorem size_target_lt {lhs : List Expr} {define : Bool} {c : Code}
    (h : c ∈ targetParts lhs define) : c.size < sizeOf lhs + 1 := by
  obtain ⟨x, hx, hc⟩ := mem_targetParts h
  have := List.sizeOf_lt_of_mem hx
  rcases hc with rfl | ⟨names, rfl⟩
  · simp only [Code.size]
    omega
  · simp only [Code.size]
    omega

theorem Stmt.size_lt_of_mem_parts {s : Stmt} {c : Code} (h : c ∈ s.parts) :
    c.size < sizeOf s := by
  cases s <;>
    simp only [Stmt.parts, List.mem_append, List.mem_cons, List.not_mem_nil, or_false] at h
  case expr | incDec | go | defer | block | labeled =>
    subst h
    simp only [Code.size, Stmt.expr.sizeOf_spec, Stmt.incDec.sizeOf_spec, Stmt.go.sizeOf_spec,
      Stmt.defer.sizeOf_spec, Stmt.block.sizeOf_spec, Stmt.labeled.sizeOf_spec]
    omega
  case assign =>
    rw [Stmt.assign.sizeOf_spec]
    rcases h with (h | h) | h
    · have := size_closure_lt h
      omega
    · have := size_target_lt h
      omega
    · have := size_expr_lt h
      omega
  case declare =>
    obtain ⟨spec, hs, rfl⟩ := List.mem_map.mp h
    have := List.sizeOf_lt_of_mem hs
    simp only [Code.size, Stmt.declare.sizeOf_spec]
    omega
  case ret | other =>
    have := size_expr_lt h
    simp only [Stmt.ret.sizeOf_spec, Stmt.other.sizeOf_spec]
    omega
  case ifThen =>
    rw [Stmt.ifThen.sizeOf_spec]
    rcases h with (h | rfl | rfl) | h
    · have := size_stmt?_lt h
      omega
    · simp only [Code.size]
      omega
    · simp only [Code.size]
      omega
    · have := size_stmt?_lt h
      omega
  case loop =>
    rw [Stmt.loop.sizeOf_spec]
    rcases h with ((h | h) | h) | rfl
    · have := size_stmt?_lt h
      omega
    · have := size_expr?_lt h
      omega
    · have := size_stmt?_lt h
      omega
    · simp only [Code.size]
      omega
  case range =>
    rw [Stmt.range.sizeOf_spec]
    rcases h with (h | h) | rfl | rfl
    · have := size_expr?_lt h
      omega
    · have := size_expr?_lt h
      omega
    · simp only [Code.size]
      omega
    · simp only [Code.size]
      omega
  case switch =>
    rw [Stmt.switch.sizeOf_spec]
    rcases h with (h | h) | h
    · have := size_stmt?_lt h
      omega
    · have := size_expr?_lt h
      omega
    · have := size_clause_lt h
      omega
  case typeSwitch =>
    rw [Stmt.typeSwitch.sizeOf_spec]
    rcases h with (h | rfl) | h
    · have := size_stmt?_lt h
      omega
    · simp only [Code.size]
      omega
    · have := size_typeClause_lt h
      omega
  case select =>
    have := size_commClause_lt h
    rw [Stmt.select.sizeOf_spec]
    omega
  case send =>
    rw [Stmt.send.sizeOf_spec]
    rcases h with rfl | rfl
    · simp only [Code.size]
      omega
    · simp only [Code.size]
      omega

theorem Code.size_lt_of_mem_parts {c d : Code} (h : d ∈ c.parts) : d.size < c.size := by
  cases c with
  | expr x =>
    obtain ⟨y, hy, rfl⟩ := List.mem_map.mp h
    exact Expr.sizeOf_lt_of_mem_parts hy
  | operand kind x =>
    rcases Code.parts_operand kind x with ⟨y, rfl, -⟩ | hparts
    · obtain rfl := List.mem_singleton.mp h
      simp [Code.size]
    · rw [hparts] at h
      obtain ⟨y, hy, rfl⟩ := List.mem_map.mp h
      exact Expr.sizeOf_lt_of_mem_parts hy
  | target binders x =>
    obtain rfl := List.mem_singleton.mp h
    simp [Code.size]
  | stmt s => exact Stmt.size_lt_of_mem_parts h
  | spec s =>
    obtain ⟨names, type, values⟩ := s
    have := size_expr_lt h
    change d.size < sizeOf (ValueSpec.mk names type values)
    rw [ValueSpec.mk.sizeOf_spec]
    omega
  | block binders body | closure var binders body =>
    obtain ⟨s, hs, rfl⟩ := List.mem_map.mp h
    exact List.sizeOf_lt_of_mem hs

/-- **Induction on code**, from the parts of each piece to the piece. -/
theorem Code.induction {motive : Code → Prop}
    (step : ∀ c : Code, (∀ d ∈ c.parts, motive d) → motive c) (c : Code) : motive c :=
  step c fun d hd =>
    have : d.size < c.size := Code.size_lt_of_mem_parts hd
    Code.induction step d
termination_by c.size

/-- **Induction on points**, from the parts of each point to the point. -/
theorem Point.induction {motive : Point → Prop}
    (step : ∀ p : Point, (∀ q ∈ p.parts, motive q) → motive p) (p : Point) : motive p :=
  step p fun q hq =>
    have : q.code.size < p.code.size := Code.size_lt_of_mem_parts (code_mem_of_mem_pointsOf hq)
    Point.induction step q
termination_by p.code.size

/-! ## Walking through the points -/

namespace Point

/-- All points below a point, itself first, with the paths to them. -/
def walk (p : Point) : List (List Nat × Point) :=
  ([], p) :: p.parts.zipIdx.attach.flatMap fun ⟨(q, i), _⟩ =>
    q.walk.map fun site => (i :: site.1, site.2)
termination_by p.code.size
decreasing_by
  rename_i h
  exact Code.size_lt_of_mem_parts (code_mem_of_mem_pointsOf (List.fst_mem_of_mem_zipIdx h))

theorem walk_eq (p : Point) :
    p.walk = ([], p) :: p.parts.zipIdx.flatMap fun part =>
      part.1.walk.map fun site => (part.2 :: site.1, site.2) := by
  rw [walk]
  refine congrArg (([], p) :: ·) ?_
  exact (List.flatMap_subtype fun _ _ => rfl).trans (by rw [List.unattach_attach])

/-- The walk passes exactly the points that have a path. -/
theorem mem_walk {p : Point} {path : List Nat} {q : Point} :
    (path, q) ∈ p.walk ↔ p.at? path = some q := by
  induction path generalizing p with
  | nil => rw [walk_eq]; simp [at?, eq_comm]
  | cons i path ih =>
    rw [walk_eq]
    simp only [List.mem_cons, Prod.mk.injEq, reduceCtorEq, false_and, false_or, List.mem_flatMap,
      List.mem_map, List.mem_zipIdx_iff_getElem?, List.cons.injEq, at?, Option.bind_eq_some_iff]
    constructor
    · rintro ⟨⟨q', j⟩, hq', ⟨path', site⟩, hsite, ⟨rfl, rfl⟩, rfl⟩
      exact ⟨q', hq', ih.mp hsite⟩
    · rintro ⟨q', hq', h⟩
      exact ⟨(q', i), hq', (path, q), ih.mpr h, ⟨rfl, rfl⟩, rfl⟩

theorem zipIdx_pairwise {α : Type} (l : List α) (k : Nat) :
    (l.zipIdx k).Pairwise fun a b => a.2 < b.2 := by
  rw [← List.pairwise_map, List.zipIdx_map_snd]
  exact List.pairwise_lt_range'

/-- The walk passes the points in the order of their paths. -/
theorem walk_pairwise (p : Point) : p.walk.Pairwise fun a b => a.1 < b.1 := by
  induction p using Point.induction with
  | step p ih =>
    rw [walk_eq, List.pairwise_cons]
    constructor
    · intro site hsite
      obtain ⟨part, -, hsite⟩ := List.mem_flatMap.mp hsite
      obtain ⟨inner, -, rfl⟩ := List.mem_map.mp hsite
      exact List.nil_lt_cons _ _
    · rw [List.pairwise_flatMap]
      constructor
      · intro part hpart
        rw [List.pairwise_map]
        refine (ih part.1 (List.fst_mem_of_mem_zipIdx hpart)).imp fun hlt => ?_
        exact List.cons_lt_cons_iff.mpr (.inr ⟨rfl, hlt⟩)
      · refine (zipIdx_pairwise p.parts 0).imp fun {a b} hlt => ?_
        intro x hx y hy
        obtain ⟨inner, -, rfl⟩ := List.mem_map.mp hx
        obtain ⟨inner', -, rfl⟩ := List.mem_map.mp hy
        exact List.cons_lt_cons_iff.mpr (.inl hlt)

end Point

end GoCalls
