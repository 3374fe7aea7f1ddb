import GoCalls.Proofs.ClosureScopes

/-!
# Names that code declares or assigns

A name means the same in all of a body if the body nowhere declares it, and a variable holds no
closure if nothing is assigned to it. So it is enough to look at the text of a body to know that a
name stands for itself at each place.

* `Expr.introduces`, `Stmt.introduces`: the names that are declared or assigned at any depth, also
  under function literals.
* **`Point.introduces_subset`**: what a part introduces, the whole introduces.
* **`Point.locals_subset`**, **`Point.lookup_eq_none`**: other names are neither local nor bound.
-/

namespace GoCalls

/-! ## Names in the syntax -/

mutual

/-- The names that are declared or assigned in an expression. -/
def Expr.introduces : Expr → List String
  | .ident _ | .lit _ | .type _ => []
  | .selector _ x _ | .unary _ x | .paren x | .typeAssert x _ => x.introduces
  | .call fn args => fn.introduces ++ exprsIntroduce args
  | .func params results body => fieldNames params ++ fieldNames results ++ stmtsIntroduce body
  | .composite _ xs | .binary xs | .other xs => exprsIntroduce xs
  | .keyValue key value => key.introduces ++ value.introduces
  | .index x xs | .slice x xs => x.introduces ++ exprsIntroduce xs

def exprsIntroduce : List Expr → List String
  | [] => []
  | x :: xs => x.introduces ++ exprsIntroduce xs

def expr?Introduces : Option Expr → List String
  | none => []
  | some x => x.introduces

/-- The names that are declared or assigned in a statement. -/
def Stmt.introduces : Stmt → List String
  | .expr x | .go x | .defer x | .incDec x => x.introduces
  | .assign lhs rhs _ =>
    (lhs.filterMap Expr.ident?).map (·.name) ++ exprsIntroduce lhs ++ exprsIntroduce rhs
  | .declare specs => specsIntroduce specs
  | .ret xs | .other xs => exprsIntroduce xs
  | .block body => stmtsIntroduce body
  | .ifThen init cond body orElse =>
    stmt?Introduces init ++ cond.introduces ++ stmtsIntroduce body ++ stmt?Introduces orElse
  | .loop init cond post body =>
    stmt?Introduces init ++ expr?Introduces cond ++ stmt?Introduces post ++ stmtsIntroduce body
  | .range key value define x body =>
    rangeNames define key value ++ expr?Introduces key ++ expr?Introduces value ++ x.introduces ++
      stmtsIntroduce body
  | .switch init tag clauses =>
    stmt?Introduces init ++ expr?Introduces tag ++ clausesIntroduce clauses
  | .typeSwitch init binding subject clauses =>
    declaredNames binding.toList ++ stmt?Introduces init ++ subject.introduces ++
      typeClausesIntroduce clauses
  | .select clauses => commClausesIntroduce clauses
  | .send chan value => chan.introduces ++ value.introduces
  | .labeled body => body.introduces

def stmtsIntroduce : List Stmt → List String
  | [] => []
  | s :: ss => s.introduces ++ stmtsIntroduce ss

def stmt?Introduces : Option Stmt → List String
  | none => []
  | some s => s.introduces

def specsIntroduce : List ValueSpec → List String
  | [] => []
  | .mk names _ values :: specs =>
    declaredNames names ++ exprsIntroduce values ++ specsIntroduce specs

def clausesIntroduce : List Clause → List String
  | [] => []
  | .mk exprs body :: clauses =>
    exprsIntroduce exprs ++ stmtsIntroduce body ++ clausesIntroduce clauses

def typeClausesIntroduce : List TypeClause → List String
  | [] => []
  | .mk _ body :: clauses => stmtsIntroduce body ++ typeClausesIntroduce clauses

def commClausesIntroduce : List CommClause → List String
  | [] => []
  | .mk comm body :: clauses =>
    stmt?Introduces comm ++ stmtsIntroduce body ++ commClausesIntroduce clauses

end

/-- The names that are declared or assigned in a piece of code, with those of its own scope. -/
def Code.introduces : Code → List String
  | .expr x | .operand _ x => x.introduces
  | .target names x => names ++ x.introduces
  | .stmt s => s.introduces
  | .spec s => specsIntroduce [s]
  | .block names body => names ++ stmtsIntroduce body
  | .closure var names body => var :: (names ++ stmtsIntroduce body)

/-! ## Lists -/

theorem introduces_subset_exprs {x : Expr} {xs : List Expr} (h : x ∈ xs) :
    x.introduces ⊆ exprsIntroduce xs := by
  induction xs with
  | nil => simp at h
  | cons y xs ih =>
    rw [exprsIntroduce]
    rcases List.mem_cons.mp h with rfl | h
    · exact List.subset_append_left _ _
    · exact List.Subset.trans (ih h) (List.subset_append_right _ _)

theorem introduces_subset_stmts {s : Stmt} {ss : List Stmt} (h : s ∈ ss) :
    s.introduces ⊆ stmtsIntroduce ss := by
  induction ss with
  | nil => simp at h
  | cons t ss ih =>
    rw [stmtsIntroduce]
    rcases List.mem_cons.mp h with rfl | h
    · exact List.subset_append_left _ _
    · exact List.Subset.trans (ih h) (List.subset_append_right _ _)

theorem stmtsIntroduce_append (ss ts : List Stmt) :
    stmtsIntroduce (ss ++ ts) = stmtsIntroduce ss ++ stmtsIntroduce ts := by
  induction ss with
  | nil => rfl
  | cons s ss ih => simp [stmtsIntroduce, ih]

theorem stmtsIntroduce_toList (s : Option Stmt) : stmtsIntroduce s.toList = stmt?Introduces s := by
  cases s <;> simp [stmtsIntroduce, stmt?Introduces]

theorem exprsIntroduce_toList (x : Option Expr) : exprsIntroduce x.toList = expr?Introduces x := by
  cases x <;> simp [exprsIntroduce, expr?Introduces]

theorem introduces_subset_specs {spec : ValueSpec} {specs : List ValueSpec} (h : spec ∈ specs) :
    specsIntroduce [spec] ⊆ specsIntroduce specs := by
  induction specs with
  | nil => simp at h
  | cons s specs ih =>
    obtain ⟨names, type, values⟩ := s
    rcases List.mem_cons.mp h with rfl | h
    · simp [specsIntroduce]
    · rw [specsIntroduce]
      exact List.Subset.trans (ih h) (List.subset_append_right _ _)

theorem introduces_subset_clauses {c : Code} {clauses : List Clause}
    (h : c ∈ clauses.flatMap Clause.parts) : c.introduces ⊆ clausesIntroduce clauses := by
  induction clauses with
  | nil => simp at h
  | cons clause clauses ih =>
    obtain ⟨exprs, body⟩ := clause
    rw [clausesIntroduce]
    rw [List.flatMap_cons, List.mem_append, Clause.parts, List.mem_append, List.mem_map,
      List.mem_singleton] at h
    rcases h with (⟨x, hx, rfl⟩ | rfl) | h
    · have hpart := introduces_subset_exprs hx
      grind [Code.introduces]
    · grind [Code.introduces]
    · have := ih h
      grind

theorem introduces_subset_typeClauses {binding : Option Ident} {c : Code} {clauses : List TypeClause}
    (h : c ∈ clauses.map (TypeClause.code binding)) :
    c.introduces ⊆ declaredNames binding.toList ++ typeClausesIntroduce clauses := by
  induction clauses with
  | nil => simp at h
  | cons clause clauses ih =>
    obtain ⟨types, body⟩ := clause
    rw [typeClausesIntroduce]
    rcases List.mem_cons.mp h with rfl | h
    · rw [TypeClause.code, Code.introduces]
      grind
    · have := ih h
      grind

theorem introduces_subset_commClauses {c : Code} {clauses : List CommClause}
    (h : c ∈ clauses.map CommClause.code) : c.introduces ⊆ commClausesIntroduce clauses := by
  induction clauses with
  | nil => simp at h
  | cons clause clauses ih =>
    obtain ⟨comm, body⟩ := clause
    rw [commClausesIntroduce]
    rcases List.mem_cons.mp h with rfl | h
    · rw [CommClause.code, Code.introduces, stmtsIntroduce_append, stmtsIntroduce_toList]
      grind
    · have := ih h
      grind

theorem declaredNames_subset (is : List Ident) : declaredNames is ⊆ is.map (·.name) :=
  List.filter_sublist.subset

theorem introduces_subset_definedTargets {names : List String} {c : Code} {xs : List Expr}
    (h : c ∈ definedTargets names xs) :
    c.introduces ⊆ names ++ (xs.filterMap Expr.ident?).map (·.name) ++ exprsIntroduce xs := by
  induction xs generalizing names with
  | nil => simp [definedTargets] at h
  | cons x xs ih =>
    rw [exprsIntroduce]
    rcases List.mem_cons.mp h with rfl | h
    · rw [Code.introduces]
      grind
    · have hrest := ih h
      have hident : declaredNames x.ident?.toList ⊆ ((x :: xs).filterMap Expr.ident?).map (·.name) := by
        cases hx : x.ident? with
        | none => simp [declaredNames]
        | some i =>
          rw [List.filterMap_cons_some hx]
          exact List.Subset.trans (declaredNames_subset [i]) (by simp)
      have htail : (xs.filterMap Expr.ident?).map (·.name) ⊆
          ((x :: xs).filterMap Expr.ident?).map (·.name) := by
        cases hx : x.ident? with
        | none => rw [List.filterMap_cons_none hx]; exact List.Subset.refl _
        | some i => rw [List.filterMap_cons_some hx]; exact List.subset_cons_self _ _
      grind

theorem introduces_subset_closures {lhs rhs : List Expr} {c : Code}
    (h : c ∈ (lhs.zip rhs).filterMap closure?) :
    c.introduces ⊆ (lhs.filterMap Expr.ident?).map (·.name) ++ exprsIntroduce rhs := by
  obtain ⟨pair, hmem, hc⟩ := List.mem_filterMap.mp h
  obtain ⟨var, params, results, body, rfl, rfl⟩ := closure?_eq_some hc
  obtain ⟨hvar, hvalue⟩ := List.of_mem_zip hmem
  have hname : var.name ∈ (lhs.filterMap Expr.ident?).map (·.name) :=
    List.mem_map.mpr ⟨var, List.mem_filterMap.mpr ⟨_, hvar, rfl⟩, rfl⟩
  have hbody := introduces_subset_exprs hvalue
  rw [Expr.introduces] at hbody
  rw [Code.introduces]
  grind

/-! ## Parts -/

theorem Expr.introduces_subset {x y : Expr} (h : y ∈ x.parts) : y.introduces ⊆ x.introduces := by
  cases x <;>
    simp only [Expr.parts, List.mem_cons, List.not_mem_nil, or_false, Expr.introduces] at h ⊢
  case selector | unary | typeAssert | paren =>
    subst h
    exact List.Subset.refl _
  case composite | binary | other => exact introduces_subset_exprs h
  case keyValue =>
    rcases h with rfl | rfl
    · exact List.subset_append_left _ _
    · exact List.subset_append_right _ _
  case call | index | slice =>
    rcases h with rfl | h
    · exact List.subset_append_left _ _
    · exact List.Subset.trans (introduces_subset_exprs h) (List.subset_append_right _ _)

theorem introduces_subset_expr_parts {c : Code} {xs : List Expr} (h : c ∈ xs.map Code.expr) :
    c.introduces ⊆ exprsIntroduce xs := by
  obtain ⟨x, hx, rfl⟩ := List.mem_map.mp h
  exact introduces_subset_exprs hx

theorem introduces_subset_expr? {c : Code} {x : Option Expr} (h : c ∈ x.toList.map Code.expr) :
    c.introduces ⊆ expr?Introduces x :=
  exprsIntroduce_toList x ▸ introduces_subset_expr_parts h

theorem introduces_subset_stmt_parts {c : Code} {ss : List Stmt} (h : c ∈ ss.map Code.stmt) :
    c.introduces ⊆ stmtsIntroduce ss := by
  obtain ⟨s, hs, rfl⟩ := List.mem_map.mp h
  exact introduces_subset_stmts hs

theorem introduces_subset_stmt? {c : Code} {s : Option Stmt} (h : c ∈ s.toList.map Code.stmt) :
    c.introduces ⊆ stmt?Introduces s :=
  stmtsIntroduce_toList s ▸ introduces_subset_stmt_parts h

theorem introduces_subset_targetParts {c : Code} {lhs : List Expr} {define : Bool}
    (h : c ∈ targetParts lhs define) :
    c.introduces ⊆ (lhs.filterMap Expr.ident?).map (·.name) ++ exprsIntroduce lhs := by
  cases define with
  | true => simpa using introduces_subset_definedTargets h
  | false => exact List.Subset.trans (introduces_subset_expr_parts h) (List.subset_append_right _ _)

theorem Stmt.introduces_subset {s : Stmt} {c : Code} (h : c ∈ s.parts) :
    c.introduces ⊆ s.introduces := by
  cases s <;>
    simp only [Stmt.parts, List.mem_append, List.mem_cons, List.not_mem_nil, or_false] at h <;>
    rw [Stmt.introduces]
  case expr | incDec | go | defer | block | labeled =>
    subst h
    simp [Code.introduces]
  case assign =>
    rcases h with (h | h) | h
    · have hpart := introduces_subset_closures h
      grind
    · have hpart := introduces_subset_targetParts h
      grind
    · have hpart := introduces_subset_expr_parts h
      grind
  case declare =>
    obtain ⟨spec, hspec, rfl⟩ := List.mem_map.mp h
    exact introduces_subset_specs hspec
  case ret | other => exact introduces_subset_expr_parts h
  case ifThen =>
    rcases h with (h | rfl | rfl) | h
    · have hpart := introduces_subset_stmt? h
      grind
    · grind [Code.introduces]
    · grind [Code.introduces]
    · have hpart := introduces_subset_stmt? h
      grind
  case loop =>
    rcases h with ((h | h) | h) | rfl
    · have hpart := introduces_subset_stmt? h
      grind
    · have hpart := introduces_subset_expr? h
      grind
    · have hpart := introduces_subset_stmt? h
      grind
    · grind [Code.introduces]
  case range =>
    rcases h with (h | h) | rfl | rfl
    · have hpart := introduces_subset_expr? h
      grind
    · have hpart := introduces_subset_expr? h
      grind
    · grind [Code.introduces]
    · grind [Code.introduces]
  case switch =>
    rcases h with (h | h) | h
    · have hpart := introduces_subset_stmt? h
      grind
    · have hpart := introduces_subset_expr? h
      grind
    · have hpart := introduces_subset_clauses h
      grind
  case typeSwitch =>
    rcases h with (h | rfl) | h
    · have hpart := introduces_subset_stmt? h
      grind
    · grind [Code.introduces]
    · have hpart := introduces_subset_typeClauses h
      grind
  case select => exact introduces_subset_commClauses h
  case send =>
    rcases h with rfl | rfl
    · exact List.subset_append_left _ _
    · exact List.subset_append_right _ _

/-- What a part introduces, the piece of code introduces. -/
theorem Code.introduces_subset {c d : Code} (h : d ∈ c.parts) : d.introduces ⊆ c.introduces := by
  cases c with
  | expr x =>
    obtain ⟨y, hy, rfl⟩ := List.mem_map.mp h
    exact Expr.introduces_subset hy
  | operand kind x =>
    rcases Code.parts_operand kind x with ⟨y, rfl, -⟩ | hparts
    · obtain rfl := List.mem_singleton.mp h
      simp [Code.introduces, Expr.introduces]
    · rw [hparts] at h
      obtain ⟨y, hy, rfl⟩ := List.mem_map.mp h
      exact Expr.introduces_subset hy
  | target names x =>
    obtain rfl := List.mem_singleton.mp h
    exact List.subset_append_right _ _
  | stmt s => exact Stmt.introduces_subset h
  | spec s =>
    obtain ⟨names, type, values⟩ := s
    have hvalues : d.introduces ⊆ exprsIntroduce values := introduces_subset_expr_parts h
    have hspec : exprsIntroduce values ⊆ (Code.spec (.mk names type values)).introduces := by
      rw [Code.introduces, specsIntroduce]
      grind
    exact List.Subset.trans hvalues hspec
  | block names body =>
    exact List.Subset.trans (introduces_subset_stmt_parts h) (List.subset_append_right _ _)
  | closure var names body =>
    exact List.Subset.trans (introduces_subset_stmt_parts h)
      (List.subset_cons_of_subset _ (List.subset_append_right _ _))

/-! ## Declarations -/

theorem declares_subset_specs (specs : List ValueSpec) :
    specs.flatMap ValueSpec.declares ⊆ specsIntroduce specs := by
  induction specs with
  | nil => simp
  | cons spec specs ih =>
    obtain ⟨names, type, values⟩ := spec
    rw [List.flatMap_cons, specsIntroduce, ValueSpec.declares]
    grind

theorem Stmt.declares_subset : ∀ s : Stmt, s.declares ⊆ s.introduces
  | .assign lhs rhs true => by
    have := declaredNames_subset (lhs.filterMap Expr.ident?)
    rw [Stmt.declares, Stmt.introduces]
    grind
  | .declare specs => by
    rw [Stmt.declares, Stmt.introduces]
    exact declares_subset_specs specs
  | .labeled body => by
    rw [Stmt.declares, Stmt.introduces]
    exact Stmt.declares_subset body
  | .assign _ _ false | .expr _ | .go _ | .defer _ | .incDec _ | .ret _ | .other _ | .block _
  | .ifThen _ _ _ _ | .loop _ _ _ _ | .range _ _ _ _ _ | .switch _ _ _ | .typeSwitch _ _ _ _
  | .select _ | .send _ _ => by simp [Stmt.declares]

/-- What a piece of code declares, it introduces. -/
theorem Code.declares_subset (c : Code) : c.declares ⊆ c.introduces := by
  cases c with
  | stmt s => exact s.declares_subset
  | spec s =>
    have h := declares_subset_specs [s]
    rwa [List.flatMap_singleton] at h
  | _ => simp [Code.declares]

theorem Code.binders_subset (c : Code) : c.binders ⊆ c.introduces := by
  cases c <;> simp only [Code.binders, Code.introduces]
  all_goals grind

theorem Code.mem_introduces_of_closureVar? {c : Code} {var : String} (h : c.closureVar? = some var) :
    var ∈ c.introduces := by
  cases c with
  | closure v names body =>
    obtain rfl := Option.some.inj h
    exact List.mem_cons_self
  | _ => simp [Code.closureVar?] at h

/-! ## Points -/

namespace Point

/-- **What a place introduces, the code around it introduces.** -/
theorem introduces_subset {p q : Point} {path : List Nat} (h : p.at? path = some q) :
    q.code.introduces ⊆ p.code.introduces := by
  induction path generalizing p with
  | nil =>
    obtain rfl := Option.some.inj h
    exact List.Subset.refl _
  | cons i path ih =>
    obtain ⟨part, hpart, h⟩ := Option.bind_eq_some_iff.mp h
    have hmem := code_mem_of_mem_pointsOf (List.mem_of_getElem? hpart)
    exact List.Subset.trans (ih h) (Code.introduces_subset hmem)

theorem locals_subset_of_mem_pointsOf {ctx : Context} {locals : List String} {cs : List Code}
    {q : Point} (h : q ∈ pointsOf ctx locals cs) :
    q.locals ⊆ locals ++ cs.flatMap Code.declares := by
  induction cs generalizing ctx locals with
  | nil => simp [pointsOf] at h
  | cons c cs ih =>
    rcases List.mem_cons.mp h with rfl | h
    · exact List.subset_append_left _ _
    · simpa using ih h

theorem locals_subset_of_mem_parts {p q : Point} (h : q ∈ p.parts) :
    q.locals ⊆ p.locals ++ p.code.introduces := by
  have hlocals := locals_subset_of_mem_pointsOf h
  have hbinders := p.code.binders_subset
  have hdeclares : p.code.parts.flatMap Code.declares ⊆ p.code.introduces := by
    intro name hname
    obtain ⟨c, hc, hname⟩ := List.mem_flatMap.mp hname
    exact Code.introduces_subset hc (c.declares_subset hname)
  grind

/-- **The local names at a place** come from the beginning or are introduced. -/
theorem locals_subset {p q : Point} {path : List Nat} (h : p.at? path = some q) :
    q.locals ⊆ p.locals ++ p.code.introduces := by
  induction path generalizing p with
  | nil =>
    obtain rfl := Option.some.inj h
    exact List.subset_append_left _ _
  | cons i path ih =>
    obtain ⟨part, hpart, h⟩ := Option.bind_eq_some_iff.mp h
    have hmem := List.mem_of_getElem? hpart
    have hlocals := locals_subset_of_mem_parts hmem
    have hintroduces := Code.introduces_subset (code_mem_of_mem_pointsOf hmem)
    have hrest := ih h
    grind

/-- **A name that the code does not introduce is bound nowhere in it.** -/
theorem lookup_eq_none {p q : Point} {path : List Nat} (hempty : p.ctx.bindings = [])
    (h : p.at? path = some q) {name : String} (hname : name ∉ p.code.introduces) :
    q.ctx.lookup name = none := by
  by_contra hbound
  obtain ⟨closure, hl⟩ := Option.ne_none_iff_exists'.mp hbound
  obtain ⟨front, -, ⟨site, hsite, hvar, -⟩, -⟩ := Point.assigned_of_lookup hempty h hl
  exact hname (introduces_subset hsite (Code.mem_introduces_of_closureVar? hvar))

end Point

end GoCalls
