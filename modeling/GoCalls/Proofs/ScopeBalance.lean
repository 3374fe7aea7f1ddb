import GoCalls.Proofs.IndexTypes
import GoCalls.Proofs.PassingParts

/-!
# Balanced scopes

Each scope that checking opens it closes again, whatever stands in between and however early the
visit of it ends. So expressions and statements with blocks leave the stack of scopes as it was, and
the other statements change the innermost scope at most, where they declare variables.

* `Touches.scopes_eq`: what declares nothing leaves the stack alone.
* `Scope.Gains`: a scope with new variables, and no other change.
* `Stmt.newNames`: the names for which a statement declares variables in a given scope.
* `visitStmt_gains`: a statement declares variables for these names alone.
* **`scopes_balanced`**: what visits do to the stack, and to the meaning of names.
-/

namespace GoCalls

/-! ## The stack -/

theorem tail_growScopes (new : Scope) (scopes : List Scope) :
    (growScopes new scopes).tail = scopes.tail := by
  cases scopes <;> rfl

theorem length_growScopes (new : Scope) (scopes : List Scope) :
    (growScopes new scopes).length = scopes.length := by
  cases scopes <;> rfl

namespace Touches

variable {α : Type} {marks : List Mark} {names : List String} {m : StateM Visit α}

theorem tail_eq (h : Touches marks names m) (v : Visit) :
    (m.run v).2.scopes.tail = v.scopes.tail := by
  obtain ⟨new, hs, -⟩ := (h.visited v).scopes
  rw [hs, tail_growScopes]

theorem length_eq (h : Touches marks names m) (v : Visit) :
    (m.run v).2.scopes.length = v.scopes.length := by
  obtain ⟨new, hs, -⟩ := (h.visited v).scopes
  rw [hs, length_growScopes]

/-- What declares nothing leaves the stack alone. -/
theorem scopes_eq (h : Touches marks [] m) (v : Visit) : (m.run v).2.scopes = v.scopes := by
  obtain ⟨new, hs, hnew⟩ := (h.visited v).scopes
  have hempty : new = [] :=
    List.eq_nil_iff_forall_not_mem.mpr fun entry he => List.not_mem_nil (hnew entry he).1
  rw [hs, hempty, growScopes_nil]

end Touches

/-! ## The innermost scope -/

/-- A scope with new variables of a package for some names, and no other change. -/
structure Scope.Gains (package : String) (names : List String) (scope scope' : Scope) : Prop where
  new : ∀ name ∈ names, ∃ t, scope'.lookup name = some ⟨name, some package, .var, t⟩
  old : ∀ name, name ∉ names → scope'.lookup name = scope.lookup name

namespace Scope.Gains

variable {package : String} {names more : List String} {s s' s'' : Scope}

theorem refl (package : String) (scope : Scope) : Gains package [] scope scope :=
  ⟨by simp, fun _ _ => rfl⟩

theorem congr (h : Gains package names s s') (hn : ∀ name, name ∈ names ↔ name ∈ more) :
    Gains package more s s' where
  new name hm := h.new name ((hn name).mpr hm)
  old name hm := h.old name fun hmem => hm ((hn name).mp hmem)

theorem trans (h : Gains package names s s') (h' : Gains package more s' s'') :
    Gains package (names ++ more) s s'' where
  new name hm := by
    by_cases hlate : name ∈ more
    · exact h'.new name hlate
    · have hearly : name ∈ names := (List.mem_append.mp hm).resolve_right hlate
      rw [h'.old name hlate]
      exact h.new name hearly
  old name hm := by
    rw [List.mem_append, not_or] at hm
    rw [h'.old name hm.2, h.old name hm.1]

theorem isNone_lookup (h : Gains package names s s') (name : String) :
    (s'.lookup name).isNone ↔ name ∉ names ∧ (s.lookup name).isNone := by
  by_cases hm : name ∈ names
  · obtain ⟨t, ht⟩ := h.new name hm
    simp [ht, hm]
  · simp [h.old name hm, hm]

end Scope.Gains

/-- A computation declares variables in the innermost scope, for the names that `names` gives for
that scope, and changes no other. -/
def Declares (env : FileEnv) (names : Scope → List String) {α : Type} (m : StateM Visit α) : Prop :=
  ∀ (v : Visit) (scope : Scope) (outer : List Scope), v.scopes = scope :: outer →
    ∃ scope', (m.run v).2.scopes = scope' :: outer ∧
      Scope.Gains env.decls.name (names scope) scope scope'

namespace Declares

variable {env : FileEnv} {α β : Type} {names more total : Scope → List String}
  {m : StateM Visit α} {f : α → StateM Visit β}

theorem of_touches {marks : List Mark} (h : Touches marks [] m) : Declares env (fun _ => []) m :=
  fun v scope _ hv => ⟨scope, (h.scopes_eq v).trans hv, .refl _ _⟩

theorem congr (h : Declares env names m)
    (hn : ∀ scope name, name ∈ names scope ↔ name ∈ more scope) : Declares env more m := by
  intro v scope outer hv
  obtain ⟨scope', hs, hgains⟩ := h v scope outer hv
  exact ⟨scope', hs, hgains.congr (hn scope)⟩

theorem bind (hm : Declares env names m) (hf : ∀ a, Declares env more (f a))
    (hn : ∀ scope scope', Scope.Gains env.decls.name (names scope) scope scope' →
      ∀ name, name ∈ names scope ++ more scope' ↔ name ∈ total scope) :
    Declares env total (m >>= f) := by
  intro v scope outer hv
  obtain ⟨scope', hs, hgains⟩ := hm v scope outer hv
  obtain ⟨scope'', hs', hgains'⟩ := hf (m.run v).1 _ scope' outer hs
  exact ⟨scope'', hs', (hgains.trans hgains').congr (hn scope scope' hgains)⟩

theorem after {marks : List Mark} (hm : Touches marks [] m) (hf : ∀ a, Declares env more (f a)) :
    Declares env more (m >>= f) := by
  intro v scope outer hv
  exact hf (m.run v).1 _ scope outer ((hm.scopes_eq v).trans hv)

/-- The innermost scope has been asked for a name. -/
theorem declaredHere {name : String} {f : Bool → StateM Visit α} (hf : Declares env names (f false))
    (ht : Declares env more (f true)) :
    Declares env (fun scope => if (scope.lookup name).isNone then names scope else more scope)
      (Visit.declaredHere name >>= f) := by
  intro v scope outer hv
  have hrun : (Visit.declaredHere name >>= f).run v = (f (scope.lookup name).isSome).run v := by
    change (f (v.scopes.head?.bind (·.lookup name)).isSome).run v = _
    rw [hv]
    rfl
  dsimp only
  rw [hrun]
  cases scope.lookup name with
  | none => exact hf v scope outer hv
  | some symbol => exact ht v scope outer hv

end Declares

/-! ## Statements -/

theorem filter_declaredNames (p : String → Bool) (i : Ident) :
    (declaredNames [i]).filter p = if p i.name then declaredNames [i] else [] := by
  by_cases h : i.name = "_" <;> simp [declaredNames, h, List.filter_singleton]

/-- The names that a statement declares in its scope, where a definition takes none twice. -/
def Stmt.newNames (scope : Scope) : Stmt → List String
  | .assign lhs _ true =>
    (declaredNames (lhs.filterMap Expr.ident?)).filter fun name => (scope.lookup name).isNone
  | .declare specs => specs.flatMap ValueSpec.declares
  | .labeled body => body.newNames scope
  | _ => []

/-- Does a statement hold blocks of its own: a block, a branch, a loop or a choice of clauses? -/
def Stmt.isCompound : Stmt → Bool
  | .block _ | .ifThen _ _ _ _ | .loop _ _ _ _ | .range _ _ _ _ _ | .switch _ _ _
  | .typeSwitch _ _ _ _ | .select _ => true
  | .labeled body => body.isCompound
  | _ => false

theorem Stmt.declares_of_isCompound {s : Stmt} (h : s.isCompound) : s.declares = [] := by
  fun_induction Stmt.isCompound s with
  | case8 body ih => exact ih h
  | case9 => cases h
  | _ => rfl

section

variable (env : FileEnv)

theorem declare_gains (i : Ident) (t : Option Ty) :
    Declares env (fun _ => declaredNames [i]) (Visit.declare env i.name t) := by
  unfold Visit.declare
  split_ifs with h
  · have hnames : declaredNames [i] = [] := by simp [declaredNames, h]
    rw [hnames]
    exact Declares.of_touches (touches_pure ())
  · intro v scope outer hv
    have hnames : declaredNames [i] = [i.name] := by simp [declaredNames, h]
    refine ⟨(i.name, ⟨i.name, some env.decls.name, .var, t⟩) :: scope, ?_, ?_⟩
    · cases v
      cases hv
      rfl
    · rw [hnames]
      constructor
      · intro name hm
        obtain rfl := List.mem_singleton.mp hm
        exact ⟨t, by simp⟩
      · intro name hm
        have hne : name ≠ i.name := fun heq => hm (List.mem_singleton.mpr heq)
        simp [List.lookup_cons, beq_eq_false_iff_ne.mpr hne]

theorem declareValues_gains (t : Option Ty) (is : List Ident) (types : List (Option Ty)) :
    Declares env (fun _ => declaredNames is) (Visit.declareValues env t is types) := by
  induction is generalizing types with
  | nil => exact Declares.of_touches (touches_pure ())
  | cons i is ih =>
    rw [declaredNames_cons]
    exact (declare_gains env i _).bind (fun _ => ih types.tail) fun _ _ _ _ => Iff.rfl

theorem visitSpecs_gains (specs : List ValueSpec) :
    Declares env (fun _ => specs.flatMap ValueSpec.declares) (visitSpecs env specs) := by
  induction specs with
  | nil =>
    rw [visitSpecs]
    exact Declares.of_touches (touches_pure ())
  | cons spec specs ih =>
    obtain ⟨names, type, values⟩ := spec
    rw [visitSpecs]
    exact Declares.after (touches_exprs env values) fun types =>
      (declareValues_gains env _ names _).bind (fun _ => ih) fun _ _ _ _ => Iff.rfl

/-- A name that stands twice among the targets is declared once. -/
theorem visitTargets_gains (xs : List Expr) (types : List (Option Ty)) :
    Declares env (fun scope => (declaredNames (xs.filterMap Expr.ident?)).filter fun name =>
      (scope.lookup name).isNone) (visitTargets env xs types) := by
  induction xs generalizing types with
  | nil =>
    rw [visitTargets]
    exact Declares.of_touches (touches_pure ())
  | cons x xs ih =>
    rw [visitTargets]
    cases hx : x.ident? with
    | none =>
      rw [List.filterMap_cons_none hx]
      exact Declares.after (touches_expr env x) fun _ => ih types.tail
    | some i =>
      rw [List.filterMap_cons_some hx, declaredNames_cons]
      have hhere : Declares env (fun scope => (declaredNames (xs.filterMap Expr.ident?)).filter
          fun name => (scope.lookup name).isNone)
          (do let _ ← visitExpr env x; visitTargets env xs types.tail) :=
        Declares.after (touches_expr env x) fun _ => ih types.tail
      have hnew : Declares env (fun scope => declaredNames [i] ++
          (declaredNames (xs.filterMap Expr.ident?)).filter fun name => (scope.lookup name).isNone)
          (do Visit.declare env i.name types.head?.join; visitTargets env xs types.tail) := by
        refine (declare_gains env i _).bind (fun _ => ih types.tail) ?_
        intro scope scope' hgains name
        simp only [List.mem_append, List.mem_filter, hgains.isNone_lookup name]
        tauto
      refine (Declares.declaredHere hnew hhere).congr fun scope name => ?_
      rw [List.filter_append, filter_declaredNames]
      split_ifs <;> rfl

theorem visitStmt_gains_nil {s : Stmt} (h : s.declares = []) :
    Declares env (fun _ => []) (visitStmt env s) := Declares.of_touches (h ▸ touches_stmt env s)

/-- A statement declares variables for its new names alone. -/
theorem visitStmt_gains (s : Stmt) :
    Declares env (fun scope => s.newNames scope) (visitStmt env s) := by
  cases s with
  | assign lhs rhs define =>
    cases define with
    | true =>
      rw [visitStmt]
      exact Declares.after (touches_exprs env rhs) fun types => visitTargets_gains env lhs _
    | false => exact visitStmt_gains_nil env rfl
  | declare specs =>
    rw [visitStmt]
    exact visitSpecs_gains env specs
  | labeled body =>
    rw [visitStmt]
    exact visitStmt_gains body
  | _ => exact visitStmt_gains_nil env rfl

end

/-- **Scopes are balanced.** A visit leaves all scopes but the innermost as they were, and a
statement declares there its new names alone. -/
theorem scopes_balanced (env : FileEnv) (v : Visit) :
    (∀ x : Expr, ((visitExpr env x).run v).2.scopes = v.scopes) ∧
    (∀ (func : FuncDecl) (body : List Stmt),
      ((visitFunc env func body).run v).2.scopes = v.scopes) ∧
    ∀ s : Stmt,
      let scopes := ((visitStmt env s).run v).2.scopes
      scopes.length = v.scopes.length ∧ scopes.tail = v.scopes.tail ∧
      (∀ (scope : Scope) (outer : List Scope), v.scopes = scope :: outer →
        ∃ scope' : Scope, scopes = scope' :: outer ∧
          (∀ name, name ∉ s.newNames scope → scope'.lookup name = scope.lookup name) ∧
          ∀ name ∈ s.newNames scope, ∃ t,
            scope'.lookup name = some ⟨name, some env.decls.name, .var, t⟩) ∧
      (s.isCompound → scopes = v.scopes ∧
        ∀ name, env.lookup scopes name = env.lookup v.scopes name) := by
  refine ⟨fun x => (touches_expr env x).scopes_eq v, fun func body => ?_, fun s => ?_⟩
  · exact (visitFunc_visits (keeps_true env) func body).touches.scopes_eq v
  · have htouches := touches_stmt env s
    refine ⟨htouches.length_eq v, htouches.tail_eq v, ?_, ?_⟩
    · intro scope outer hv
      obtain ⟨scope', hs, hgains⟩ := visitStmt_gains env s v scope outer hv
      exact ⟨scope', hs, hgains.old, hgains.new⟩
    · intro hs
      rw [Stmt.declares_of_isCompound hs] at htouches
      have hscopes := htouches.scopes_eq v
      exact ⟨hscopes, fun name => by rw [hscopes]⟩

/-- A file of an empty package `p`. -/
def emptyFile : FileEnv where
  index := {}
  decls := { name := "p", path := "example.com/p" }
  imports := {}
  inferred := ∅

/-- A scope that declares one variable of `p`. -/
def scopeOf (name : String) : Scope := [(name, ⟨name, some "p", .var, none⟩)]

/-- `x, z := func(w int) { y := w }, missing.call()`, where nothing is known about `missing`. -/
def redefinition : Stmt :=
  .assign [.ident ⟨0, "x"⟩, .ident ⟨1, "z"⟩]
    [.func [⟨[⟨2, "w"⟩], .name none "int"⟩] [] [.assign [.ident ⟨3, "y"⟩] [.ident ⟨4, "w"⟩] true],
      .call (.selector 5 (.ident ⟨6, "missing"⟩) ⟨7, "call"⟩) []] true

/-- `if x, z := …; z { x, z := … }` -/
def guardedRedefinition : Stmt :=
  .ifThen (some redefinition) (.ident ⟨8, "z"⟩) [redefinition] none

/-- The definition declares `z` alone, and as the head of a branch nothing. -/
theorem scopes_balanced_definition :
    redefinition.newNames (scopeOf "x") = ["z"] ∧ guardedRedefinition.isCompound ∧
      (∃ scope' : Scope, ((visitStmt emptyFile redefinition).run
          { scopes := [scopeOf "x", scopeOf "y"] }).2.scopes = [scope', scopeOf "y"] ∧
        scope'.lookup "x" = (scopeOf "x").lookup "x" ∧ scope'.lookup "y" = none ∧
        ∃ t, scope'.lookup "z" = some ⟨"z", some "p", .var, t⟩) ∧
      ((visitStmt emptyFile guardedRedefinition).run
        { scopes := [scopeOf "x", scopeOf "y"] }).2.scopes = [scopeOf "x", scopeOf "y"] := by
  have hnames : redefinition.newNames (scopeOf "x") = ["z"] := by decide
  have hstmts := (scopes_balanced emptyFile { scopes := [scopeOf "x", scopeOf "y"] }).2.2
  obtain ⟨scope', hs, hold, hnew⟩ := (hstmts redefinition).2.2.1 _ _ rfl
  rw [hnames] at hold hnew
  refine ⟨hnames, rfl, ⟨scope', hs, ?_, ?_, ?_⟩, ((hstmts guardedRedefinition).2.2.2 rfl).1⟩
  · exact hold "x" (by decide)
  · exact hold "y" (by decide)
  · exact hnew "z" (by decide)

end GoCalls
