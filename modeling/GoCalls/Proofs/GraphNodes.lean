import GoCalls.Proofs.Contributions
import GoCalls.Proofs.ImportedCalls

/-!
# The nodes of a graph

A graph has a node for each function that a scanned package declares, for each closure that one of
their bodies gives to a variable, and for the target of each call. There are no others, and calls are
made by functions and closures only.

* `Package.IsScanned`: a package takes part in the graph.
* `Package.Declares`, `Package.AssignsClosure`: the routines of a package.
* **`Point.mem_nodes_trace`**: the nodes that a piece of code adds are its closures.
* **`Point.scope_of_closure`**: the routine around a place is the outer one, or a closure.
* **`graph_nodes_exact`**: the nodes of the graph of some packages.
-/

namespace GoCalls

/-! ## Closures in a body -/

theorem nodes_tracesOf (tables : Option Tables) (points : List Point) :
    (tracesOf tables points).nodes = points.flatMap fun p => (p.trace tables).nodes := by
  induction points with
  | nil => rfl
  | cons p ps ih => simp [ih]

/-- Only a closure adds a node itself. -/
theorem Point.mem_nodes_own {tables : Option Tables} {p : Point} {name : String} :
    name ∈ (p.own tables).nodes ↔ ∃ var, p.code.closureVar? = some var ∧
      name = p.ctx.scopedName var := by
  cases hc : p.code <;> simp [Point.own, hc, Code.closureVar?]

/-- **The nodes that a piece of code adds** are its closures. -/
theorem Point.mem_nodes_trace {tables : Option Tables} {p : Point} {name : String} :
    name ∈ (p.trace tables).nodes ↔ ∃ path var, p.Assigns path var name := by
  induction p using Point.induction with
  | step p ih =>
    rw [Point.trace_eq, Trace.nodes_append, List.mem_append, Point.mem_nodes_own, nodes_tracesOf,
      List.mem_flatMap]
    constructor
    · rintro (⟨var, hvar, hname⟩ | ⟨q, hq, hname⟩)
      · exact ⟨[], var, p, rfl, hvar, hname⟩
      · obtain ⟨path, var, hassigns⟩ := (ih q hq).mp hname
        obtain ⟨i, hi⟩ := List.mem_iff_getElem?.mp hq
        exact ⟨i :: path, var, hassigns.cons hi⟩
    · rintro ⟨path, var, site, hsite, hvar, hname⟩
      cases path with
      | nil =>
        obtain rfl := Option.some.inj hsite
        exact .inl ⟨var, hvar, hname⟩
      | cons i path =>
        obtain ⟨q, hq, hsite⟩ := Option.bind_eq_some_iff.mp hsite
        have hmem : q ∈ p.parts := List.mem_of_getElem? hq
        exact .inr ⟨q, hmem, (ih q hmem).mpr ⟨path, var, site, hsite, hvar, hname⟩⟩

/-- **The routine around a place** is that of the code, or a closure in it. -/
theorem Point.scope_of_closure {p site : Point} {path : List Nat} (h : p.at? path = some site) :
    site.ctx.scope = p.ctx.scope ∨ ∃ front var, p.Assigns front var site.ctx.scope := by
  induction path using List.reverseRecOn generalizing site with
  | nil =>
    obtain rfl := Option.some.inj h
    exact .inl rfl
  | append_singleton path i ih =>
    obtain ⟨q, hq, hsite⟩ := Point.at?_concat h
    have hscope : site.ctx.scope = (q.ctx.inside q.code).scope :=
      scope_of_mem_pointsOf (List.mem_of_getElem? hsite)
    rw [hscope]
    cases hc : q.code with
    | closure var binders body =>
      exact .inr ⟨path, var, q, hq, congrArg Code.closureVar? hc, rfl⟩
    | _ => exact ih hq

/-- The name of a closure tells where it is assigned. -/
theorem Point.assigns_iff {p : Point} (hs : p.ctx.scope ≠ "") {path : List Nat}
    {var name : String} :
    p.Assigns path var name ↔ p.closureAt? path = some var ∧
      name = nestedScope p.ctx.scope (p.varsAround path ++ [var]) := by
  have hname : ∀ q, p.at? path = some q →
      q.ctx.scopedName var = nestedScope p.ctx.scope (p.varsAround path ++ [var]) := by
    intro q hq
    rw [Context.scopedName, if_neg (Point.scope_ne_empty_of_at? hs hq), Point.scope_of_at? hs hq,
      nestedScope_append]
    rfl
  rw [Point.closureAt?, Option.bind_eq_some_iff]
  constructor
  · rintro ⟨q, hq, hvar, rfl⟩
    exact ⟨⟨q, hq, hvar⟩, hname q hq⟩
  · rintro ⟨⟨q, hq, hvar⟩, rfl⟩
    exact ⟨q, hq, hvar, (hname q hq).symm⟩

/-! ## Functions -/

/-- The body of the function gives a closure with this name to a variable. -/
def FuncDecl.AssignsClosure (package : String) (func : FuncDecl) (name : String) : Prop :=
  ∃ body, func.body = some body ∧ ∃ path var,
    (func.root package body).closureAt? path = some var ∧
    name = nestedScope (func.qualifiedName package) ((func.root package body).varsAround path ++ [var])

theorem FuncDecl.assignsClosure_of_assigns {package : String} {func : FuncDecl} {body : List Stmt}
    (hbody : func.body = some body) {path : List Nat} {var name : String}
    (h : (func.root package body).Assigns path var name) : func.AssignsClosure package name := by
  have hs : (func.root package body).ctx.scope ≠ "" := func.qualifiedName_ne_empty package
  exact ⟨body, hbody, path, var, (Point.assigns_iff hs).mp h⟩

theorem FuncDecl.mem_nodes_trace {tables : Tables} {package : String} {func : FuncDecl}
    {name : String} :
    name ∈ (func.trace tables package).nodes ↔
      name = func.qualifiedName package ∨ func.AssignsClosure package name := by
  rw [FuncDecl.trace, Trace.nodes_append, List.mem_append, List.mem_singleton]
  refine or_congr_right ?_
  cases hbody : func.body with
  | none => simp [FuncDecl.AssignsClosure, hbody]
  | some body =>
    have hs : (func.root package body).ctx.scope ≠ "" := func.qualifiedName_ne_empty package
    have htrace : stmtsTrace (some tables) { package, scope := func.qualifiedName package } body =
        (func.root package body).trace (some tables) := rfl
    simp only [htrace, Point.mem_nodes_trace, Point.assigns_iff hs, FuncDecl.AssignsClosure, hbody,
      Option.some.injEq, exists_eq_left']
    rfl

theorem FuncDecl.source_of_mem_trace {tables : Tables} {package : String} {func : FuncDecl}
    {e : Edge} (h : e ∈ (func.trace tables package).edges) :
    e.source = func.qualifiedName package ∨ func.AssignsClosure package e.source := by
  cases hbody : func.body with
  | none => simp [FuncDecl.trace, hbody] at h
  | some body =>
    rw [FuncDecl.edges_trace hbody] at h
    obtain ⟨site, hsite, he⟩ := List.mem_flatMap.mp h
    rw [Point.source_of_mem_own he]
    rcases Point.scope_of_closure (Point.mem_walk.mp hsite) with hscope | ⟨front, var, hassigns⟩
    · exact .inl hscope
    · exact .inr (FuncDecl.assignsClosure_of_assigns hbody hassigns)

/-! ## Packages -/

/-- A package takes part in a graph: it passes the filter, its tables are known, and it has files. -/
def Package.IsScanned (filter : Filter) (package : Package) : Prop :=
  filter.accepts package.name ∧ package.tables.isSome ∧ package.files ≠ []

/-- A file of the package declares the function, with or without a body. -/
def Package.HasFunc (package : Package) (func : FuncDecl) : Prop :=
  ∃ file ∈ package.files, Decl.func func ∈ file.decls

/-- A function of the package has the name. -/
def Package.Declares (package : Package) (name : String) : Prop :=
  ∃ func, package.HasFunc func ∧ name = func.qualifiedName package.name

/-- A closure in a function of the package has the name. -/
def Package.AssignsClosure (package : Package) (name : String) : Prop :=
  ∃ func, package.HasFunc func ∧ func.AssignsClosure package.name name

theorem Package.mem_funcs {package : Package} {func : FuncDecl} :
    func ∈ package.funcs ↔ package.HasFunc func := by
  unfold Package.funcs Package.HasFunc
  simp only [List.mem_flatMap, List.mem_filterMap]
  constructor
  · rintro ⟨file, hfile, decl, hdecl, h⟩
    split at h
    · cases h
      exact ⟨file, hfile, hdecl⟩
    · cases h
  · rintro ⟨file, hfile, hdecl⟩
    exact ⟨file, hfile, _, hdecl, rfl⟩

theorem foldr_trace_eq (tables : Tables) (package : String) (funcs : List FuncDecl) :
    funcs.foldr (fun func (rest : Trace) => func.trace tables package ++ rest) {} =
      ⟨funcs.flatMap fun func => (func.trace tables package).nodes,
        funcs.flatMap fun func => (func.trace tables package).edges⟩ := by
  induction funcs with
  | nil => rfl
  | cons func funcs ih => rw [List.foldr_cons, ih]; rfl

theorem Package.scan_of_isScanned {filter : Filter} {package : Package}
    (h : package.IsScanned filter) :
    ∃ tables, (package.scan filter).2 =
      ⟨package.funcs.flatMap fun func => (func.trace tables package.name).nodes,
        package.funcs.flatMap fun func => (func.trace tables package.name).edges⟩ := by
  obtain ⟨haccepts, htables, hfiles⟩ := h
  obtain ⟨tables, htables⟩ := Option.isSome_iff_exists.mp htables
  refine ⟨tables, ?_⟩
  rw [← foldr_trace_eq]
  simp [Package.scan, haccepts, htables, hfiles]

/-- A package that does not take part adds nothing. -/
theorem Package.scan_of_not_isScanned {filter : Filter} {package : Package}
    (h : ¬ package.IsScanned filter) : (package.scan filter).2 = {} := by
  by_cases haccepts : filter.accepts package.name
  · cases htables : package.tables with
    | none => simp [Package.scan, haccepts, htables]
    | some tables =>
      have hfiles : package.files = [] := by
        by_contra hfiles
        exact h ⟨haccepts, by simp [htables], hfiles⟩
      simp [Package.scan, haccepts, htables, hfiles]
  · exact Package.scan_of_not_accepts haccepts

theorem Package.mem_nodes_scan {filter : Filter} {package : Package} {name : String} :
    name ∈ (package.scan filter).2.nodes ↔ package.IsScanned filter ∧
      (package.Declares name ∨ package.AssignsClosure name) := by
  by_cases h : package.IsScanned filter
  · obtain ⟨tables, hscan⟩ := Package.scan_of_isScanned h
    simp only [hscan, List.mem_flatMap, Package.mem_funcs, FuncDecl.mem_nodes_trace, h, true_and,
      and_or_left, exists_or]
    rfl
  · simp [Package.scan_of_not_isScanned h, h]

theorem Package.source_of_mem_scan {filter : Filter} {package : Package} {e : Edge}
    (h : e ∈ (package.scan filter).2.edges) : package.IsScanned filter ∧
      (package.Declares e.source ∨ package.AssignsClosure e.source) := by
  by_cases hs : package.IsScanned filter
  · obtain ⟨tables, hscan⟩ := Package.scan_of_isScanned hs
    rw [hscan] at h
    obtain ⟨func, hfunc, he⟩ := List.mem_flatMap.mp h
    have hfunc := Package.mem_funcs.mp hfunc
    refine ⟨hs, ?_⟩
    rcases FuncDecl.source_of_mem_trace he with hname | hclosure
    · exact .inl ⟨func, hfunc, hname⟩
    · exact .inr ⟨func, hfunc, hclosure⟩
  · simp [Package.scan_of_not_isScanned hs] at h

/-! ## Graphs -/

theorem Graph.ofPackages_of_not_isScanned {filter : Filter} {package : Package}
    (h : ¬ package.IsScanned filter) (before after : List Package) :
    Graph.ofPackages filter (before ++ package :: after) =
      Graph.ofPackages filter (before ++ after) := by
  unfold Graph.ofPackages
  rw [List.foldl_append, List.foldl_append, List.foldl_cons, Package.scan_of_not_isScanned h,
    Graph.extend_empty]

/-- **The nodes of a graph are exact**: declared functions of scanned packages, the closures that
these give to variables, and the targets of edges. -/
theorem graph_nodes_exact (filter : Filter) (packages : List Package) :
    (∀ name, name ∈ (Graph.ofPackages filter packages).nodes ↔
      (∃ p ∈ packages, p.IsScanned filter ∧ p.Declares name) ∨
      (∃ p ∈ packages, p.IsScanned filter ∧ p.AssignsClosure name) ∨
      ∃ e ∈ (Graph.ofPackages filter packages).edges, name = e.target) ∧
    (∀ e ∈ (Graph.ofPackages filter packages).edges,
      (∃ p ∈ packages, p.IsScanned filter ∧ p.Declares e.source) ∨
      ∃ p ∈ packages, p.IsScanned filter ∧ p.AssignsClosure e.source) ∧
    ∀ before package after, packages = before ++ package :: after → ¬ package.IsScanned filter →
      Graph.ofPackages filter packages = Graph.ofPackages filter (before ++ after) := by
  have hsource : ∀ p ∈ packages, ∀ e ∈ (p.scan filter).2.edges,
      (∃ p ∈ packages, p.IsScanned filter ∧ p.Declares e.source) ∨
      ∃ p ∈ packages, p.IsScanned filter ∧ p.AssignsClosure e.source := by
    intro p hp e he
    obtain ⟨hs, hdeclares | hassigns⟩ := Package.source_of_mem_scan he
    · exact .inl ⟨p, hp, hs, hdeclares⟩
    · exact .inr ⟨p, hp, hs, hassigns⟩
  refine ⟨fun name => ?_, fun e he => ?_, ?_⟩
  · rw [Graph.mem_nodes_ofPackages, edges_ofPackages]
    constructor
    · rintro ⟨p, hp, hnode | ⟨e, he, rfl | rfl⟩⟩
      · obtain ⟨hs, hdeclares | hassigns⟩ := Package.mem_nodes_scan.mp hnode
        · exact .inl ⟨p, hp, hs, hdeclares⟩
        · exact .inr (.inl ⟨p, hp, hs, hassigns⟩)
      · rcases hsource p hp e he with hdeclares | hassigns
        · exact .inl hdeclares
        · exact .inr (.inl hassigns)
      · exact .inr (.inr ⟨e, List.mem_flatMap.mpr ⟨p, hp, he⟩, rfl⟩)
    · rintro (⟨p, hp, hs, hdeclares⟩ | ⟨p, hp, hs, hassigns⟩ | ⟨e, he, rfl⟩)
      · exact ⟨p, hp, .inl (Package.mem_nodes_scan.mpr ⟨hs, .inl hdeclares⟩)⟩
      · exact ⟨p, hp, .inl (Package.mem_nodes_scan.mpr ⟨hs, .inr hassigns⟩)⟩
      · obtain ⟨p, hp, he⟩ := List.mem_flatMap.mp he
        exact ⟨p, hp, .inr ⟨e, he, .inr rfl⟩⟩
  · rw [edges_ofPackages] at he
    obtain ⟨p, hp, he⟩ := List.mem_flatMap.mp he
    exact hsource p hp e he
  · rintro before package after rfl hs
    exact Graph.ofPackages_of_not_isScanned hs before after

end GoCalls
