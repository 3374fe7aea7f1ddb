import GoCalls.Proofs.ClosureScopes
import GoCalls.Proofs.TableChoice
import Mathlib.Data.List.Perm.Basic

/-!
# What packages contribute to a graph

Each package adds its own nodes and edges to a graph, whatever was there before. The order of the
packages decides in which order edges are found, and nothing else. Routines are named after their
package, so where the names of packages differ and can be told from those of routines, all calls
of one routine come from one package, and the texts of the graph do not depend on the order.

* `BelongsTo`: a name begins with that of a package and a dot.
* **`Package.source_belongsTo`**: the sources of the edges of a package.
* **`Graph.mem_nodes_ofPackages`**: the nodes of a graph are those of its packages.
* **`Graph.ofPackages_filter`**: packages that are filtered out do not count.
* **`graph_of_contributions`**: the graph of two lists of packages, and of a list in another order.
-/

namespace GoCalls

/-! ## Names in a package -/

/-- A name begins with the name of a package and a dot. -/
def BelongsTo (package name : String) : Prop := ∃ rest, name = package ++ "." ++ rest

theorem BelongsTo.ne_empty {package name : String} (h : BelongsTo package name) : name ≠ "" := by
  obtain ⟨rest, rfl⟩ := h
  intro he
  have := congrArg String.length he
  simp at this

theorem BelongsTo.append {package name : String} (h : BelongsTo package name) (more : String) :
    BelongsTo package (name ++ more) := by
  obtain ⟨rest, rfl⟩ := h
  exact ⟨rest ++ more, by simp [String.append_assoc]⟩

theorem BelongsTo.nested {package name : String} (h : BelongsTo package name) (vars : List String) :
    BelongsTo package (nestedScope name vars) := by
  induction vars generalizing name with
  | nil => exact h
  | cons var vars ih => exact ih ((h.append ".").append var)

/-- The first dot ends the name of the package. -/
theorem BelongsTo.takeWhile {package name : String} (h : BelongsTo package name)
    (hdot : '.' ∉ package.toList) : name.toList.takeWhile (· ≠ '.') = package.toList := by
  obtain ⟨rest, rfl⟩ := h
  have hall : ∀ c ∈ package.toList, (decide (c ≠ '.')) = true := by
    intro c hc
    simpa using fun he : c = '.' => hdot (he ▸ hc)
  simp only [String.toList_append, List.append_assoc]
  rw [List.takeWhile_append_of_pos hall]
  simp

theorem BelongsTo.unique {p q name : String} (hp : BelongsTo p name) (hq : BelongsTo q name)
    (hpdot : '.' ∉ p.toList) (hqdot : '.' ∉ q.toList) : p = q :=
  String.toList_inj.mp ((hp.takeWhile hpdot).symm.trans (hq.takeWhile hqdot))

theorem FuncDecl.qualifiedName_belongsTo (package : String) (func : FuncDecl) :
    BelongsTo package (func.qualifiedName package) := by
  unfold FuncDecl.qualifiedName
  split
  · rename_i recv _
    exact ⟨recv ++ "." ++ func.name.name, by simp [String.append_assoc]⟩
  · exact ⟨func.name.name, rfl⟩

/-! ## Sources -/

theorem Point.source_of_mem_own {tables : Option Tables} {p : Point} {e : Edge}
    (h : e ∈ (p.own tables).edges) : e.source = p.ctx.scope := by
  unfold Point.own callEdges at h
  dsimp only at h
  split at h
  · split at h
    · by_cases hs : p.ctx.scope = ""
      · simp [hs] at h
      · rw [if_neg hs] at h
        rw [List.mem_singleton.mp h]
    · simp at h
  · simp at h

theorem FuncDecl.source_belongsTo {tables : Tables} {package : String} {func : FuncDecl} {e : Edge}
    (h : e ∈ (func.trace tables package).edges) : BelongsTo package e.source := by
  have hname := func.qualifiedName_belongsTo package
  unfold FuncDecl.trace at h
  cases hbody : func.body with
  | none => simp [hbody] at h
  | some body =>
    rw [hbody] at h
    let root : Point := ⟨{ package, scope := func.qualifiedName package }, [], .block [] body⟩
    have hmem : e ∈ (root.trace (some tables)).edges := h
    rw [Point.edges_trace] at hmem
    obtain ⟨site, hsite, he⟩ := List.mem_flatMap.mp hmem
    rw [Point.source_of_mem_own he, Point.scope_of_at? hname.ne_empty (Point.mem_walk.mp hsite)]
    exact hname.nested _

theorem source_of_mem_foldr_trace {tables : Tables} {package : String} {funcs : List FuncDecl}
    {e : Edge}
    (h : e ∈ (funcs.foldr (fun func (rest : Trace) => func.trace tables package ++ rest) {}).edges) :
    BelongsTo package e.source := by
  induction funcs with
  | nil => simp at h
  | cons func funcs ih =>
    rw [List.foldr_cons, Trace.edges_append, List.mem_append] at h
    rcases h with h | h
    · exact FuncDecl.source_belongsTo h
    · exact ih h

/-- **The sources of a package** are named after it. -/
theorem Package.source_belongsTo {filter : Filter} {package : Package} {e : Edge}
    (h : e ∈ (package.scan filter).2.edges) : BelongsTo package.name e.source := by
  unfold Package.scan at h
  by_cases haccepts : filter.accepts package.name
  · cases htables : package.tables with
    | none => simp [haccepts, htables] at h
    | some tables =>
      by_cases hfiles : package.files.isEmpty
      · simp [haccepts, htables, hfiles] at h
      · simp only [haccepts, htables, hfiles] at h
        exact source_of_mem_foldr_trace h
  · simp [haccepts] at h

/-! ## Graphs of packages -/

theorem Graph.extend_empty (graph : Graph) : graph.extend {} = graph := by
  simp [Graph.extend]

theorem mem_nodes_foldl_extend (filter : Filter) (packages : List Package) (graph : Graph)
    (name : String) :
    name ∈ (packages.foldl (fun graph package => graph.extend (package.scan filter).2) graph).nodes ↔
      name ∈ graph.nodes ∨ ∃ p ∈ packages, (p.scan filter).2.Mentions name := by
  induction packages generalizing graph with
  | nil => simp
  | cons p packages ih =>
    rw [List.foldl_cons, ih, Graph.mem_nodes_extend, or_assoc]
    simp only [List.mem_cons, exists_eq_or_imp]

/-- **The nodes of a graph** are those that its packages mention. -/
theorem Graph.mem_nodes_ofPackages (filter : Filter) (packages : List Package) (name : String) :
    name ∈ (Graph.ofPackages filter packages).nodes ↔
      ∃ p ∈ packages, (p.scan filter).2.Mentions name := by
  rw [Graph.ofPackages, mem_nodes_foldl_extend]
  simp

theorem Filter.accepts_empty (name : String) : ({} : Filter).accepts name = true := by
  simp [Filter.accepts]

theorem Package.scan_of_accepts {filter : Filter} {package : Package}
    (h : filter.accepts package.name) : package.scan filter = package.scan {} := by
  unfold Package.scan
  rw [h, Filter.accepts_empty]

theorem Package.scan_of_not_accepts {filter : Filter} {package : Package}
    (h : ¬ filter.accepts package.name) : (package.scan filter).2 = {} := by
  simp [Package.scan, h]

/-- **Packages that are filtered out do not count.** -/
theorem Graph.ofPackages_filter (filter : Filter) (packages : List Package) :
    Graph.ofPackages filter packages =
      Graph.ofPackages {} (packages.filter fun p => filter.accepts p.name) := by
  unfold Graph.ofPackages
  rw [List.foldl_filter]
  congr 1
  funext graph package
  by_cases h : filter.accepts package.name
  · rw [if_pos h, Package.scan_of_accepts h]
  · rw [if_neg h, Package.scan_of_not_accepts h, Graph.extend_empty]

/-! ## The order of packages -/

/-- Lists of which at most one has items can change places. -/
theorem flatMap_eq_of_perm {α β : Type} {f : α → List β} {as bs : List α} (h : as.Perm bs)
    (halone : as.Pairwise fun a b => f a = [] ∨ f b = []) : as.flatMap f = bs.flatMap f := by
  induction h with
  | nil => rfl
  | cons a _ ih =>
    rw [List.flatMap_cons, List.flatMap_cons, ih (List.pairwise_cons.mp halone).2]
  | swap a b as =>
    have hab := (List.pairwise_cons.mp halone).1 a List.mem_cons_self
    simp only [List.flatMap_cons]
    rcases hab with hb | ha
    · simp [hb]
    · simp [ha]
  | trans hab _ ih ih' =>
    exact (ih halone).trans (ih' (hab.pairwise halone fun h => h.symm))

/-- The calls between two nodes come from one package. -/
theorem sameCalls_of_perm (filter : Filter) {ps qs : List Package} (h : ps.Perm qs)
    (hnames : (ps.map (·.name)).Nodup) (hdots : ∀ p ∈ ps, '.' ∉ p.name.toList) :
    Edge.SameCalls (Graph.ofPackages filter ps).edges (Graph.ofPackages filter qs).edges := by
  intro source target
  let calls (p : Package) : List Edge := (p.scan filter).2.edges.filter (Edge.joins source target)
  have hsource : ∀ p, calls p ≠ [] → BelongsTo p.name source := by
    intro p hp
    obtain ⟨e, he⟩ := List.exists_mem_of_ne_nil _ hp
    obtain ⟨hmem, hjoins⟩ := List.mem_filter.mp he
    rw [← (Edge.joins_iff.mp hjoins).1]
    exact Package.source_belongsTo hmem
  have halone : ps.Pairwise fun a b => calls a = [] ∨ calls b = [] := by
    refine List.Pairwise.imp_of_mem ?_ (List.pairwise_map.mp hnames)
    intro a b ha hb hne
    by_contra hboth
    rw [not_or] at hboth
    exact hne ((hsource a hboth.1).unique (hsource b hboth.2) (hdots a ha) (hdots b hb))
  rw [edges_ofPackages, edges_ofPackages, List.filter_flatMap, List.filter_flatMap]
  exact flatMap_eq_of_perm h halone

/-- **A graph is put together from what its packages contribute**, and its texts do not depend on
their order where names differ and have no dots. -/
theorem graph_of_contributions (filter : Filter) (ps qs : List Package) :
    (Graph.ofPackages filter (ps ++ qs)).edges =
        (Graph.ofPackages filter ps).edges ++ (Graph.ofPackages filter qs).edges ∧
      (∀ name, name ∈ (Graph.ofPackages filter (ps ++ qs)).nodes ↔
        name ∈ (Graph.ofPackages filter ps).nodes ∨ name ∈ (Graph.ofPackages filter qs).nodes) ∧
      Graph.ofPackages filter ps =
        Graph.ofPackages {} (ps.filter fun p => filter.accepts p.name) ∧
      (ps.Perm qs →
        (∀ name, name ∈ (Graph.ofPackages filter ps).nodes ↔
          name ∈ (Graph.ofPackages filter qs).nodes) ∧
        (Graph.ofPackages filter ps).edges.Perm (Graph.ofPackages filter qs).edges ∧
        ((ps.map (·.name)).Nodup → (∀ p ∈ ps, '.' ∉ p.name.toList) →
          (Graph.ofPackages filter ps).toDot = (Graph.ofPackages filter qs).toDot ∧
          (Graph.ofPackages filter ps).toJson = (Graph.ofPackages filter qs).toJson)) := by
  refine ⟨?_, ?_, Graph.ofPackages_filter filter ps, fun hperm => ?_⟩
  · rw [edges_ofPackages, edges_ofPackages, edges_ofPackages, List.flatMap_append]
  · intro name
    simp only [Graph.mem_nodes_ofPackages, List.mem_append, or_and_right, exists_or]
  · have hnodes : ∀ name, name ∈ (Graph.ofPackages filter ps).nodes ↔
        name ∈ (Graph.ofPackages filter qs).nodes := by
      intro name
      simp only [Graph.mem_nodes_ofPackages, hperm.mem_iff]
    refine ⟨hnodes, ?_, fun hnames hdots => ?_⟩
    · rw [edges_ofPackages, edges_ofPackages]
      exact hperm.flatMap_right _
    · have halike : (Graph.ofPackages filter ps).Alike (Graph.ofPackages filter qs) :=
        ⟨hnodes, sameCalls_of_perm filter hperm hnames hdots⟩
      exact ⟨halike.toDot_eq, halike.toJson_eq⟩

/-- Two packages with one call each, of functions with the same name. -/
def twoCallers : List Package :=
  [{ name := "app", path := "example.com/app", tables := some {}, files := [
      { path := "app.go", package := "app", imports := [], decls := [.func
        { name := ⟨0, "Run"⟩, recv := none, params := [], results := []
          body := some [.go (.call (.ident ⟨1, "step"⟩) [])] }] }] },
    { name := "lib", path := "example.com/lib", tables := some {}, files := [
      { path := "lib.go", package := "lib", imports := [], decls := [.func
        { name := ⟨0, "Open"⟩, recv := none, params := [], results := []
          body := some [.expr (.call (.ident ⟨1, "step"⟩) [])] }] }] }]

/-- Two packages in either order have the same texts. -/
theorem graph_of_contributions_swapped :
    twoCallers.Perm twoCallers.reverse ∧ (twoCallers.map (·.name)).Nodup ∧
      (∀ p ∈ twoCallers, '.' ∉ p.name.toList) ∧
      (Graph.ofPackages {} twoCallers).edges ≠ (Graph.ofPackages {} twoCallers.reverse).edges ∧
      (Graph.ofPackages {} twoCallers).toDot = (Graph.ofPackages {} twoCallers.reverse).toDot ∧
      (Graph.ofPackages {} twoCallers).toJson = (Graph.ofPackages {} twoCallers.reverse).toJson := by
  have hperm : twoCallers.Perm twoCallers.reverse := (List.reverse_perm _).symm
  have hnames : (twoCallers.map (·.name)).Nodup := by decide
  have hdots : ∀ p ∈ twoCallers, '.' ∉ p.name.toList := by decide
  have hgraph := (graph_of_contributions {} twoCallers twoCallers.reverse).2.2.2 hperm
  exact ⟨hperm, hnames, hdots, by decide, hgraph.2.2 hnames hdots⟩

end GoCalls
