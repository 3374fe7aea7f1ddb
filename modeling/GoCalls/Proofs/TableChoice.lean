import GoCalls.Calls.Scan
import GoCalls.Proofs.CallSites

/-!
# What tables can change

Tables say what identifiers and selectors stand for. They name the targets of calls and do nothing
else: which calls are recorded, from which routine and of which kind, is a matter of the syntax.

* `Edge.SameCall`: two edges may stand for one call under two choices of tables.
* `edges_ofPackages`: the edges of a call graph are those of its packages, one after another.
* **`sameCall_of_tables`**: the edges of two graphs of the same packages agree one by one.
-/

namespace GoCalls

/-- Two edges are alike except for the target, and there too if they are calls of a closure. -/
structure Edge.SameCall (a b : Edge) : Prop where
  source : a.source = b.source
  kind : a.kind = b.kind
  target : a.kind = .closure → a.target = b.target

/-! ## Callees -/

/-- Two callees of one call are both closures, and then the same, or none of them is. -/
def Callee.Alike (a b : Callee) : Prop :=
  a.viaBinding = b.viaBinding ∧ (a.viaBinding = true → a.name = b.name)

theorem calleeOfIdent_of_bound (t : Option Tables) {ctx : Context} {i : Ident} {closure : String}
    (h : ctx.lookup i.name = some closure) : calleeOfIdent t ctx i = ⟨closure, true⟩ := by
  simp [calleeOfIdent, h]

theorem viaBinding_of_unbound (t : Option Tables) {ctx : Context} {i : Ident}
    (h : ctx.lookup i.name = none) : (calleeOfIdent t ctx i).viaBinding = false := by
  simp only [calleeOfIdent, h]
  split <;> rfl

theorem calleeOfIdent_alike (t u : Option Tables) (ctx : Context) (i : Ident) :
    (calleeOfIdent t ctx i).Alike (calleeOfIdent u ctx i) := by
  cases h : ctx.lookup i.name with
  | some closure =>
    rw [calleeOfIdent_of_bound t h, calleeOfIdent_of_bound u h]
    exact ⟨rfl, fun _ => rfl⟩
  | none =>
    have ht := viaBinding_of_unbound t h
    exact ⟨ht.trans (viaBinding_of_unbound u h).symm, fun hb => absurd hb (by simp [ht])⟩

theorem callee?_alike (t u : Option Tables) (ctx : Context) (fn : Expr) :
    Option.Rel Callee.Alike (callee? t ctx fn) (callee? u ctx fn) := by
  cases fn with
  | ident i => exact .some (calleeOfIdent_alike t u ctx i)
  | selector id x sel => exact .some ⟨rfl, fun h => absurd h (by simp)⟩
  | _ => exact .none

/-- The edges of one call under two choices of tables. -/
theorem callEdges_sameCall (t u : Option Tables) (ctx : Context) {kind : Option CallKind}
    (hkind : kind ≠ some .closure) (fn : Expr) :
    List.Forall₂ Edge.SameCall (callEdges t ctx kind fn) (callEdges u ctx kind fn) := by
  have h := callee?_alike t u ctx fn
  unfold callEdges
  generalize callee? t ctx fn = a, callee? u ctx fn = b at h ⊢
  cases h with
  | none => exact .nil
  | @some a b hab =>
    obtain ⟨hvia, hname⟩ := hab
    by_cases hs : ctx.scope = ""
    · simp [hs]
    · simp only [hs, if_false]
      refine .cons ⟨rfl, by simp only [hvia], fun hk => hname ?_⟩ .nil
      cases kind with
      | some k => exact absurd (congrArg some hk) hkind
      | none => exact by_contra fun hb => by simp [hb] at hk

theorem Point.own_sameCall (t u : Option Tables) {p : Point} (hp : p.code.SpawnsOperand) :
    List.Forall₂ Edge.SameCall (p.own t).edges (p.own u).edges := by
  cases hcall : p.code.call? with
  | none => simp [Point.own, hcall]
  | some call =>
    obtain ⟨kind, fn⟩ := call
    simp only [Point.own, hcall]
    refine callEdges_sameCall t u p.ctx ?_ fn
    obtain ⟨args, -, rfl⟩ | ⟨k, args, hc, rfl⟩ := Code.call?_cases hcall
    · simp
    · rw [hc] at hp
      obtain rfl | rfl := hp <;> simp

/-! ## Bodies, functions, packages -/

theorem stmtsTrace_sameCall (t u : Option Tables) (ctx : Context) (body : List Stmt) :
    List.Forall₂ Edge.SameCall (stmtsTrace t ctx body).edges (stmtsTrace u ctx body).edges := by
  let root : Point := ⟨ctx, [], .block [] body⟩
  have hsites : ∀ site ∈ root.walk, site.2.code.SpawnsOperand := fun site hsite =>
    Point.spawnsOperand_of_at? (p := root) trivial (Point.mem_walk.mp hsite)
  show List.Forall₂ _ (root.trace t).edges (root.trace u).edges
  rw [Point.edges_trace, Point.edges_trace]
  refine List.rel_flatMap (R := fun a b => a = b ∧ a ∈ root.walk) ?_ ?_
  · exact List.forall₂_same.mpr fun site hsite => ⟨rfl, hsite⟩
  · rintro site _ ⟨rfl, hsite⟩
    exact Point.own_sameCall t u (hsites site hsite)

theorem FuncDecl.trace_sameCall (t u : Tables) (package : String) (func : FuncDecl) :
    List.Forall₂ Edge.SameCall (func.trace t package).edges (func.trace u package).edges := by
  unfold FuncDecl.trace
  cases func.body with
  | none => exact .nil
  | some body => exact stmtsTrace_sameCall _ _ _ body

/-- A package with the given tables. -/
def Package.withTables (package : Package) (tables : Tables) : Package :=
  { package with tables := some tables }

theorem Package.scan_withTables (filter : Filter) (package : Package) (tables : Tables) :
    ((package.withTables tables).scan filter).2 =
      if filter.accepts package.name ∧ package.files.isEmpty = false then
        package.funcs.foldr (fun func rest => func.trace tables package.name ++ rest) {}
      else {} := by
  by_cases haccepts : filter.accepts package.name <;> by_cases hfiles : package.files.isEmpty <;>
    simp only [Package.scan, Package.withTables, haccepts, hfiles] <;> rfl

theorem Package.scan_sameCall (filter : Filter) (package : Package) (t u : Tables) :
    List.Forall₂ Edge.SameCall ((package.withTables t).scan filter).2.edges
      ((package.withTables u).scan filter).2.edges := by
  rw [Package.scan_withTables, Package.scan_withTables]
  split_ifs
  · induction package.funcs with
    | nil => exact .nil
    | cons func funcs ih =>
      exact List.rel_append (FuncDecl.trace_sameCall t u package.name func) ih
  · exact .nil

theorem edges_foldl_extend (filter : Filter) (packages : List Package) (graph : Graph) :
    (packages.foldl (fun graph package => graph.extend (package.scan filter).2) graph).edges =
      graph.edges ++ packages.flatMap fun package => (package.scan filter).2.edges := by
  induction packages generalizing graph with
  | nil => simp
  | cons package packages ih =>
    rw [List.foldl_cons, ih, List.flatMap_cons, ← List.append_assoc]
    rfl

/-- The edges of packages come one after another. -/
theorem edges_ofPackages (filter : Filter) (packages : List Package) :
    (Graph.ofPackages filter packages).edges =
      packages.flatMap fun package => (package.scan filter).2.edges := by
  rw [Graph.ofPackages, edges_foldl_extend]
  rfl

/-- **Tables only name targets**: under two choices of tables, edges at one place agree except for
the targets of calls that are no closures. -/
theorem sameCall_of_tables (filter : Filter) (packages : List (Package × Tables × Tables)) :
    List.Forall₂ Edge.SameCall
      (Graph.ofPackages filter (packages.map fun p => p.1.withTables p.2.1)).edges
      (Graph.ofPackages filter (packages.map fun p => p.1.withTables p.2.2)).edges := by
  rw [edges_ofPackages, edges_ofPackages, List.flatMap_map, List.flatMap_map]
  refine List.rel_flatMap (R := Eq) (List.forall₂_refl _) ?_
  rintro ⟨package, t, u⟩ _ rfl
  exact Package.scan_sameCall filter package t u

end GoCalls
