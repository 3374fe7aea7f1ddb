import GoCalls.Proofs.ImportedCalls
import GoCalls.Proofs.IntroducedNames
import Mathlib.Data.List.Infix

/-!
# Calls of predeclared names

The tracing of calls and the checking of types go through the same syntax in two ways. Where a call
is traced, it is checked too, so a predeclared name that nothing else declares is known as such at
each call, whatever the call stands in.

* `SourceFile.Avoids`: no import of a file stands for a name.
* **`FileEnv.global?_of_universe`**: a name that is declared nowhere is one of the language itself.
* **`callee?_of_predeclared`**: such a name is the callee at each place that calls it.
* **`predeclared_call_target`**: the target of a call of a predeclared name.
-/

namespace GoCalls

/-! ## Predeclared names -/

/-- Predeclared symbols belong to no package. -/
theorem Universe.package_of_symbol? {name : String} {symbol : Symbol}
    (h : Universe.symbol? name = some symbol) : symbol.package = none := by
  unfold Universe.symbol? at h
  split_ifs at h with _ _ _ _
  case neg =>
    obtain ⟨t, -, rfl⟩ := Option.map_eq_some_iff.mp h
    rfl
  all_goals
    obtain rfl := Option.some.inj h
    rfl

/-- No import of a file has a name as its local name or, with a dot, as a member. -/
structure SourceFile.Avoids (index : Index) (file : SourceFile) (name : String) : Prop where
  named : ∀ spec ∈ file.imports, spec.shortName index.names ≠ some name
  dotted : ∀ spec ∈ file.imports, spec.localName = some "." → index.member? spec.path name = none

section Imports

variable {names : Std.TreeMap String String} {file : SourceFile}

theorem Imports.named_ofFile_eq_none {name : String}
    (h : ∀ spec ∈ file.imports, spec.shortName names ≠ some name) :
    (Imports.ofFile names file).named[name]? = none := by
  unfold Imports.ofFile
  refine List.foldlRecOn (motive := fun imports : Imports => imports.named[name]? = none)
    file.imports _ Std.TreeMap.getElem?_emptyc fun imports hi spec hspec => ?_
  rw [Imports.named_add, if_neg (h spec hspec)]
  exact hi

end Imports

/-- **A name that is declared nowhere** is one of the language. -/
theorem FileEnv.global?_of_universe {env : FileEnv} {name : String} (hlacks : env.decls.Lacks name)
    (hlocal : env.decls.localTypes[name]? = none) (himport : env.imports.named[name]? = none)
    (hdotted : ∀ path ∈ env.imports.dotted, env.index.member? path name = none) :
    env.global? name = Universe.symbol? name := by
  have hcontains : env.decls.localTypes.contains name = false := by
    rw [Std.TreeMap.contains_eq_isSome_getElem?, hlocal]
    rfl
  have hmember : (env.imports.dotted.findSome? fun path => env.index.member? path name) = none :=
    List.findSome?_eq_none_iff.mpr hdotted
  unfold FileEnv.global?
  simp [hlacks.funcs, hlacks.values, hcontains, himport, hmember]

theorem SourceFile.Avoids.global? {index : Index} {file : SourceFile} {name : String}
    (h : file.Avoids index name) {package : Package} (htop : name ∉ package.topNames)
    (inferred : Std.TreeMap String Ty) :
    (index.fileEnv (Declarations.ofPackage index.names package) inferred file).global? name =
      Universe.symbol? name := by
  have hlacks := Declarations.ofPackage_lacks index.names htop
  refine @FileEnv.global?_of_universe (index.fileEnv _ inferred file) name hlacks.1 hlacks.2
    (Imports.named_ofFile_eq_none h.named) fun path hpath => ?_
  obtain ⟨spec, hspec, hdot, rfl⟩ := Imports.mem_dotted_ofFile hpath
  exact h.dotted spec hspec hdot

/-! ## Calls -/

theorem uses_visitExpr_ident {env : FileEnv} {u : Visit} {i : Ident} {symbol : Symbol}
    (hl : env.lookup u.scopes i.name = some symbol) :
    ((visitExpr env (.ident i)).run u).2.tables.uses[i.id]? = some symbol := by
  rw [visitExpr]
  simp only [StateT.run_bind, StateT.run_get, pure_bind, hl, Visit.use]
  exact Std.TreeMap.getElem?_insert_self

/-- A call records what its callee stands for. -/
theorem uses_visitExpr_call {env : FileEnv} {u : Visit} {i : Ident} {args : List Expr}
    {symbol : Symbol} (hl : env.lookup u.scopes i.name = some symbol)
    (hu : UniqueIds (Expr.call (.ident i) args).marks) :
    ((visitExpr env (.call (.ident i) args)).run u).2.tables.uses[i.id]? = some symbol := by
  have hargs : Apart (exprsMarks args) [i.mark] := by
    rw [Expr.marks, Expr.marks] at hu
    exact hu.apart.symm
  let w := ((visitExpr env (.ident i)).run u).2
  have hw : w.tables.uses[i.id]? = some symbol := uses_visitExpr_ident hl
  have hafter := (touches_exprs env args).agreeOn hargs w i.mark List.mem_cons_self
  have hcall : ((visitExpr env (.call (.ident i) args)).run u).2 =
      ((visitExprs env args).run w).2 := by
    rw [visitExpr]
    simp only [StateT.run_bind, StateT.run_get, pure_bind]
    -- What the call gives is computed from the types, and changes no table.
    split <;> rfl
  rw [hcall]
  exact hafter.1.trans hw

theorem visit_of_call? {c : Code} {kind : Option CallKind} {i : Ident}
    (h : c.call? = some (kind, .ident i)) :
    ∃ args, c.marks = (Expr.call (.ident i) args).marks ∧ ¬ c.IsName ∧ c.binders = [] ∧
      ∀ (env : FileEnv) (u : Visit), ((c.visit env).run u).2 =
        ((visitExpr env (.call (.ident i) args)).run u).2 := by
  obtain ⟨args, rfl, -⟩ | ⟨k, args, rfl, -⟩ := Code.call?_cases h
  · exact ⟨args, rfl, fun h => h, rfl, fun _ _ => rfl⟩
  · exact ⟨args, rfl, fun h => h, rfl, fun _ _ => rfl⟩

/-- The callee of a call by a predeclared name, where no scope declares it. -/
theorem callee?_of_predeclared {index : Index} {package : Package} {decls : Declarations}
    (hd : index.packages[package.path]? = some decls) (hids : package.UniqueIds) {file : SourceFile}
    {func : FuncDecl} {body : List Stmt} (hfunc : (file, .func func) ∈ package.decls)
    (hbody : func.body = some body)
    {path : List Nat} {site : Point} (hsite : (func.root package.name body).at? path = some site)
    (hplain : ∀ front q, front <+: path → (func.root package.name body).at? front = some q →
      q.code.PlainRange)
    {kind : Option CallKind} {i : Ident} (hcall : site.code.call? = some (kind, .ident i))
    (hlocal : i.name ∉ site.locals) (hbound : site.ctx.lookup i.name = none) {symbol : Symbol}
    (hglobal : ∀ inferred, (index.fileEnv decls inferred file).global? i.name = some symbol)
    (hpackage : symbol.package = none) :
    callee? (some (index.check package)) site.ctx (.ident i) = some ⟨i.name, false⟩ := by
  obtain ⟨args, hmarks, hname, hbinders, hvisit⟩ := visit_of_call? hcall
  have hbodyIds := hids.of_body hfunc hbody
  have hpass (env : FileEnv) : Passes env (stmtsMarks body) [] (visitFunc env func body) site :=
    visitFunc_passes_of_at? hsite hname hplain hbodyIds
  obtain ⟨inferred, u, hcovers, -, hagree⟩ := Index.check_passes hd hids hfunc hbody hpass
  -- The name is looked up past all scopes, and what it stands for is recorded.
  have hentry : i.name ∉ site.entry := by
    rw [Point.entry, hbinders, List.append_nil]
    exact hlocal
  have hlookup := (hcovers.lookup hentry _).trans (hglobal inferred)
  have hunique : UniqueIds (Expr.call (.ident i) args).marks := by
    rw [← hmarks]
    exact hbodyIds.sublist (hpass (index.fileEnv decls inferred file)).sub
  have hmem : i.mark ∈ site.code.marks := by
    rw [hmarks, Expr.marks, Expr.marks]
    exact List.mem_append_left _ List.mem_cons_self
  have huse : (index.check package).uses[i.id]? = some symbol :=
    calc (index.check package).uses[i.id]?
        = ((site.code.visit (index.fileEnv decls inferred file)).run u).2.tables.uses[i.id]? :=
          (hagree _ hmem).1
      _ = some symbol := by rw [hvisit, uses_visitExpr_call hlookup hunique]
  obtain ⟨name, symbolPackage, symbolKind, type⟩ := symbol
  obtain rfl : symbolPackage = none := hpackage
  simp [callee?, calleeOfIdent, hbound, huse]

/-! ## Targets -/

/-- The names that a function declares or assigns: its receiver, parameters and results, and all that
its body introduces. -/
def FuncDecl.introduces (func : FuncDecl) : List String :=
  func.binders ++ stmtsIntroduce (func.body.getD [])

/-- **A call of a predeclared name has this name as its target**, if nothing in the function, its
file or its package introduces the name. -/
theorem predeclared_call_target {index : Index} {package : Package}
    (hindex : index.packages[package.path]? = some (Declarations.ofPackage index.names package))
    (hids : package.UniqueIds) {name : String} (hname : (Universe.symbol? name).isSome)
    (htop : name ∉ package.topNames) {file : SourceFile} (hfile : file ∈ package.files)
    (himports : file.Avoids index name) {func : FuncDecl} {body : List Stmt}
    (hfunc : .func func ∈ file.decls) (hbody : func.body = some body)
    (hcode : name ∉ func.introduces)
    {path : List Nat} {site : Point} (hsite : (func.root package.name body).at? path = some site)
    (hplain : ∀ front q, front <+: path → (func.root package.name body).at? front = some q →
      q.code.PlainRange)
    {kind : Option CallKind} {i : Ident} (hcall : site.code.call? = some (kind, .ident i))
    (hi : i.name = name) :
    let tables := index.check package
    let edge : Edge := ⟨site.ctx.scope, name, kind.getD .direct⟩
    (site.own (some tables)).edges = [edge] ∧ edge ∈ (func.trace tables package.name).edges := by
  intro tables edge
  subst hi
  obtain ⟨symbol, hsymbol⟩ := Option.isSome_iff_exists.mp hname
  have hroot : i.name ∉ (func.root package.name body).code.introduces := by
    rw [FuncDecl.introduces, hbody] at hcode
    exact hcode
  have hlocal : i.name ∉ site.locals := by
    intro h
    rcases List.mem_append.mp (Point.locals_subset hsite h) with hempty | hroot'
    · exact absurd hempty List.not_mem_nil
    · exact hroot hroot'
  have hbound : site.ctx.lookup i.name = none := Point.lookup_eq_none rfl hsite hroot
  have hcallee := callee?_of_predeclared hindex hids (Package.mem_decls.mpr ⟨hfile, hfunc⟩) hbody
    hsite hplain hcall hlocal hbound (fun inferred => (himports.global? htop inferred).trans hsymbol)
    (Universe.package_of_symbol? hsymbol)
  have hscope : site.ctx.scope ≠ "" :=
    Point.scope_ne_empty_of_at? (func.qualifiedName_ne_empty package.name) hsite
  have hown : (site.own (some tables)).edges = [edge] := by
    simp [Point.own, hcall, callEdges, hcallee, hscope, tables, edge]
  refine ⟨hown, ?_⟩
  rw [FuncDecl.edges_trace hbody]
  refine List.mem_flatMap.mpr ⟨(path, site), Point.mem_walk.mpr hsite, ?_⟩
  rw [hown]
  exact List.mem_singleton_self edge

/-- A package whose function is used without a package name. -/
def sizes : Package where
  name := "sizes"
  path := "example.com/sizes"
  files := [{ path := "sizes.go", package := "sizes", imports := [], decls := [
    .func { name := ⟨0, "Width"⟩, recv := none, params := [], results := [], body := some [] }] }]

/-- A loop with a closure, in which a deferred call prints a literal whose key is a length. -/
def measureBody : List Stmt :=
  [.range none (some (.ident ⟨2, "w"⟩)) true (.ident ⟨3, "words"⟩)
    [.assign [.ident ⟨4, "show"⟩] [.func [] [] [.defer (.call (.ident ⟨5, "print"⟩)
      [.composite none [.keyValue (.call (.ident ⟨6, "len"⟩) [.ident ⟨7, "w"⟩])
        (.ident ⟨8, "w"⟩)]])]] true]]

def measure : FuncDecl where
  name := ⟨0, "measure"⟩
  recv := none
  params := [⟨[⟨1, "words"⟩], .slice (.name none "string")⟩]
  results := []
  body := some measureBody

def measureFile : SourceFile where
  path := "main.go"
  package := "main"
  imports := [⟨none, "strings"⟩, ⟨some ".", "example.com/sizes"⟩]
  decls := [.func measure]

def reports : Package where
  name := "main"
  path := "example.com/reports"
  files := [measureFile]

/-- A length as the key of a literal in a closure. -/
theorem predeclared_call_target_key :
    reports.UniqueIds ∧ "len" ∉ reports.topNames ∧ "len" ∉ measure.introduces ∧
      measureFile.Avoids (Index.ofPackages [sizes, reports]) "len" ∧
      (⟨"main.measure.show", "len", .direct⟩ : Edge) ∈
        (measure.trace ((Index.ofPackages [sizes, reports]).check reports) "main").edges := by
  have hpaths : ([sizes, reports].map (·.path)).Nodup := by decide
  have hindex := Index.packages_ofPackages hpaths (List.mem_cons_of_mem _ List.mem_cons_self)
  have hids : reports.UniqueIds := by
    unfold Package.UniqueIds UniqueIds
    decide
  have htop : "len" ∉ reports.topNames := by decide
  have hcode : "len" ∉ measure.introduces := by decide
  have himports : measureFile.Avoids (Index.ofPackages [sizes, reports]) "len" := by
    constructor
    · intro spec hspec
      rcases List.mem_pair.mp hspec with rfl | rfl
      · decide
      · decide
    · intro spec hspec hdot
      rcases List.mem_pair.mp hspec with rfl | rfl
      · exact absurd hdot (by decide)
      · rfl
  let site : Point :=
    ⟨⟨"main", "main.measure.show", [("show", "main.measure.show")]⟩, ["words", "w"],
      .expr (.call (.ident ⟨6, "len"⟩) [.ident ⟨7, "w"⟩])⟩
  have hsite : (measure.root "main" measureBody).at? [0, 2, 0, 0, 0, 0, 1, 0, 0] = some site := rfl
  have hplain : ∀ front q, front <+: [0, 2, 0, 0, 0, 0, 1, 0, 0] →
      (measure.root "main" measureBody).at? front = some q → q.code.PlainRange := by
    intro front q hfront hq
    have hmem := (List.mem_inits _ _).mpr hfront
    simp only [List.inits, List.map_cons, List.map_nil, List.mem_cons, List.not_mem_nil,
      or_false] at hmem
    rcases hmem with rfl | rfl | rfl | rfl | rfl | rfl | rfl | rfl | rfl | rfl <;>
      obtain rfl := Option.some.inj hq
    -- The second point on the way is the loop.
    case inr.inl => simp [Code.PlainRange, Stmt.PlainRange, Expr.ident?]
    all_goals trivial
  have htarget := predeclared_call_target hindex hids (by decide) htop List.mem_cons_self himports
    List.mem_cons_self rfl hcode hsite hplain rfl rfl
  exact ⟨hids, htop, hcode, himports, htarget.2⟩

end GoCalls
