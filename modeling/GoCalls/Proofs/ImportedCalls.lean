import GoCalls.Proofs.CallSites
import GoCalls.Proofs.CheckedBodies
import GoCalls.Proofs.TopNames

/-!
# Calls of imported functions

A call `a.F(..)`, where a file imports a package as `a` and nothing else declares `a`, is named after
the package that is imported, whatever its local name and its path are.

* `Import.shortName`: the local name of an import.
* **`FileEnv.global?_of_import`**: a name that a package does not declare stands for the import.
* **`imported_call_target`**: the target of a call of an imported function.
-/

namespace GoCalls

/-! ## Imports -/

/-- The local name of an import, where `names` gives the names of known packages by their paths. -/
def Import.shortName (names : Std.TreeMap String String) (spec : Import) : Option String :=
  match spec.localName with
  | some "_" | some "." => none
  | some short => some short
  | none => some (names[spec.path]?.getD (importName spec.path))

/-- A file imports a package under a local name, and nothing else under this name. -/
def SourceFile.ImportsAs (names : Std.TreeMap String String) (file : SourceFile) (package : Package)
    (short : String) : Prop :=
  ∃ spec ∈ file.imports, spec.path = package.path ∧
    (spec.localName = some short ∧ short ≠ "_" ∧ short ≠ "." ∨
      spec.localName = none ∧ short = package.name) ∧
    ∀ other ∈ file.imports, other.shortName names = some short → other = spec

section Imports

variable {names : Std.TreeMap String String}

theorem Imports.named_add (imports : Imports) (spec : Import) (short : String) :
    (imports.add names spec).named[short]? =
      if spec.shortName names = some short then
        some ⟨names[spec.path]?.getD (importName spec.path), spec.path⟩
      else imports.named[short]? := by
  unfold Imports.add Import.shortName
  cases spec.localName with
  | none => simp [Std.TreeMap.getElem?_insert]
  | some l =>
    by_cases hblank : l = "_"
    · simp [hblank]
    · by_cases hdot : l = "."
      · simp [hdot]
      · simp [Std.TreeMap.getElem?_insert]

/-- An import is found under its local name. -/
theorem Imports.named_ofFile {file : SourceFile} {spec : Import} {short : String}
    (hspec : spec ∈ file.imports) (hshort : spec.shortName names = some short)
    (honly : ∀ other ∈ file.imports, other.shortName names = some short → other = spec) :
    (Imports.ofFile names file).named[short]? =
      some ⟨names[spec.path]?.getD (importName spec.path), spec.path⟩ := by
  obtain ⟨before, after, hsplit⟩ := List.append_of_mem hspec
  unfold Imports.ofFile
  rw [hsplit, List.foldl_append, List.foldl_cons]
  refine List.foldlRecOn
    (motive := fun imports : Imports => imports.named[short]? = some ⟨_, spec.path⟩) after _ ?_ ?_
  · rw [Imports.named_add, if_pos hshort]
  · intro imports hi other hother
    rw [Imports.named_add]
    split_ifs with h
    · rw [honly other (by simp [hsplit, hother]) h]
    · exact hi

theorem SourceFile.ImportsAs.named {file : SourceFile} {package : Package} {short : String}
    (h : file.ImportsAs names package short) (hname : names[package.path]? = some package.name) :
    (Imports.ofFile names file).named[short]? = some ⟨package.name, package.path⟩ := by
  obtain ⟨spec, hspec, hpath, hlocal, honly⟩ := h
  have hshort : spec.shortName names = some short := by
    unfold Import.shortName
    rcases hlocal with ⟨hlocal, hblank, hdot⟩ | ⟨hlocal, rfl⟩
    · rw [hlocal]
      simp
    · rw [hlocal, hpath, hname]
      rfl
  rw [Imports.named_ofFile hspec hshort honly, hpath, hname]
  rfl

end Imports

/-! ## Names of packages -/

/-- **A name that a package does not declare** stands for the import with it. -/
theorem FileEnv.global?_of_import {env : FileEnv} {name : String} {imported : Imported}
    (hlacks : env.decls.Lacks name) (hlocal : env.decls.localTypes[name]? = none)
    (himport : env.imports.named[name]? = some imported) :
    env.global? name =
      some ⟨name, some env.decls.name, .package imported.name imported.path, none⟩ := by
  have hcontains : env.decls.localTypes.contains name = false := by
    rw [Std.TreeMap.contains_eq_isSome_getElem?, hlocal]
    rfl
  unfold FileEnv.global?
  simp [hlacks.funcs, hlacks.values, hcontains, himport]

theorem tables_visitExpr_selector {env : FileEnv} {u : Visit} {i sel : Ident} {symbol : Symbol}
    {imported path : String} (hl : env.lookup u.scopes i.name = some symbol)
    (hkind : symbol.kind = .package imported path) (id : Nat) :
    ((visitExpr env (.selector id (.ident i) sel)).run u).2.tables =
      match env.index.member? path sel.name with
      | some member => (u.tables.recordUse i.id symbol).recordUse sel.id member
      | none => u.tables.recordUse i.id symbol := by
  have hpath : env.packagePath? u.scopes i.name = some path := by
    simp [FileEnv.packagePath?, hl, hkind]
  rw [visitExpr]
  simp only [Expr.ident?, Option.bind_some, StateT.run_bind, StateT.run_get, pure_bind, hpath,
    Option.map_some, hl, Visit.use]
  cases env.index.member? path sel.name with
  | none => rfl
  | some member => rfl

/-- Of a package operand no selection is recorded. -/
theorem visitExpr_selector_package {env : FileEnv} {u : Visit} {i sel : Ident} {symbol : Symbol}
    {imported path : String} (hl : env.lookup u.scopes i.name = some symbol)
    (hkind : symbol.kind = .package imported path) (hne : sel.id ≠ i.id) (id : Nat) :
    ((visitExpr env (.selector id (.ident i) sel)).run u).2.tables.selections =
        u.tables.selections ∧
      ((visitExpr env (.selector id (.ident i) sel)).run u).2.tables.uses[i.id]? = some symbol := by
  rw [tables_visitExpr_selector hl hkind]
  cases env.index.member? path sel.name with
  | none => exact ⟨rfl, Std.TreeMap.getElem?_insert_self⟩
  | some member =>
    refine ⟨rfl, ?_⟩
    simp only [Tables.recordUse]
    rw [Std.TreeMap.getElem?_insert, if_neg (by simpa using hne), Std.TreeMap.getElem?_insert_self]

theorem typedSelector?_of_package {tables : Tables} {id : Nat} {i sel : Ident} {symbol : Symbol}
    {imported path : String} (hnone : tables.selections[id]? = none)
    (huse : tables.uses[i.id]? = some symbol) (htype : symbol.type = none)
    (hkind : symbol.kind = .package imported path) :
    typedSelector? tables id (.ident i) sel = some (imported ++ "." ++ sel.name) := by
  simp [typedSelector?, hnone, Expr.ident?, huse, htype, Symbol.importedPackage, hkind]

/-! ## Calls -/

theorem Point.at?_callee {site : Point} {kind : Option CallKind} {fn : Expr}
    (h : site.code.call? = some (kind, fn)) :
    site.at? [0] = some ⟨site.ctx, site.locals, .expr fn⟩ := by
  obtain ⟨ctx, locals, code⟩ := site
  obtain ⟨args, rfl, rfl⟩ | ⟨k, args, rfl, rfl⟩ := Code.call?_cases h
  · simp [Point.at?, Point.parts, Code.parts, Expr.parts, pointsOf, Context.inside, Code.binders]
  · simp [Point.at?, Point.parts, Code.parts, Expr.parts, pointsOf, Context.inside, Code.binders]

/-- The callee of a call by the name of a package, where no scope declares the name. -/
theorem callee?_of_package {index : Index} {package : Package} {decls : Declarations}
    (hd : index.packages[package.path]? = some decls) (hids : package.UniqueIds) {file : SourceFile}
    {func : FuncDecl} {body : List Stmt} (hfunc : (file, .func func) ∈ package.decls)
    (hbody : func.body = some body)
    {path : List Nat} {site : Point} (hsite : (func.root package.name body).at? path = some site)
    (hplain : ∀ front q, front <+: path → (func.root package.name body).at? front = some q →
      q.code.PlainRange)
    {kind : Option CallKind} {id : Nat} {i sel : Ident}
    (hcall : site.code.call? = some (kind, .selector id (.ident i) sel))
    (hlocal : i.name ∉ site.locals) {symbol : Symbol} {imported importPath : String}
    (hglobal : ∀ inferred, (index.fileEnv decls inferred file).global? i.name = some symbol)
    (htype : symbol.type = none) (hkind : symbol.kind = .package imported importPath)
    (ctx : Context) :
    callee? (some (index.check package)) ctx (.selector id (.ident i) sel) =
      some ⟨imported ++ "." ++ sel.name, false⟩ := by
  let q : Point := ⟨site.ctx, site.locals, .expr (.selector id (.ident i) sel)⟩
  have hmarks := hids.of_body hfunc hbody
  have hq : (func.root package.name body).at? (path ++ [0]) = some q := by
    rw [Point.at?_append, hsite]
    exact Point.at?_callee hcall
  have hplain' : ∀ front r, front <+: path ++ [0] → (func.root package.name body).at? front = some r →
      r.code.PlainRange := by
    intro front r hfront hr
    rcases List.prefix_concat_iff.mp hfront with rfl | hfront
    · obtain rfl := Option.some.inj (hq.symm.trans hr)
      trivial
    · exact hplain front r hfront hr
  have hpass (env : FileEnv) : Passes env (stmtsMarks body) [] (visitFunc env func body) q :=
    visitFunc_passes_of_at? hq (fun h => h) hplain' hmarks
  obtain ⟨inferred, u, hcovers, hempty, hagree⟩ :=
    Index.check_passes hd hids hfunc hbody hpass
  -- The name is looked up past all scopes, and what it stands for is recorded.
  have hentry : i.name ∉ q.entry := by simpa [q, Point.entry, Code.binders] using hlocal
  have hlookup := (hcovers.lookup hentry _).trans (hglobal inferred)
  have hunique : UniqueIds ([i.mark] ++ [⟨id, sel.name, .selector⟩, ⟨sel.id, sel.name, .member⟩]) :=
    hmarks.sublist (hpass (index.fileEnv decls inferred file)).sub
  have hne : sel.id ≠ i.id := hunique.apart.symm ⟨sel.id, sel.name, .member⟩ (by simp) i.mark (by simp)
  obtain ⟨hselections, huses⟩ := visitExpr_selector_package hlookup hkind hne id
  have hmem : i.mark ∈ q.code.marks := List.mem_append_left _ List.mem_cons_self
  have hmem' : ⟨id, sel.name, .selector⟩ ∈ q.code.marks := List.mem_append_right _ List.mem_cons_self
  have huse : (index.check package).uses[i.id]? = some symbol := (hagree _ hmem).1.trans huses
  have hselection : (index.check package).selections[id]? = none :=
    calc (index.check package).selections[id]?
        = ((visitExpr _ (.selector id (.ident i) sel)).run u).2.tables.selections[id]? :=
          (hagree _ hmem').2
      _ = u.tables.selections[id]? := by rw [hselections]
      _ = none := (hempty _ hmem').2.trans (by simp)
  rw [callee?, Option.bind_some, typedSelector?_of_package hselection huse htype hkind]
  rfl

theorem FuncDecl.qualifiedName_ne_empty (func : FuncDecl) (package : String) :
    func.qualifiedName package ≠ "" := by
  unfold FuncDecl.qualifiedName
  split
  · simp
  · simp

theorem FuncDecl.edges_trace {func : FuncDecl} {body : List Stmt} (hbody : func.body = some body)
    (tables : Tables) (package : String) : (func.trace tables package).edges =
      (func.root package body).walk.flatMap fun site => (site.2.own (some tables)).edges := by
  rw [← Point.edges_trace, FuncDecl.trace, hbody]
  rfl

theorem global?_of_importsAs {packages : List Package} (hpaths : (packages.map (·.path)).Nodup)
    {P Q : Package} (hQ : Q ∈ packages) {file : SourceFile} {short : String}
    (himport : file.ImportsAs (Index.ofPackages packages).names Q short) (htop : short ∉ P.topNames)
    (inferred : Std.TreeMap String Ty) :
    ((Index.ofPackages packages).fileEnv
        (Declarations.ofPackage (Index.ofPackages packages).names P) inferred file).global? short =
      some ⟨short, some (Declarations.ofPackage (Index.ofPackages packages).names P).name,
        .package Q.name Q.path, none⟩ := by
  have hlacks := Declarations.ofPackage_lacks (Index.ofPackages packages).names htop
  have hnamed := himport.named (Index.names_ofPackages hpaths hQ)
  exact @FileEnv.global?_of_import (Index.fileEnv _ _ inferred file) short _ hlacks.1 hlacks.2 hnamed

/-- **A call of an imported function has the package as its target**, wherever the local name is not
declared otherwise. -/
theorem imported_call_target {packages : List Package} (hpaths : (packages.map (·.path)).Nodup)
    {P Q : Package} (hP : P ∈ packages) (hQ : Q ∈ packages) (hids : P.UniqueIds) {file : SourceFile}
    (hfile : file ∈ P.files) {short : String}
    (himport : file.ImportsAs (Index.ofPackages packages).names Q short) (htop : short ∉ P.topNames)
    {func : FuncDecl} {body : List Stmt} (hfunc : .func func ∈ file.decls)
    (hbody : func.body = some body)
    {path : List Nat} {site : Point} (hsite : (func.root P.name body).at? path = some site)
    (hplain : ∀ front q, front <+: path → (func.root P.name body).at? front = some q →
      q.code.PlainRange)
    {kind : Option CallKind} {id : Nat} {i sel : Ident}
    (hcall : site.code.call? = some (kind, .selector id (.ident i) sel)) (hname : i.name = short)
    (hlocal : short ∉ site.locals) :
    let tables := (Index.ofPackages packages).check P
    let edge : Edge := ⟨site.ctx.scope, Q.name ++ "." ++ sel.name, kind.getD .direct⟩
    (site.own (some tables)).edges = [edge] ∧ edge ∈ (func.trace tables P.name).edges ∧
      ∀ callee ∈ Q.funcs, callee.recv.bind Receiver.typeName = none →
        callee.name.name = sel.name → callee.qualifiedName Q.name = edge.target := by
  intro tables edge
  subst hname
  have hcallee := callee?_of_package (Index.packages_ofPackages hpaths hP) hids
    (Package.mem_decls.mpr ⟨hfile, hfunc⟩) hbody hsite hplain hcall hlocal
    (global?_of_importsAs hpaths hQ himport htop) rfl rfl site.ctx
  have hscope : site.ctx.scope ≠ "" :=
    Point.scope_ne_empty_of_at? (func.qualifiedName_ne_empty P.name) hsite
  have hown : (site.own (some tables)).edges = [edge] := by
    simp [Point.own, hcall, callEdges, hcallee, hscope, tables, edge]
  refine ⟨hown, ?_, ?_⟩
  · rw [FuncDecl.edges_trace hbody]
    refine List.mem_flatMap.mpr ⟨(path, site), Point.mem_walk.mpr hsite, ?_⟩
    rw [hown]
    exact List.mem_singleton_self edge
  · intro callee _ hrecv hsame
    rw [FuncDecl.qualifiedName, hrecv, hsame]

/-- A package whose name is not the end of its path. -/
def store : Package where
  name := "store"
  path := "example.com/kv-store"
  files := [{ path := "store.go", package := "store", imports := [], decls := [
    .func { name := ⟨0, "Open"⟩, recv := none, params := [], results := [], body := some [] }] }]

/-- A block with a variable that has the local name of `store`, then a closure that starts a function
of `store`. -/
def clientBody : List Stmt :=
  [.block [.assign [.ident ⟨2, "s"⟩] [.ident ⟨3, "n"⟩] true],
    .assign [.ident ⟨4, "start"⟩] [.func [⟨[⟨5, "k"⟩], .name none "int"⟩] []
      [.go (.call (.selector 6 (.ident ⟨7, "s"⟩) ⟨8, "Open"⟩) [.ident ⟨9, "k"⟩])]] true]

def clientMain : FuncDecl where
  name := ⟨0, "main"⟩
  recv := none
  params := [⟨[⟨1, "n"⟩], .name none "int"⟩]
  results := []
  body := some clientBody

def clientFile : SourceFile where
  path := "main.go"
  package := "main"
  imports := [⟨some "s", "example.com/kv-store"⟩]
  decls := [.func clientMain]

def client : Package where
  name := "main"
  path := "example.com/client"
  files := [clientFile]

/-- An imported function is started in a closure. -/
theorem imported_call_target_closure :
    client.UniqueIds ∧ ([store, client].map (·.path)).Nodup ∧ "s" ∉ client.topNames ∧
      (⟨"main.main.start", "store.Open", .go⟩ : Edge) ∈
        (clientMain.trace ((Index.ofPackages [store, client]).check client) "main").edges := by
  have hids : client.UniqueIds := by
    unfold Package.UniqueIds UniqueIds
    decide
  have hpaths : ([store, client].map (·.path)).Nodup := by decide
  have htop : "s" ∉ client.topNames := by decide
  have himport : clientFile.ImportsAs (Index.ofPackages [store, client]).names store "s" := by
    refine ⟨_, List.mem_cons_self, rfl, .inl ⟨rfl, by decide, by decide⟩, ?_⟩
    intro other hother _
    exact List.mem_singleton.mp hother
  let site : Point :=
    ⟨⟨"main", "main.main.start", [("start", "main.main.start")]⟩, ["n", "k"],
      .operand .go (.call (.selector 6 (.ident ⟨7, "s"⟩) ⟨8, "Open"⟩) [.ident ⟨9, "k"⟩])⟩
  have hsite : (clientMain.root "main" clientBody).at? [1, 0, 0, 0] = some site := rfl
  have hplain : ∀ front q, front <+: [1, 0, 0, 0] →
      (clientMain.root "main" clientBody).at? front = some q → q.code.PlainRange := by
    intro front q hfront hq
    simp only [List.prefix_cons_iff, List.prefix_nil] at hfront
    rcases hfront with rfl | ⟨_, rfl, rfl | ⟨_, rfl, rfl | ⟨_, rfl, rfl | ⟨_, rfl, rfl⟩⟩⟩⟩ <;>
      (obtain rfl := Option.some.inj hq; trivial)
  have htarget := imported_call_target hpaths (List.mem_cons_of_mem _ List.mem_cons_self)
    List.mem_cons_self hids List.mem_cons_self himport htop List.mem_cons_self rfl hsite hplain rfl rfl
    (by decide)
  exact ⟨hids, hpaths, htop, htarget.2.1⟩

end GoCalls
