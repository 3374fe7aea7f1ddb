import GoCalls.Calls.Callee
import GoCalls.Calls.Scan
import GoCalls.Proofs.DeclarationOrder
import GoCalls.Proofs.ReachableDeclarations
import GoCalls.Proofs.SyntaxNodes

/-!
# Calls by plain names

A plain name can stand for a function of the package itself, or for one of a package whose members
are imported with a dot. The tables know the owner of the function. The callee has the package of the
call in its name, so it is the node of the function exactly if the two packages have one name.

* `Package.DotImports`, `Package.HasPlainCall`: imports with a dot, and calls by plain names.
* `Symbol.DeclaredBy`: a package that declares the function of a symbol.
* `Symbol.Placed`, **`Index.check_placed`**: the owners of the functions that names stand for.
* **`plain_call_callee`**: the callee of a call by a plain name, and the node of the function.
-/

namespace GoCalls

/-- A file of the package imports the members of another one with a dot. -/
def Package.DotImports (package : Package) (path : String) : Prop :=
  ∃ file ∈ package.files, ⟨some ".", path⟩ ∈ file.imports

/-- Somewhere in the package, an identifier is called. -/
def Package.HasPlainCall (package : Package) (i : Ident) : Prop :=
  ∃ file ∈ package.files, ∃ path args, file.IsPath path ∧ .expr (.call (.ident i) args) ∈ path

theorem Package.HasPlainCall.mark_mem {package : Package} {i : Ident}
    (h : package.HasPlainCall i) : i.mark ∈ package.marks := by
  obtain ⟨file, hfile, path, args, hpath, hcall⟩ := h
  have hmark : i.mark ∈ (SyntaxNode.expr (.call (.ident i) args)).marks := by
    simp [SyntaxNode.marks, Expr.marks]
  exact List.mem_flatMap.mpr ⟨file, hfile, hpath.marks_subset _ hcall hmark⟩

/-- A package declares the function that a symbol stands for, which is no method. -/
structure Symbol.DeclaredBy (symbol : Symbol) (name : String) (owner : Package) : Prop where
  package : symbol.package = some owner.name
  func : ∃ func ∈ owner.funcs, func.recv.bind Receiver.typeName = none ∧ func.name.name = name

/-! ## Declared functions -/

section Declared

variable {names : Std.TreeMap String String} {package : Package} {name : String}

theorem Declarations.exists_func {t : Ty} (h : (ofPackage names package).funcs[name]? = some t) :
    ∃ func ∈ package.funcs, func.recv.bind Receiver.typeName = none ∧ func.name.name = name := by
  rw [collects_funcs.ofPackage] at h
  obtain ⟨file, hfile, hentry⟩ := List.mem_flatMap.mp (mem_of_addEntries h)
  obtain ⟨d, hd, hentry⟩ := List.mem_filterMap.mp hentry
  unfold funcItem? at hentry
  split at hentry
  · rename_i func
    split at hentry
    · cases hentry
    · rename_i hrecv
      obtain ⟨rfl, -⟩ := Prod.mk.inj (Option.some.inj hentry)
      have hfunc : func ∈ package.funcs :=
        List.mem_flatMap.mpr ⟨file, hfile, List.mem_filterMap.mpr ⟨_, hd, rfl⟩⟩
      exact ⟨func, hfunc, hrecv, rfl⟩
  · cases hentry

theorem Declarations.kind_of_mem_valueEntries {env : TypeEnv} {last : Option Ty} {ds : List Decl}
    {entry : String × SymbolKind × Option Ty} (h : entry ∈ valueEntries env last ds) :
    entry.2.1 = .var ∨ entry.2.1 = .const := by
  fun_induction valueEntries env last ds with
  | case1 => cases h
  | case2 last ids t values rest ih =>
    rcases List.mem_append.mp h with h | h
    · obtain ⟨i, -, rfl⟩ := List.mem_map.mp h
      exact .inl rfl
    · exact ih h
  | case3 last ids t values rest ih =>
    rcases List.mem_append.mp h with h | h
    · obtain ⟨i, -, rfl⟩ := List.mem_map.mp h
      exact .inr rfl
    · exact ih h
  | case4 last d rest ih => exact ih h
  | case5 last d rest ih => exact ih h

theorem Declarations.ne_func_of_values {value : SymbolKind × Option Ty}
    (h : (ofPackage names package).values[name]? = some value) : value.1 ≠ .func := by
  rw [collects_values.ofPackage] at h
  obtain ⟨file, -, hentry⟩ := List.mem_flatMap.mp (mem_of_addEntries h)
  have hkind : value.1 = .var ∨ value.1 = .const := kind_of_mem_valueEntries hentry
  rcases hkind with hkind | hkind <;> rw [hkind] <;> exact SymbolKind.noConfusion

end Declared

/-! ## Owners -/

/-- The owner of a function is the package itself, or one that it imports with a dot. -/
def Symbol.Placed (packages : List Package) (package : Package) (kind : MarkKind) (name : String)
    (symbol : Symbol) : Prop :=
  kind = .name → symbol.kind = .func →
    ∃ owner ∈ packages, (owner = package ∨ package.DotImports owner.path) ∧
      symbol.DeclaredBy name owner

section Owners

variable {packages : List Package} {package : Package} {name : String} {symbol : Symbol}

theorem Symbol.placed_of_ne {kind : MarkKind} (h : symbol.kind ≠ .func) :
    symbol.Placed packages package kind name := fun _ hfunc => absurd hfunc h

theorem Universe.placed (h : Universe.symbol? name = some symbol) :
    symbol.Placed packages package .name name := by
  refine Symbol.placed_of_ne ?_
  unfold Universe.symbol? at h
  split_ifs at h
  case neg =>
    obtain ⟨t, -, rfl⟩ := Option.map_eq_some_iff.mp h
    exact SymbolKind.noConfusion
  all_goals
    obtain rfl := Option.some.inj h
    exact SymbolKind.noConfusion

theorem Index.member?_placed {path : String} (hpath : package.DotImports path)
    (h : (Index.ofPackages packages).member? path name = some symbol) :
    symbol.Placed packages package .name name := by
  obtain ⟨decls, hdecls, h⟩ := Option.bind_eq_some_iff.mp h
  obtain ⟨owner, howner, rfl, rfl⟩ := Index.exists_of_packages hdecls
  dsimp only at h
  split at h
  · rename_i t hfunc
    obtain rfl := Option.some.inj h
    exact fun _ _ => ⟨owner, howner, .inr hpath, congrArg some Declarations.name_ofPackage,
      Declarations.exists_func hfunc⟩
  · obtain rfl := Option.some.inj h
    exact Symbol.placed_of_ne SymbolKind.noConfusion
  · split_ifs at h
    · obtain rfl := Option.some.inj h
      exact Symbol.placed_of_ne SymbolKind.noConfusion
    · obtain ⟨⟨kind, t⟩, hvalue, h⟩ := Option.bind_eq_some_iff.mp h
      obtain rfl := Option.some.inj h
      exact Symbol.placed_of_ne (Declarations.ne_func_of_values hvalue)

variable (hpackage : package ∈ packages)

include hpackage

/-- What a name stands for past all scopes. -/
theorem FileEnv.global?_placed {file : SourceFile} (hfile : file ∈ package.files)
    {inferred : Std.TreeMap String Ty}
    (h : ((Index.ofPackages packages).fileEnv
      (Declarations.ofPackage (Index.ofPackages packages).names package) inferred file).global?
        name = some symbol) : symbol.Placed packages package .name name := by
  unfold FileEnv.global? at h
  dsimp only at h
  split at h
  · rename_i t hfunc
    obtain rfl := Option.some.inj h
    exact fun _ _ => ⟨package, hpackage, .inl rfl, congrArg some Declarations.name_ofPackage,
      Declarations.exists_func hfunc⟩
  split_ifs at h
  · obtain rfl := Option.some.inj h
    exact Symbol.placed_of_ne SymbolKind.noConfusion
  split at h
  · rename_i kind t hvalue
    obtain rfl := Option.some.inj h
    exact Symbol.placed_of_ne (Declarations.ne_func_of_values hvalue)
  split at h
  · obtain rfl := Option.some.inj h
    exact Symbol.placed_of_ne SymbolKind.noConfusion
  rw [Option.orElse_eq_orElse, Option.orElse_eq_or, Option.or_eq_some_iff] at h
  rcases h with hdot | ⟨-, huniverse⟩
  · obtain ⟨path, hpath, hmember⟩ := List.exists_of_findSome?_eq_some hdot
    obtain ⟨⟨_, _⟩, hspec, rfl, rfl⟩ := Imports.mem_dotted_ofFile hpath
    exact Index.member?_placed ⟨file, hfile, hspec⟩ hmember
  · exact Universe.placed huniverse

variable (hpaths : (packages.map (·.path)).Nodup)

include hpaths

/-- **The owner of each function** in the tables of a package. -/
theorem Index.check_placed : ({} : Tables).Grows (fun _ => True) (Symbol.Placed packages package)
    package.marks ((Index.ofPackages packages).check package) := by
  refine Index.check_grows_of_files fun decls hdecls inferred _ file hfile => ?_
  obtain rfl := Option.some.inj ((Index.packages_ofPackages hpaths hpackage).symm.trans hdecls)
  exact {
    closed := by constructor <;> simp
    known := fun _ _ _ => trivial
    var := fun _ => Symbol.placed_of_ne SymbolKind.noConfusion
    global := FileEnv.global?_placed hpackage hfile
    member := fun _ _ _ hkind => MarkKind.noConfusion hkind
    resolve := fun _ _ _ => trivial
    memberType := fun _ _ _ _ => trivial
    underlying := fun _ => trivial }

end Owners

/-! ## Callees -/

theorem Symbol.DeclaredBy.exists_node {symbol : Symbol} {name : String} {owner : Package}
    (h : symbol.DeclaredBy name owner) :
    ∃ func ∈ owner.funcs, func.qualifiedName owner.name = owner.name ++ "." ++ name := by
  obtain ⟨func, hfunc, hrecv, rfl⟩ := h.func
  refine ⟨func, hfunc, ?_⟩
  unfold FuncDecl.qualifiedName
  rw [hrecv]

/-- **The callee of a call by a plain name** is the node of the function only where its owner has
the name of the package. -/
theorem plain_call_callee {packages : List Package} (hpaths : (packages.map (·.path)).Nodup)
    {package : Package} (hpackage : package ∈ packages) (hids : package.UniqueIds) {i : Ident}
    (hi : package.HasPlainCall i) {symbol : Symbol}
    (huse : ((Index.ofPackages packages).check package).uses[i.id]? = some symbol)
    (hkind : symbol.kind = .func) {ctx : Context} (hctx : ctx.package = package.name)
    (hbound : ctx.lookup i.name = none) :
    let tables := (Index.ofPackages packages).check package
    let name := package.name ++ "." ++ i.name
    callee? (some tables) ctx (.ident i) = some ⟨name, false⟩ ∧
    (∃ owner ∈ packages, (owner = package ∨ package.DotImports owner.path) ∧
      symbol.DeclaredBy i.name owner) ∧
    ∀ owner, symbol.DeclaredBy i.name owner →
      ∃ func ∈ owner.funcs, func.qualifiedName owner.name = owner.name ++ "." ++ i.name ∧
        (name = func.qualifiedName owner.name ↔ owner.name = package.name) := by
  intro tables name
  obtain ⟨kind, written, -, hmark, hplaced⟩ := (Index.check_placed hpackage hpaths).of_use huse
  -- The number belongs to the identifier that is called, and not to one that a selector picks.
  obtain ⟨-, rfl, rfl⟩ := Mark.mk.inj (hids.eq hi.mark_mem hmark rfl)
  obtain ⟨owner, howner, hwhere, hdeclared⟩ := hplaced rfl hkind
  refine ⟨?_, ⟨owner, howner, hwhere, hdeclared⟩, fun owner' hdeclared' => ?_⟩
  · obtain ⟨_, symbolPackage, _, _⟩ := symbol
    obtain rfl : symbolPackage = some owner.name := hdeclared.package
    simp [callee?, calleeOfIdent, hbound, tables, huse, hctx, name]
  · obtain ⟨func, hfunc, hnode⟩ := hdeclared'.exists_node
    refine ⟨func, hfunc, hnode, ?_⟩
    rw [hnode, String.append_left_inj, String.append_left_inj]
    exact eq_comm

/-- A package with a function. -/
def runLibrary : Package where
  name := "lib"
  path := "m/lib"
  files := [{ path := "lib.go", package := "lib", imports := [], decls := [
    .func ⟨⟨0, "Run"⟩, none, [], [], some []⟩] }]

/-- A package that imports the members of the other, and calls its function by its plain name. -/
def runClient : Package where
  name := "app"
  path := "m/app"
  files := [{ path := "app.go", package := "app", imports := [⟨some ".", "m/lib"⟩], decls := [
    .func ⟨⟨0, "Use"⟩, none, [], [], some [.expr (.call (.ident ⟨1, "Run"⟩) [])]⟩] }]

/-- The function is one of the library. -/
theorem uses_runClient : ((Index.ofPackages [runLibrary, runClient]).check runClient).uses[1]? =
    some ⟨"Run", some "lib", .func, some (.func [])⟩ := rfl

theorem uniqueIds_runClient : runClient.UniqueIds := by
  unfold Package.UniqueIds UniqueIds
  decide

theorem hasPlainCall_runClient : runClient.HasPlainCall ⟨1, "Run"⟩ := by
  refine ⟨_, List.mem_singleton_self _, [.stmt (.expr (.call (.ident ⟨1, "Run"⟩) [])),
    .expr (.call (.ident ⟨1, "Run"⟩) [])], [], ⟨?_, ?_⟩, by simp⟩
  · rintro _ ⟨⟩
    exact List.mem_singleton_self _
  · exact List.isChain_pair.mpr (List.mem_singleton_self _)

/-- The callee is in the client, and is no function of the library. -/
theorem plain_call_callee_client :
    let tables := (Index.ofPackages [runLibrary, runClient]).check runClient
    let ctx : Context := { package := "app", scope := "app.Use" }
    callee? (some tables) ctx (.ident ⟨1, "Run"⟩) = some ⟨"app.Run", false⟩ ∧
      ∃ func ∈ runLibrary.funcs, func.qualifiedName "lib" = "lib.Run" ∧
        ("app.Run" = func.qualifiedName "lib" ↔ "lib" = "app") := by
  intro tables ctx
  have hpaths : ([runLibrary, runClient].map (·.path)).Nodup := by decide
  have hmem : runClient ∈ [runLibrary, runClient] := List.mem_cons_of_mem _ List.mem_cons_self
  have hctx : ctx.package = runClient.name := rfl
  obtain ⟨hcallee, -, hnodes⟩ := plain_call_callee hpaths hmem uniqueIds_runClient
    hasPlainCall_runClient uses_runClient rfl hctx rfl
  refine ⟨hcallee, hnodes runLibrary ⟨rfl, ?_⟩⟩
  exact ⟨⟨⟨0, "Run"⟩, none, [], [], some []⟩, List.mem_cons_self, rfl, rfl⟩

/-- A call of a dot-imported function misses the node. -/
theorem plain_call_misses_node :
    ¬ ∀ (packages : List Package) (package : Package), (packages.map (·.path)).Nodup →
      package ∈ packages → package.UniqueIds → ∀ (i : Ident) (symbol : Symbol) (ctx : Context),
      package.HasPlainCall i →
      ((Index.ofPackages packages).check package).uses[i.id]? = some symbol →
      symbol.kind = .func → ctx.package = package.name → ctx.lookup i.name = none →
      ∀ owner ∈ packages, (owner = package ∨ package.DotImports owner.path) →
        symbol.DeclaredBy i.name owner →
        callee? (some ((Index.ofPackages packages).check package)) ctx (.ident i) =
          some ⟨owner.name ++ "." ++ i.name, false⟩ := by
  intro h
  have hcallee := h [runLibrary, runClient] runClient (by decide)
    (List.mem_cons_of_mem _ List.mem_cons_self) uniqueIds_runClient ⟨1, "Run"⟩ _
    { package := "app", scope := "app.Use" } hasPlainCall_runClient uses_runClient rfl rfl rfl
    runLibrary List.mem_cons_self (.inr ⟨_, List.mem_singleton_self _, List.mem_singleton_self _⟩)
    ⟨rfl, ⟨⟨0, "Run"⟩, none, [], [], some []⟩, List.mem_cons_self, rfl, rfl⟩
  have hname : "app.Run" = "lib.Run" := congrArg Callee.name (Option.some.inj hcallee)
  exact absurd hname (by decide)

end GoCalls
