import GoCalls.Proofs.IndexAgreement
import GoCalls.Proofs.MethodNames
import GoCalls.Project.Load

/-!
# Declarations within reach

The types of a package mention those of others by their paths alone, and a look at a member can lead
from package to package. All paths that occur in a type stay within the imports of the package, and
within those of the packages that are reached this way. So nothing else in the index matters for the
tables of the package.

* `Reaches`: the paths that a package reaches by imports.
* `Package.SameUpToBodies`: two packages declare the same.
* `SameAt`: two lists of packages hold the same under a path.
* **`Index.packages_of_sameAt`**: the same declarations come of them.
* **`check_of_reachable_declarations`**: the tables of a package depend on what it reaches.
-/

namespace GoCalls

/-! ## Function bodies -/

/-- The file without function bodies. -/
def SourceFile.dropBodies (file : SourceFile) : SourceFile :=
  { file with decls := file.decls.map Decl.dropBody }

/-- The package without function bodies. -/
def Package.dropBodies (package : Package) : Package :=
  { package with files := package.files.map SourceFile.dropBodies }

/-- Two packages declare the same, under one name and path; only function bodies may differ. -/
structure Package.SameUpToBodies (p q : Package) : Prop where
  name : p.name = q.name
  path : p.path = q.path
  files : p.files.map SourceFile.dropBodies = q.files.map SourceFile.dropBodies

theorem Package.SameUpToBodies.refl (p : Package) : p.SameUpToBodies p := ⟨rfl, rfl, rfl⟩

theorem Decl.dropBody_type (d : TypeDecl) : (Decl.type d).dropBody = .type d := rfl

theorem Decl.dropBody_dropBody (d : Decl) : d.dropBody.dropBody = d.dropBody := by
  cases d <;> rfl

theorem Package.sameUpToBodies_dropBodies (p : Package) : p.SameUpToBodies p.dropBodies := by
  refine ⟨rfl, rfl, ?_⟩
  simp [Package.dropBodies, SourceFile.dropBodies, Decl.dropBody_dropBody, Function.comp_def]

section Bodies

variable (names : Std.TreeMap String String)

theorem localTypesOf_dropBody (known : Std.TreeMap String (Option TypeExpr)) (ds : List Decl) :
    localTypesOf known (ds.map Decl.dropBody) = localTypesOf known ds := by
  unfold localTypesOf
  rw [List.foldl_map]
  refine List.foldl_ext _ _ _ fun known d _ => ?_
  cases d <;> rfl

theorem addDecls_dropBody (env : TypeEnv) (last : Option Ty) (decls : Declarations)
    (ds : List Decl) : Declarations.addDecls env last decls (ds.map Decl.dropBody) =
      Declarations.addDecls env last decls ds := by
  fun_induction Declarations.addDecls env last decls ds with
  | case1 => rfl
  | case2 last decls d rest halias target ht ih =>
    rw [List.map_cons, Decl.dropBody_type, Declarations.addDecls, if_pos halias, ht]
    exact ih
  | case3 last decls d rest halias ht ih =>
    rw [List.map_cons, Decl.dropBody_type, Declarations.addDecls, if_pos halias, ht]
    exact ih
  | case4 last decls d rest halias ih =>
    rw [List.map_cons, Decl.dropBody_type, Declarations.addDecls, if_neg halias]
    exact ih
  | case5 last decls d rest ih => exact ih
  | case6 last decls names t values rest ih => exact ih
  | case7 last decls names t values rest type ih => exact ih

/-- Function bodies play no part in declarations. -/
theorem Declarations.ofPackage_dropBodies (package : Package) :
    ofPackage names package.dropBodies = ofPackage names package := by
  have hlocal : (package.files.map SourceFile.dropBodies).foldl
        (fun known file => localTypesOf known file.decls) (∅ : Std.TreeMap String (Option TypeExpr)) =
      package.files.foldl (fun known file => localTypesOf known file.decls) ∅ := by
    rw [List.foldl_map]
    exact List.foldl_ext _ _ _ fun known file _ => localTypesOf_dropBody known file.decls
  unfold ofPackage Package.dropBodies
  simp only [hlocal]
  rw [List.foldl_map]
  exact List.foldl_ext _ _ _ fun decls file _ => addDecls_dropBody _ none decls file.decls

theorem Package.SameUpToBodies.ofPackage_eq {p q : Package} (h : p.SameUpToBodies q) :
    Declarations.ofPackage names p = Declarations.ofPackage names q := by
  rw [← Declarations.ofPackage_dropBodies names p, ← Declarations.ofPackage_dropBodies names q]
  unfold Declarations.ofPackage Package.dropBodies
  rw [h.name, h.path, h.files]

end Bodies

/-! ## Names of imports -/

section Names

variable {names other : Std.TreeMap String String}

theorem Imports.ofFile_congr {file : SourceFile}
    (h : ∀ spec ∈ file.imports, other[spec.path]? = names[spec.path]?) :
    Imports.ofFile other file = Imports.ofFile names file := by
  unfold Imports.ofFile
  refine List.foldl_ext _ _ _ fun imports spec hspec => ?_
  unfold Imports.add
  rw [h spec hspec]

theorem Declarations.ofPackage_congr {package : Package}
    (h : ∀ file ∈ package.files, Imports.ofFile other file = Imports.ofFile names file) :
    ofPackage other package = ofPackage names package := by
  unfold ofPackage
  refine List.foldl_ext _ _ _ fun decls file hfile => ?_
  unfold Declarations.typeEnv
  rw [h file hfile]

end Names

/-! ## Reachable paths -/

/-- The paths that a package imports. -/
def Package.importPaths (package : Package) : List String :=
  package.files.flatMap fun file => file.imports.map (·.path)

theorem Package.mem_importPaths {package : Package} {file : SourceFile}
    (hfile : file ∈ package.files) {spec : Import} (hspec : spec ∈ file.imports) :
    spec.path ∈ package.importPaths :=
  List.mem_flatMap.mpr ⟨file, hfile, List.mem_map_of_mem hspec⟩

/-- The paths that a package reaches by imports, its own first. -/
inductive Reaches (packages : List Package) (package : Package) : String → Prop
  | direct {path : String} : path ∈ package.importPaths → Reaches packages package path
  | step {p : Package} {path : String} : p ∈ packages → Reaches packages package p.path →
    path ∈ p.importPaths → Reaches packages package path

/-- The path of a package, and those that it reaches. -/
def InReach (packages : List Package) (package : Package) (path : String) : Prop :=
  path = package.path ∨ Reaches packages package path

/-- The declared types that occur in a type are within reach of a package. -/
def Ty.Within (packages : List Package) (package : Package) (t : Ty) : Prop :=
  ∀ label path name, (Ty.named label (some path) name).Occurs t →
    InReach packages package path

theorem Ty.within_closed (packages : List Package) (package : Package) :
    Ty.Closed (Ty.Within packages package) :=
  Ty.occurs_closed fun _ path => InReach packages package path

theorem Ty.within_declared {packages : List Package} {package : Package} {label path name : String} :
    (Ty.declared label path name).Within packages package ↔ InReach packages package path := by
  constructor
  · intro h
    exact h _ _ _ .here
  · intro h label' path' name' ho
    cases ho
    exact h

section Reach

variable {packages : List Package} (hpaths : (packages.map (·.path)).Nodup) {package : Package}
  (hpackage : package ∈ packages)

include hpaths hpackage

/-- What is imported within reach is within reach. -/
theorem InReach.imports {p : Package} (hp : p ∈ packages) (h : InReach packages package p.path)
    {path : String} (hpath : path ∈ p.importPaths) : InReach packages package path := by
  rcases h with hsame | hreach
  · obtain rfl := List.inj_on_of_nodup_map hpaths hp hpackage hsame
    exact .inr (.direct hpath)
  · exact .inr (.step hp hreach hpath)

theorem importsTyped_of_within {p : Package} (hp : p ∈ packages)
    (h : InReach packages package p.path) {file : SourceFile} (hfile : file ∈ p.files)
    (names : Std.TreeMap String String) :
    file.ImportsTyped (Ty.Within packages package) names := fun _ hspec _ =>
  Ty.within_declared.mpr (InReach.imports hpaths hpackage hp h (Package.mem_importPaths hfile hspec))

/-- **All types of declarations within reach** are within reach. -/
theorem Index.typed_within : (Index.ofPackages packages).Typed (Ty.Within packages package) := by
  refine Index.ofPackages_typed (Ty.within_closed packages package) fun p hp label name ht => ?_
  have hwithin : InReach packages package p.path := ht label p.path name .here
  refine ⟨fun file hfile => importsTyped_of_within hpaths hpackage hp hwithin hfile _, fun name => ?_⟩
  exact Ty.within_declared.mpr hwithin

end Reach

/-! ## Packages under a path -/

/-- Under a path, two lists of packages hold either no package or one package up to function
bodies. -/
def SameAt (packages others : List Package) (path : String) : Prop :=
  path ∉ packages.map (·.path) ∧ path ∉ others.map (·.path) ∨
    ∃ p ∈ packages, ∃ q ∈ others, p.path = path ∧ p.SameUpToBodies q

section Index

variable {packages others : List Package}

theorem Index.names_of_notMem {path : String} (h : path ∉ packages.map (·.path)) :
    (Index.ofPackages packages).names[path]? = none :=
  (getElem?_foldl_insert_of_notMem (·.path) (·.name) packages h ∅).trans Std.TreeMap.getElem?_emptyc

theorem Index.packages_of_notMem {path : String} (h : path ∉ packages.map (·.path)) :
    (Index.ofPackages packages).packages[path]? = none :=
  (getElem?_foldl_insert_of_notMem (·.path) (Declarations.ofPackage _) packages h ∅).trans
    Std.TreeMap.getElem?_emptyc

variable (hpaths : (packages.map (·.path)).Nodup) (hothers : (others.map (·.path)).Nodup)

include hpaths hothers

theorem Index.names_of_sameAt {path : String} (h : SameAt packages others path) :
    (Index.ofPackages others).names[path]? = (Index.ofPackages packages).names[path]? := by
  obtain ⟨hno, hno'⟩ | ⟨p, hp, q, hq, rfl, hsame⟩ := h
  · rw [Index.names_of_notMem hno, Index.names_of_notMem hno']
  · rw [Index.names_ofPackages hpaths hp, hsame.path, Index.names_ofPackages hothers hq, hsame.name]

/-- **Two lists that hold the same under a path** give it the same declarations. -/
theorem Index.packages_of_sameAt {path : String} (h : SameAt packages others path)
    (himports : ∀ p ∈ packages, p.path = path → ∀ imported ∈ p.importPaths,
      SameAt packages others imported) :
    (Index.ofPackages others).packages[path]? = (Index.ofPackages packages).packages[path]? := by
  obtain ⟨hno, hno'⟩ | ⟨p, hp, q, hq, rfl, hsame⟩ := h
  · rw [Index.packages_of_notMem hno, Index.packages_of_notMem hno']
  · have hnames : ∀ file ∈ p.files, Imports.ofFile (Index.ofPackages others).names file =
        Imports.ofFile (Index.ofPackages packages).names file := by
      intro file hfile
      refine Imports.ofFile_congr fun spec hspec => ?_
      exact Index.names_of_sameAt hpaths hothers
        (himports p hp rfl _ (Package.mem_importPaths hfile hspec))
    rw [Index.packages_ofPackages hpaths hp, hsame.path, Index.packages_ofPackages hothers hq,
      ← hsame.ofPackage_eq, Declarations.ofPackage_congr hnames]

end Index

/-! ## Tables -/

theorem Index.check_of_sameAt {packages others : List Package}
    (hpaths : (packages.map (·.path)).Nodup) {package : Package} (hpackage : package ∈ packages)
    (hothers : (others.map (·.path)).Nodup) (hpackage' : package ∈ others)
    (hsame : ∀ path, Reaches packages package path → SameAt packages others path) :
    (Index.ofPackages others).check package = (Index.ofPackages packages).check package := by
  have hwithin : ∀ path, InReach packages package path → SameAt packages others path := by
    rintro path (rfl | hreach)
    · exact .inr ⟨package, hpackage, package, hpackage', rfl, .refl package⟩
    · exact hsame path hreach
  have hdecls : ∀ path, InReach packages package path →
      (Index.ofPackages others).packages[path]? = (Index.ofPackages packages).packages[path]? := by
    intro path hpath
    refine Index.packages_of_sameAt hpaths hothers (hwithin path hpath) fun p hp hp' imported hi => ?_
    exact hwithin imported (InReach.imports hpaths hpackage hp (hp' ▸ hpath) hi)
  have hindex := Index.packages_ofPackages hpaths hpackage
  have htyped := Index.typed_within hpaths hpackage
  refine Index.check_of_agreeOn (T := Ty.Within packages package) ?_ (Ty.within_closed _ _) htyped
    (htyped none package.path "" ?_ _ hindex) hindex ((hdecls _ (.inl rfl)).trans hindex) ?_ ?_
  · intro label path name ht
    exact hdecls path (ht label path name .here)
  · intro label path name ho
    cases ho
    exact .inl rfl
  · intro file hfile
    exact importsTyped_of_within hpaths hpackage hpackage (.inl rfl) hfile _
  · intro file hfile
    refine Imports.ofFile_congr fun spec hspec => Index.names_of_sameAt hpaths hothers ?_
    exact hsame _ (.direct (Package.mem_importPaths hfile hspec))

/-- Lists that hold the same packages, up to bodies. -/
theorem sameAt_of_forall_mem {packages others : List Package}
    (hmem : ∀ p ∈ packages, ∃ q ∈ others, p.SameUpToBodies q) {path : String}
    (hno : path ∉ packages.map (·.path) → path ∉ others.map (·.path)) :
    SameAt packages others path := by
  by_cases h : path ∈ packages.map (·.path)
  · obtain ⟨p, hp, rfl⟩ := List.mem_map.mp h
    obtain ⟨q, hq, hsame⟩ := hmem p hp
    exact .inr ⟨p, hp, q, hq, rfl, hsame⟩
  · exact .inl ⟨h, hno h⟩

theorem map_path_ite_dropBodies (keep : Package → Bool) (packages : List Package) :
    (packages.map fun p => if keep p then p else p.dropBodies).map (·.path) =
      packages.map (·.path) := by
  rw [List.map_map]
  refine List.map_congr_left fun p _ => ?_
  dsimp only [Function.comp_apply]
  split_ifs
  · rfl
  · rfl

/-- **The tables of a package depend on the declarations that it reaches**, and not on the order of
packages or the bodies of others. -/
theorem check_of_reachable_declarations {packages : List Package}
    (hpaths : (packages.map (·.path)).Nodup) {package : Package} (hpackage : package ∈ packages) :
    let tables := (Index.ofPackages packages).check package
    (∀ others : List Package, (others.map (·.path)).Nodup → package ∈ others →
      (∀ path, Reaches packages package path → SameAt packages others path) →
      (Index.ofPackages others).check package = tables) ∧
    (∀ others : List Package, others.Perm packages →
      (Index.ofPackages others).check package = tables) ∧
    (∀ unrelated : List Package, ((packages ++ unrelated).map (·.path)).Nodup →
      (∀ p ∈ unrelated, ¬ Reaches packages package p.path) →
      (Index.ofPackages (packages ++ unrelated)).check package = tables) ∧
    ∀ keep : Package → Bool, keep package →
      (Index.ofPackages (packages.map fun p => if keep p then p else p.dropBodies)).check package =
        tables := by
  intro tables
  refine ⟨fun others => Index.check_of_sameAt hpaths hpackage, ?_, ?_, ?_⟩
  · intro others hperm
    have hmem : ∀ p ∈ packages, ∃ q ∈ others, p.SameUpToBodies q := fun p hp =>
      ⟨p, hperm.mem_iff.mpr hp, .refl p⟩
    refine Index.check_of_sameAt hpaths hpackage ((hperm.map _).nodup_iff.mpr hpaths)
      (hperm.mem_iff.mpr hpackage) fun path _ => sameAt_of_forall_mem hmem fun hno => ?_
    rwa [(hperm.map (·.path)).mem_iff]
  · intro unrelated hnodup hout
    have hmem : ∀ p ∈ packages, ∃ q ∈ packages ++ unrelated, p.SameUpToBodies q := fun p hp =>
      ⟨p, List.mem_append_left _ hp, .refl p⟩
    refine Index.check_of_sameAt hpaths hpackage hnodup (List.mem_append_left _ hpackage)
      fun path hpath => sameAt_of_forall_mem hmem fun hno => ?_
    rw [List.map_append, List.mem_append, not_or]
    refine ⟨hno, fun hin => ?_⟩
    obtain ⟨p, hp, rfl⟩ := List.mem_map.mp hin
    exact hout p hp hpath
  · intro keep hkeep
    have hmem : ∀ p ∈ packages, ∃ q ∈ packages.map fun p => if keep p then p else p.dropBodies,
        p.SameUpToBodies q := by
      intro p hp
      refine ⟨_, List.mem_map_of_mem hp, ?_⟩
      split_ifs
      · exact .refl p
      · exact p.sameUpToBodies_dropBodies
    have hkept : package ∈ packages.map fun p => if keep p then p else p.dropBodies :=
      List.mem_map.mpr ⟨package, hpackage, if_pos hkeep⟩
    refine Index.check_of_sameAt hpaths hpackage ?_ hkept fun path _ =>
      sameAt_of_forall_mem hmem fun hno => ?_
    · rwa [map_path_ite_dropBodies]
    · rwa [map_path_ite_dropBodies]

/-- A package with a method that has a body. -/
def ledger : Package where
  name := "ledger"
  path := "example.com/ledger"
  files := [{ path := "ledger.go", package := "ledger", imports := [], decls := [
    .type ⟨⟨0, "Book"⟩, .struct [], false⟩,
    .func
      { name := ⟨1, "Close"⟩, recv := some ⟨none, .name none "Book"⟩, params := [], results := []
        body := some [.expr (.call (.ident ⟨2, "print"⟩) [])] }] }]

/-- A package with a type that has a field of the type in `ledger`. -/
def bank : Package where
  name := "bank"
  path := "example.com/bank"
  files := [{ path := "bank.go", package := "bank", imports := [⟨none, "example.com/ledger"⟩]
              decls := [
    .type ⟨⟨0, "Branch"⟩, .struct [.mk (some "book") (.name (some "ledger") "Book")], false⟩] }]

/-- A package that calls the method in `ledger`, which it does not import itself. -/
def teller : Package where
  name := "main"
  path := "example.com/teller"
  files := [{ path := "main.go", package := "main", imports := [⟨none, "example.com/bank"⟩]
              decls := [
    .func
      { name := ⟨0, "main"⟩, recv := none, params := [⟨[⟨1, "b"⟩], .name (some "bank") "Branch"⟩]
        results := [], body := some [.expr
          (.call (.selector 2 (.selector 3 (.ident ⟨4, "b"⟩) ⟨5, "book"⟩) ⟨6, "Close"⟩) [])] }] }]

/-- A package that no other imports. -/
def unused : Package := { name := "unused", path := "example.com/unused", files := [] }

/-- A method without a body is found by way of another package. -/
theorem check_of_reachable_declarations_field :
    ([ledger, bank, teller].map (·.path)).Nodup ∧
      (∀ path, Reaches [ledger, bank, teller] teller path →
        SameAt [ledger, bank, teller] [teller, unused, bank, ledger.dropBodies] path) ∧
      ((Index.ofPackages [ledger, bank, teller]).check teller).selections[2]? =
        some ⟨.declared "ledger" "example.com/ledger" "Book", "Close"⟩ ∧
      (Index.ofPackages [teller, unused, bank, ledger.dropBodies]).check teller =
        (Index.ofPackages [ledger, bank, teller]).check teller := by
  have hpaths : ([ledger, bank, teller].map (·.path)).Nodup := by decide
  have hreach : ∀ path, Reaches [ledger, bank, teller] teller path →
      path = bank.path ∨ path = ledger.path := by
    intro path h
    induction h with
    | direct hpath => exact .inl (List.mem_singleton.mp hpath)
    | step hp _ hpath _ =>
      simp only [List.mem_cons, List.not_mem_nil, or_false] at hp
      rcases hp with rfl | rfl | rfl
      · exact absurd hpath List.not_mem_nil
      · exact .inr (List.mem_singleton.mp hpath)
      · exact .inl (List.mem_singleton.mp hpath)
  have hsame : ∀ path, Reaches [ledger, bank, teller] teller path →
      SameAt [ledger, bank, teller] [teller, unused, bank, ledger.dropBodies] path := by
    intro path hpath
    rcases hreach path hpath with rfl | rfl
    · exact .inr ⟨bank, by simp, bank, by simp, rfl, .refl bank⟩
    · exact .inr ⟨ledger, by simp, ledger.dropBodies, by simp, rfl, ledger.sameUpToBodies_dropBodies⟩
  have hcheck := (check_of_reachable_declarations hpaths (by simp)).1
    [teller, unused, bank, ledger.dropBodies] (by decide) List.mem_cons_self hsame
  exact ⟨hpaths, hsame, rfl, hcheck⟩

end GoCalls
