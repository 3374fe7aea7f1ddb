import GoCalls.Proofs.IndexTypes

/-!
# Names at top level

What a package declares is collected file by file and declaration by declaration. A name that no
declaration gives is not found afterwards, and a name that only one declaration gives is found as
this declaration says.

* `Package.topNames`: the names that a package declares at top level.
* `Declarations.Lacks`, **`Declarations.ofPackage_lacks`**: names that a package does not declare.
* **`Declarations.localTypes_ofPackage`**, **`Declarations.aliases_ofPackage`**: the types and the
  aliases of a package, declaration by declaration.
* **`Declarations.aliases_ofPackage_of_alias`**: an alias that is declared once.
-/

namespace GoCalls

/-- The names that a declaration declares at top level, where a method declares none. -/
def Decl.topNames : Decl → List String
  | .func d => if (d.recv.bind Receiver.typeName).isNone then [d.name.name] else []
  | .type d => [d.name.name]
  | .var (.mk names _ _) | .const (.mk names _ _) => names.map (·.name)

/-- The names of functions and values that a declaration declares at top level. -/
def Decl.valueNames : Decl → List String
  | .type _ => []
  | d => d.topNames

theorem Decl.valueNames_subset (d : Decl) : d.valueNames ⊆ d.topNames := by
  cases d with
  | type d => exact List.nil_subset _
  | _ => exact List.Subset.refl _

theorem Decl.ne_of_notMem_topNames {d : TypeDecl} {name : String}
    (h : name ∉ (Decl.type d).topNames) : d.name.name ≠ name := by
  rintro rfl
  exact h List.mem_cons_self

def Package.topNames (package : Package) : List String :=
  package.decls.flatMap fun d => d.2.topNames

namespace Declarations

variable {names : Std.TreeMap String String} {package : Package} {name : String}

/-! ## Stages -/

theorem typeEnv_addFunc (names : Std.TreeMap String String) (env : TypeEnv) (decls : Declarations)
    (func : FuncDecl) (file : SourceFile) :
    (addFunc env decls func).typeEnv names file = decls.typeEnv names file := by
  unfold addFunc
  dsimp only
  split <;> rfl

theorem typeEnv_addDecls (names : Std.TreeMap String String) (env : TypeEnv) (last : Option Ty)
    (decls : Declarations) (ds : List Decl) (file : SourceFile) :
    (addDecls env last decls ds).typeEnv names file = decls.typeEnv names file := by
  fun_induction addDecls env last decls ds with
  | case1 => rfl
  | case2 last decls d rest _ target _ ih => exact ih
  | case3 last decls d rest _ _ ih => exact ih
  | case4 last decls d rest _ ih => exact ih
  | case5 last decls d rest ih => exact ih.trans (typeEnv_addFunc names env decls d file)
  | case6 last decls ids t values rest ih => exact ih
  | case7 last decls ids t values rest type ih => exact ih

/-- What is known before any declaration is collected: the names of types. -/
def start (package : Package) : Declarations where
  name := package.name
  path := package.path
  localTypes := package.files.foldl (fun known file => localTypesOf known file.decls) ∅

theorem ofPackage_eq : ofPackage names package = package.files.foldl
    (fun decls file => addDecls ((start package).typeEnv names file) none decls file.decls)
    (start package) := rfl

theorem typeEnv_ofPackage (file : SourceFile) :
    (ofPackage names package).typeEnv names file = (start package).typeEnv names file := by
  rw [ofPackage_eq]
  refine List.foldlRecOn (motive := fun decls : Declarations =>
    decls.typeEnv names file = (start package).typeEnv names file) package.files _ rfl ?_
  intro decls hdecls other _
  rw [typeEnv_addDecls, hdecls]

/-! ## Functions and values -/

/-- A package declares neither a function nor a value with the given name. -/
structure Lacks (name : String) (decls : Declarations) : Prop where
  funcs : decls.funcs[name]? = none
  values : decls.values[name]? = none

section Lacks

variable {decls : Declarations}

theorem Lacks.modifyType (h : decls.Lacks name) (type : String) (f : NamedDecl → NamedDecl) :
    (decls.modifyType type f).Lacks name := ⟨h.funcs, h.values⟩

theorem Lacks.addValues (h : decls.Lacks name) (kind : SymbolKind) (t : Option Ty)
    {is : List Ident} (hn : name ∉ is.map (·.name)) : (decls.addValues kind t is).Lacks name := by
  refine ⟨h.funcs, ?_⟩
  exact (getElem?_foldl_insert_of_notMem _ (fun _ => (kind, t)) is hn decls.values).trans h.values

theorem Lacks.addFunc (h : decls.Lacks name) (env : TypeEnv) {func : FuncDecl}
    (hn : name ∉ (Decl.func func).topNames) : (Declarations.addFunc env decls func).Lacks name := by
  unfold Declarations.addFunc
  dsimp only
  split
  · exact h.modifyType _ _
  · rename_i hrecv
    have hne : func.name.name ≠ name := by
      intro he
      simp [Decl.topNames, hrecv, he] at hn
    refine ⟨?_, h.values⟩
    rw [Std.TreeMap.getElem?_insert, if_neg (by simpa using hne)]
    exact h.funcs

theorem Lacks.addDecls (h : decls.Lacks name) (env : TypeEnv) (last : Option Ty) {ds : List Decl}
    (hn : ∀ d ∈ ds, name ∉ d.valueNames) : (Declarations.addDecls env last decls ds).Lacks name := by
  fun_induction Declarations.addDecls env last decls ds with
  | case1 => exact h
  | case2 last decls d rest _ target _ ih =>
    exact ih ⟨h.funcs, h.values⟩ fun d hd => hn d (List.mem_cons_of_mem _ hd)
  | case3 last decls d rest _ _ ih => exact ih h fun d hd => hn d (List.mem_cons_of_mem _ hd)
  | case4 last decls d rest _ ih =>
    exact ih (h.modifyType _ _) fun d hd => hn d (List.mem_cons_of_mem _ hd)
  | case5 last decls d rest ih =>
    exact ih (h.addFunc env (hn _ List.mem_cons_self)) fun d hd => hn d (List.mem_cons_of_mem _ hd)
  | case6 last decls names t values rest ih =>
    exact ih (h.addValues _ _ (hn _ List.mem_cons_self)) fun d hd => hn d (List.mem_cons_of_mem _ hd)
  | case7 last decls names t values rest type ih =>
    exact ih (h.addValues _ _ (hn _ List.mem_cons_self)) fun d hd => hn d (List.mem_cons_of_mem _ hd)

theorem lacks_ofPackage (hn : ∀ d ∈ package.decls, name ∉ d.2.valueNames) :
    (ofPackage names package).Lacks name := by
  rw [ofPackage_eq]
  refine List.foldlRecOn (motive := Lacks name) package.files _ ⟨by simp [start], by simp [start]⟩ ?_
  intro decls hdecls file hfile
  exact hdecls.addDecls _ _ fun d hd => hn (file, d) (Package.mem_decls.mpr ⟨hfile, hd⟩)

end Lacks

/-! ## Types -/

theorem localTypes_ofPackage : (ofPackage names package).localTypes =
    package.decls.foldl (fun known d => localTypesOf known [d.2]) ∅ := by
  have hstart : (ofPackage names package).localTypes = (start package).localTypes := by
    rw [ofPackage_eq]
    refine List.foldlRecOn (motive := fun decls : Declarations =>
      decls.localTypes = (start package).localTypes) package.files _ rfl ?_
    intro decls hdecls file _
    have henv := typeEnv_addDecls names ((start package).typeEnv names file) none decls file.decls
      file
    exact (congrArg TypeEnv.localTypes henv).trans hdecls
  rw [hstart, Package.decls, List.foldl_flatMap]
  simp only [List.foldl_map]
  rfl

theorem localTypesOf_of_notMem {d : Decl} (hn : name ∉ d.topNames)
    (known : Std.TreeMap String (Option TypeExpr)) :
    (localTypesOf known [d])[name]? = known[name]? := by
  cases d with
  | type d =>
    have hne := Decl.ne_of_notMem_topNames hn
    change (known.insert _ _)[name]? = _
    rw [Std.TreeMap.getElem?_insert, if_neg (by simpa using hne)]
  | _ => rfl

/-- Names that a package does not declare are unknown. -/
theorem ofPackage_lacks (names : Std.TreeMap String String) {package : Package}
    (hn : name ∉ package.topNames) :
    (ofPackage names package).Lacks name ∧ (ofPackage names package).localTypes[name]? = none := by
  have hdecls : ∀ d ∈ package.decls, name ∉ d.2.topNames :=
    fun d hd he => hn (List.mem_flatMap.mpr ⟨d, hd, he⟩)
  refine ⟨lacks_ofPackage fun d hd he => hdecls d hd (d.2.valueNames_subset he), ?_⟩
  rw [localTypes_ofPackage]
  refine List.foldlRecOn (motive := fun known : Std.TreeMap String (Option TypeExpr) =>
    known[name]? = none) package.decls _ Std.TreeMap.getElem?_emptyc fun known hk d hd => ?_
  rw [localTypesOf_of_notMem (hdecls d hd), hk]

/-! ## Aliases -/

/-- The aliases with known targets, with those of one more declaration. -/
def addAlias (env : TypeEnv) (aliases : Std.TreeMap String Ty) : Decl → Std.TreeMap String Ty
  | .type d =>
    if d.isAlias then
      match env.resolve d.type with
      | some target => aliases.insert d.name.name target
      | none => aliases
    else aliases
  | _ => aliases

theorem aliases_addFunc (env : TypeEnv) (decls : Declarations) (func : FuncDecl) :
    (addFunc env decls func).aliases = decls.aliases := by
  unfold addFunc
  dsimp only
  split <;> rfl

theorem aliases_addDecls (env : TypeEnv) (last : Option Ty) (decls : Declarations)
    (ds : List Decl) :
    (addDecls env last decls ds).aliases = ds.foldl (addAlias env) decls.aliases := by
  fun_induction addDecls env last decls ds with
  | case1 => rfl
  | case2 last decls d rest halias target htarget ih =>
    rw [ih, List.foldl_cons, addAlias, if_pos halias, htarget]
  | case3 last decls d rest halias htarget ih =>
    rw [ih, List.foldl_cons, addAlias, if_pos halias, htarget]
  | case4 last decls d rest halias ih =>
    rw [ih, List.foldl_cons, addAlias, if_neg halias]
    rfl
  | case5 last decls d rest ih =>
    rw [ih, aliases_addFunc]
    rfl
  | case6 last decls ids t values rest ih => exact ih
  | case7 last decls ids t values rest type ih => exact ih

/-- **The aliases of a package**, each resolved in its file. -/
theorem aliases_ofPackage : (ofPackage names package).aliases =
    package.decls.foldl
      (fun aliases d => addAlias ((ofPackage names package).typeEnv names d.1) aliases d.2) ∅ := by
  have hfiles (files : List SourceFile) (decls : Declarations) :
      (files.foldl (fun decls file =>
        addDecls ((start package).typeEnv names file) none decls file.decls) decls).aliases =
        files.foldl (fun aliases file =>
          file.decls.foldl (addAlias ((start package).typeEnv names file)) aliases)
          decls.aliases := by
    induction files generalizing decls with
    | nil => rfl
    | cons file files ih => rw [List.foldl_cons, ih, aliases_addDecls, List.foldl_cons]
  simp only [typeEnv_ofPackage]
  rw [ofPackage_eq, hfiles, Package.decls, List.foldl_flatMap]
  simp only [List.foldl_map]
  rfl

theorem addAlias_of_notMem (env : TypeEnv) {d : Decl} (hn : name ∉ d.topNames)
    (aliases : Std.TreeMap String Ty) : (addAlias env aliases d)[name]? = aliases[name]? := by
  cases d with
  | type d =>
    have hne := Decl.ne_of_notMem_topNames hn
    unfold addAlias
    dsimp only
    split
    · split
      · rw [Std.TreeMap.getElem?_insert, if_neg (by simpa using hne)]
      · rfl
    · rfl
  | _ => rfl

/-! ## One declaration of a name -/

/-- The last step that changes a key decides. -/
theorem getElem?_foldl_of_last {α β : Type} {f : Std.TreeMap String β → α → Std.TreeMap String β}
    {before after : List α} {a : α} (hafter : ∀ b ∈ after, ∀ m, (f m b)[name]? = m[name]?)
    (m : Std.TreeMap String β) :
    ((before ++ a :: after).foldl f m)[name]? = (f (before.foldl f m) a)[name]? := by
  rw [List.foldl_append, List.foldl_cons]
  refine List.foldlRecOn (motive := fun m' : Std.TreeMap String β =>
    m'[name]? = (f (before.foldl f m) a)[name]?) after f rfl fun m' hm b hb => ?_
  rw [hafter b hb, hm]

theorem exists_split_of_count_eq_one {file : SourceFile} {d : TypeDecl}
    (hd : (file, .type d) ∈ package.decls) (honce : package.topNames.count d.name.name = 1) :
    ∃ before after, package.decls = before ++ (file, .type d) :: after ∧
      (∀ b ∈ before, d.name.name ∉ b.2.topNames) ∧ ∀ b ∈ after, d.name.name ∉ b.2.topNames := by
  obtain ⟨before, after, hsplit⟩ := List.append_of_mem hd
  have hself : (Decl.type d).topNames.count d.name.name = 1 := by simp [Decl.topNames]
  rw [Package.topNames, hsplit, List.flatMap_append, List.flatMap_cons, List.count_append,
    List.count_append, hself] at honce
  have hnone {l : List (SourceFile × Decl)}
      (h : (l.flatMap fun b => b.2.topNames).count d.name.name = 0) :
      ∀ b ∈ l, d.name.name ∉ b.2.topNames :=
    fun b hb hm => List.count_eq_zero.mp h (List.mem_flatMap.mpr ⟨b, hb, hm⟩)
  exact ⟨before, after, hsplit, hnone (by omega), hnone (by omega)⟩

section Alias

variable {file : SourceFile} {d : TypeDecl} (hd : (file, .type d) ∈ package.decls)
  (honce : package.topNames.count d.name.name = 1)

include hd honce

theorem lacks_ofPackage_of_type : (ofPackage names package).Lacks d.name.name := by
  obtain ⟨before, after, hsplit, hbefore, hafter⟩ := exists_split_of_count_eq_one hd honce
  refine lacks_ofPackage fun other hother => ?_
  rw [hsplit, List.mem_append, List.mem_cons] at hother
  rcases hother with hmem | rfl | hmem
  · exact fun he => hbefore _ hmem (other.2.valueNames_subset he)
  · exact List.not_mem_nil
  · exact fun he => hafter _ hmem (other.2.valueNames_subset he)

variable (halias : d.isAlias)

include halias

theorem localTypes_ofPackage_of_alias :
    (ofPackage names package).localTypes[d.name.name]? = some (some d.type) := by
  obtain ⟨before, after, hsplit, -, hafter⟩ := exists_split_of_count_eq_one hd honce
  rw [localTypes_ofPackage, hsplit,
    getElem?_foldl_of_last fun b hb => localTypesOf_of_notMem (hafter b hb)]
  change (Std.TreeMap.insert _ d.name.name _)[d.name.name]? = _
  rw [Std.TreeMap.getElem?_insert_self, if_pos halias]

theorem aliases_ofPackage_of_alias {target : Ty}
    (htarget : ((ofPackage names package).typeEnv names file).resolve d.type = some target) :
    (ofPackage names package).aliases[d.name.name]? = some target := by
  obtain ⟨before, after, hsplit, -, hafter⟩ := exists_split_of_count_eq_one hd honce
  rw [aliases_ofPackage, hsplit,
    getElem?_foldl_of_last fun b hb => addAlias_of_notMem _ (hafter b hb),
    addAlias, if_pos halias, htarget, Std.TreeMap.getElem?_insert_self]

end Alias

end Declarations

end GoCalls
