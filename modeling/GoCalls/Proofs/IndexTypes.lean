import GoCalls.Proofs.Visits

/-!
# The types that an index holds

A property of types may hold of the declared types of some packages, and go over from these to all
that the packages declare. Then it is kept when types are resolved, when declarations are collected,
and when members are looked up. So it holds of every type that such a type leads to in an index, and
of all that checking records.

* `TypeEnv.Typed`, **`known_resolve`**: the types that a file can name.
* `Declarations.Typed`, **`ofPackage_typed`**: the types of what a package declares.
* `Index.Typed`, **`Index.Typed.keeps`**: the files of a package keep the property.
* **`Index.check_grows`**: each entry of the tables of a package is for a mark of it.
-/

namespace GoCalls

variable {T : Ty → Prop} {Q : MarkKind → String → Symbol → Prop}

/-! ## Maps -/

/-- All values of a map have a property. -/
def AllValues {β : Type} (P : β → Prop) (m : Std.TreeMap String β) : Prop :=
  ∀ (key : String) (value : β), m[key]? = some value → P value

namespace AllValues

variable {β : Type} {P : β → Prop} {m : Std.TreeMap String β} {value : β}

theorem empty : AllValues P ∅ := by
  intro key value h
  simp at h

theorem insert (h : AllValues P m) (key : String) (hv : P value) :
    AllValues P (m.insert key value) := by
  intro k w hk
  rw [Std.TreeMap.getElem?_insert] at hk
  split_ifs at hk
  · obtain rfl := Option.some.inj hk
    exact hv
  · exact h k w hk

theorem insertIfNew (h : AllValues P m) (key : String) (hv : P value) :
    AllValues P (m.insertIfNew key value) := by
  intro k w hk
  rw [Std.TreeMap.getElem?_insertIfNew] at hk
  split_ifs at hk
  · obtain rfl := Option.some.inj hk
    exact hv
  · exact h k w hk

end AllValues

section Distinct

variable {α β : Type} (key : α → String) (value : α → β)

theorem getElem?_foldl_insert_of_notMem (l : List α) {k : String} (hk : k ∉ l.map key)
    (m : Std.TreeMap String β) :
    (l.foldl (fun m a => m.insert (key a) (value a)) m)[k]? = m[k]? := by
  induction l generalizing m with
  | nil => rfl
  | cons b l ih =>
    rw [List.map_cons, List.mem_cons, not_or] at hk
    rw [List.foldl_cons, ih hk.2, Std.TreeMap.getElem?_insert, if_neg]
    simpa using Ne.symm hk.1

/-- Where all keys differ, each value can be found. -/
theorem getElem?_foldl_insert (l : List α) (hd : (l.map key).Nodup) {a : α} (ha : a ∈ l)
    (m : Std.TreeMap String β) :
    (l.foldl (fun m a => m.insert (key a) (value a)) m)[key a]? = some (value a) := by
  induction l generalizing m with
  | nil => simp at ha
  | cons b l ih =>
    rw [List.map_cons, List.nodup_cons] at hd
    rw [List.foldl_cons]
    rcases List.mem_cons.mp ha with rfl | ha
    · rw [getElem?_foldl_insert_of_notMem key value l hd.1, Std.TreeMap.getElem?_insert_self]
    · exact ih hd.2 ha _

end Distinct

/-! ## Resolving -/

/-- The declared types that a file can name have the property. -/
structure TypeEnv.Typed (T : Ty → Prop) (env : TypeEnv) : Prop where
  own (name : String) : T (.declared env.package env.path name)
  imports : AllValues (fun imported => ∀ name, T (.declared imported.name imported.path name))
    env.imports.named

theorem known_universe (hc : Ty.Closed T) (name : String) : Known T (Universe.type? name) := by
  unfold Universe.type?
  split_ifs
  · simpa [Known] using hc.error
  · simpa [Known] using hc.interface
  · simpa [Known] using hc.basic name
  · exact Known.none

theorem known_resolveWithin (hc : Ty.Closed T) {env : TypeEnv} (he : env.Typed T) (fuel : Nat)
    (expr : TypeExpr) : Known T (env.resolveWithin fuel expr) := by
  induction fuel generalizing expr with
  | zero => exact Known.none
  | succ fuel ih =>
    have hpart (t : TypeExpr) : T ((env.resolveWithin fuel t).getD .invalid) := by
      cases ht : env.resolveWithin fuel t with
      | none => exact hc.basic _
      | some u => exact ih t u ht
    unfold TypeEnv.resolveWithin
    cases expr with
    | name package name =>
      cases package with
      | none =>
        dsimp only
        split
        · exact ih _
        · simpa [Known] using he.own name
        · exact known_universe hc name
      | some package =>
        intro t ht
        obtain ⟨imported, hi, rfl⟩ := Option.map_eq_some_iff.mp ht
        exact he.imports package imported hi name
    | pointer t => simpa [Known] using hc.pointer.mpr (hpart t)
    | slice t | array t | ellipsis t => simpa [Known] using hc.slice.mpr (hpart t)
    | map k v => simpa [Known] using hc.map.mpr ⟨hpart k, hpart v⟩
    | chan t => simpa [Known] using hc.chan.mpr (hpart t)
    | func params results => simpa [Known, hc.func] using fun t _ => hpart t
    | struct fields => simpa [Known] using hc.struct
    | interface methods => simpa [Known] using hc.interface
    | unknown => exact Known.none

/-- **Types as written** stand for types with the property. -/
theorem known_resolve (hc : Ty.Closed T) {env : TypeEnv} (he : env.Typed T) (expr : TypeExpr) :
    Known T (env.resolve expr) := known_resolveWithin hc he _ expr

/-- The types that packages are imported with have the property. -/
def NamesTyped (T : Ty → Prop) (names : Std.TreeMap String String) : Prop :=
  ∀ path name, T (.declared (names[path]?.getD (importName path)) path name)

/-- The types that a file imports packages with have the property. -/
def SourceFile.ImportsTyped (T : Ty → Prop) (names : Std.TreeMap String String) (file : SourceFile) :
    Prop :=
  ∀ spec ∈ file.imports, ∀ name,
    T (.declared (names[spec.path]?.getD (importName spec.path)) spec.path name)

section Imports

variable {names : Std.TreeMap String String} {file : SourceFile}

theorem NamesTyped.imports (h : NamesTyped T names) (file : SourceFile) :
    file.ImportsTyped T names := fun spec _ => h spec.path

theorem imports_typed (hf : file.ImportsTyped T names) :
    AllValues (fun imported => ∀ name, T (.declared imported.name imported.path name))
      (Imports.ofFile names file).named := by
  refine List.foldlRecOn (motive := fun imports : Imports => AllValues _ imports.named) file.imports
    (Imports.add names) AllValues.empty fun imports hi spec hspec => ?_
  unfold Imports.add
  split
  · exact hi
  · exact hi
  · exact hi.insert _ (hf spec hspec)
  · exact hi.insert _ (hf spec hspec)

theorem Imports.mem_dotted_add {imports : Imports} {spec : Import} {path : String}
    (h : path ∈ (imports.add names spec).dotted) :
    path ∈ imports.dotted ∨ spec.localName = some "." ∧ spec.path = path := by
  unfold Imports.add at h
  split at h
  case h_2 hdot =>
    rcases List.mem_append.mp h with h | h
    · exact .inl h
    · exact .inr ⟨hdot, (List.mem_singleton.mp h).symm⟩
  all_goals exact .inl h

theorem Imports.mem_dotted_ofFile {path : String} (h : path ∈ (Imports.ofFile names file).dotted) :
    ∃ spec ∈ file.imports, spec.localName = some "." ∧ spec.path = path := by
  unfold Imports.ofFile at h
  revert h
  refine List.foldlRecOn (motive := fun imports : Imports => path ∈ imports.dotted → _)
    file.imports _ (fun h => absurd h List.not_mem_nil) fun imports hi spec hspec h => ?_
  rcases Imports.mem_dotted_add h with h | hspec'
  · exact hi h
  · exact ⟨spec, hspec, hspec'⟩

end Imports

/-! ## Declarations -/

/-- The types of the members of a declared type have the property. -/
structure NamedDecl.Typed (T : Ty → Prop) (decl : NamedDecl) : Prop where
  underlying : Known T decl.underlying
  fields : ∀ field ∈ decl.fields, T field.type
  methods : AllValues T decl.methods

/-- Where a name stands for a package, the types of the package have the property. -/
def SymbolKind.Typed (T : Ty → Prop) : SymbolKind → Prop
  | .package imported path => ∀ name, T (.declared imported path name)
  | _ => True

/-- The types of what a package declares have the property. -/
structure Declarations.Typed (T : Ty → Prop) (decls : Declarations) : Prop where
  own (name : String) : T (.declared decls.name decls.path name)
  types : AllValues (NamedDecl.Typed T) decls.types
  aliases : AllValues T decls.aliases
  funcs : AllValues T decls.funcs
  values : AllValues (fun value => value.1.Typed T ∧ Known T value.2) decls.values

theorem NamedDecl.Typed.empty : ({} : NamedDecl).Typed T :=
  ⟨Known.none, by simp, AllValues.empty⟩

theorem Declarations.Typed.modifyType {decls : Declarations} (h : decls.Typed T) (name : String)
    {f : NamedDecl → NamedDecl} (hf : ∀ decl, decl.Typed T → (f decl).Typed T) :
    (decls.modifyType name f).Typed T := by
  have hold : (decls.types[name]?.getD {}).Typed T := by
    cases hd : decls.types[name]? with
    | none => exact NamedDecl.Typed.empty
    | some decl => exact h.types name decl hd
  exact { h with types := h.types.insert name (hf _ hold) }

theorem Declarations.Typed.addValues {decls : Declarations} (h : decls.Typed T) (kind : SymbolKind)
    (hk : kind.Typed T) {t : Option Ty} (ht : Known T t) (names : List Ident) :
    (decls.addValues kind t names).Typed T :=
  { h with
    values := List.foldlRecOn names _ h.values fun _ hv name _ => hv.insert name.name ⟨hk, ht⟩ }

section Declaring

variable {env : TypeEnv} (hc : Ty.Closed T) (hr : ∀ t, Known T (env.resolve t))

include hr

theorem fieldDecl?_typed {field : StructField} {decl : FieldDecl}
    (h : fieldDecl? env field = some decl) : T decl.type := by
  obtain ⟨name, t⟩ := field
  cases name with
  | some name =>
    obtain ⟨u, hu, h⟩ := Option.bind_eq_some_iff.mp h
    obtain rfl := Option.some.inj h
    exact hr t u hu
  | none =>
    obtain ⟨u, hu, h⟩ := Option.bind_eq_some_iff.mp h
    obtain ⟨name, -, h⟩ := Option.bind_eq_some_iff.mp h
    obtain rfl := Option.some.inj h
    exact hr t u hu

include hc

theorem NamedDecl.Typed.define {decl : NamedDecl} (h : decl.Typed T) (t : TypeExpr) :
    (decl.define env t).Typed T := by
  unfold NamedDecl.define
  split
  · rename_i fields
    refine { h with fields := fun field hf => ?_ }
    rcases List.mem_append.mp hf with hf | hf
    · exact h.fields field hf
    · obtain ⟨source, -, hs⟩ := List.mem_filterMap.mp hf
      exact fieldDecl?_typed hr hs
  · rename_i methods
    exact { h with
      methods := List.foldlRecOn methods _ h.methods fun _ hm name _ =>
        hm.insertIfNew name (hc.func.mpr (by simp)) }
  · exact { h with underlying := hr _ }

theorem addFunc_typed {decls : Declarations} (h : decls.Typed T) (func : FuncDecl) :
    (Declarations.addFunc env decls func).Typed T := by
  have hsig := signature_known hc hr func.results
  unfold Declarations.addFunc
  dsimp only
  split
  · exact h.modifyType _ fun decl hd => { hd with methods := hd.methods.insert _ hsig }
  · exact { h with funcs := h.funcs.insert _ hsig }

theorem addDecls_typed (ds : List Decl) {decls : Declarations} (h : decls.Typed T) {last : Option Ty}
    (hlast : Known T last) : (Declarations.addDecls env last decls ds).Typed T := by
  fun_induction Declarations.addDecls env last decls ds with
  | case1 => exact h
  | case2 last decls d rest _ target ht ih =>
    exact ih { h with aliases := h.aliases.insert _ (hr _ target ht) } hlast
  | case3 last decls d rest _ _ ih => exact ih h hlast
  | case4 last decls d rest _ ih =>
    exact ih (h.modifyType _ fun decl hd => hd.define hc hr d.type) hlast
  | case5 last decls d rest ih => exact ih (addFunc_typed hc hr h d) hlast
  | case6 last decls names t values rest ih =>
    have ht : Known T (t.bind env.resolve) := by
      cases t with
      | none => exact Known.none
      | some t => exact hr t
    exact ih (h.addValues .var trivial ht names) hlast
  | case7 last decls names t values rest type ih =>
    have ht : Known T type := by
      unfold type Declarations.constType
      split
      · exact hr _
      · exact hlast
      · exact Known.none
    exact ih (h.addValues .const trivial ht names) ht

end Declaring

/-- **The types that a package declares** have the property. -/
theorem ofPackage_typed (hc : Ty.Closed T) {names : Std.TreeMap String String} {package : Package}
    (hn : ∀ file ∈ package.files, file.ImportsTyped T names)
    (hown : ∀ name, T (.declared package.name package.path name)) :
    (Declarations.ofPackage names package).Typed T := by
  refine List.foldlRecOn package.files _ ?_ fun decls hd file hfile => ?_
  · exact ⟨hown, AllValues.empty, AllValues.empty, AllValues.empty, AllValues.empty⟩
  · refine addDecls_typed hc (fun t => ?_) file.decls hd Known.none
    exact known_resolve hc ⟨hown, imports_typed (hn file hfile)⟩ t

/-! ## Members -/

/-- Where a declared type has the property, the types of all that its package declares have it. -/
def Index.Typed (T : Ty → Prop) (index : Index) : Prop :=
  ∀ (label : Option String) (path name : String), T (.named label (some path) name) →
    ∀ decls, index.packages[path]? = some decls → decls.Typed T

/-- The symbol of a name, with the property of its type. -/
def Symbol.Typed (T : Ty → Prop) (name : String) (symbol : Symbol) : Prop :=
  (symbol.name = name ∧ symbol.kind.Typed T) ∧ Known T symbol.type

/-- All declarations in an index are those of a package. -/
theorem Index.exists_of_packages {packages : List Package} {path : String} {decls : Declarations}
    (h : (Index.ofPackages packages).packages[path]? = some decls) :
    ∃ p ∈ packages, p.path = path ∧
      decls = Declarations.ofPackage (Index.ofPackages packages).names p := by
  revert h
  refine List.foldlRecOn (motive := fun known : Std.TreeMap String Declarations =>
    known[path]? = some decls → _) packages _ (fun h => ?_) fun known hk p hp h => ?_
  · simp at h
  · rw [Std.TreeMap.getElem?_insert] at h
    split_ifs at h with hpath
    · exact ⟨p, hp, by simpa using hpath, (Option.some.inj h).symm⟩
    · exact hk h

theorem Index.ofPackages_typed (hc : Ty.Closed T) {packages : List Package}
    (h : ∀ p ∈ packages, ∀ label name, T (.named label (some p.path) name) →
      (∀ file ∈ p.files, file.ImportsTyped T (Index.ofPackages packages).names) ∧
        ∀ name, T (.declared p.name p.path name)) :
    (Index.ofPackages packages).Typed T := by
  intro label path name ht decls hd
  obtain ⟨p, hp, rfl, rfl⟩ := Index.exists_of_packages hd
  obtain ⟨himports, hown⟩ := h p hp label name ht
  exact ofPackage_typed hc himports hown

section Lookup

variable {packages : List Package} (hpaths : (packages.map (·.path)).Nodup) {p : Package}
  (hp : p ∈ packages)

include hpaths hp

theorem Index.names_ofPackages : (Index.ofPackages packages).names[p.path]? = some p.name :=
  getElem?_foldl_insert (·.path) (·.name) packages hpaths hp ∅

theorem Index.packages_ofPackages : (Index.ofPackages packages).packages[p.path]? =
    some (Declarations.ofPackage (Index.ofPackages packages).names p) :=
  getElem?_foldl_insert (·.path) (Declarations.ofPackage _) packages hpaths hp ∅

end Lookup

theorem Ty.Closed.stripPointers (hc : Ty.Closed T) {t : Ty} (ht : T t) : T t.stripPointers := by
  fun_induction Ty.stripPointers t with
  | case1 t ih => exact ih (hc.pointer.mp ht)
  | case2 t _ => exact ht

namespace Index.Typed

variable {index : Index} (h : index.Typed T)

include h

theorem member? {label : Option String} {path type : String}
    (hpath : T (.named label (some path) type)) {name : String} {symbol : Symbol}
    (hm : index.member? path name = some symbol) : symbol.Typed T name := by
  obtain ⟨decls, hd, hm⟩ := Option.bind_eq_some_iff.mp hm
  have ht := h label path type hpath decls hd
  dsimp only at hm
  split at hm
  · rename_i t hf
    obtain rfl := Option.some.inj hm
    exact ⟨⟨rfl, trivial⟩, by simpa [Known] using ht.funcs name t hf⟩
  · rename_i t _ ha
    obtain rfl := Option.some.inj hm
    exact ⟨⟨rfl, trivial⟩, by simpa [Known] using ht.aliases name t ha⟩
  · split_ifs at hm
    · obtain rfl := Option.some.inj hm
      exact ⟨⟨rfl, trivial⟩, by simpa [Known] using ht.own name⟩
    · obtain ⟨⟨kind, t⟩, hv, hm⟩ := Option.bind_eq_some_iff.mp hm
      obtain rfl := Option.some.inj hm
      obtain ⟨hkind, htype⟩ := ht.values name _ hv
      exact ⟨⟨rfl, hkind⟩, htype⟩

theorem namedDecl? {t : Ty} (ht : T t) {decl : NamedDecl} (hd : index.namedDecl? t = some decl) :
    decl.Typed T := by
  unfold Index.namedDecl? at hd
  split at hd
  · rename_i label path name
    obtain ⟨decls, hp, hd⟩ := Option.bind_eq_some_iff.mp hd
    exact (h label path name ht decls hp).types name decl hd
  · cases hd

theorem underlying {t : Ty} (ht : T t) : T (index.underlying t) := by
  unfold Index.underlying
  cases hu : (index.namedDecl? t).bind (·.underlying) with
  | none => exact ht
  | some u =>
    obtain ⟨decl, hd, hu⟩ := Option.bind_eq_some_iff.mp hu
    exact (h.namedDecl? ht hd).underlying u hu

theorem memberWithin (hc : Ty.Closed T) (name : String) (fuel : Nat) {t : Ty} (ht : T t) :
    Known T (index.memberWithin name fuel t) := by
  induction fuel generalizing t with
  | zero => exact Known.none
  | succ fuel ih =>
    unfold Index.memberWithin
    split
    · split_ifs
      · simpa [Known] using hc.func.mpr (by simpa using hc.basic _)
      · exact Known.none
    · intro u hu
      obtain ⟨decl, hd, hu⟩ := Option.bind_eq_some_iff.mp hu
      have hdecl := h.namedDecl? (hc.stripPointers ht) hd
      have hmethod : Known T decl.methods[name]? := fun u hu => hdecl.methods name u hu
      have hfield : Known T ((decl.fields.find? (·.name = name)).map (·.type)) := by
        intro u hu
        obtain ⟨field, hf, rfl⟩ := Option.map_eq_some_iff.mp hu
        exact hdecl.fields field (List.mem_of_find?_eq_some hf)
      have hembedded : Known T ((decl.fields.filter (·.embedded)).findSome? fun f =>
          index.memberWithin name fuel f.type) := by
        intro u hu
        obtain ⟨field, hf, hu⟩ := List.exists_of_findSome?_eq_some hu
        exact ih (hdecl.fields field (List.mem_of_mem_filter hf)) u hu
      exact (hmethod.or (hfield.or hembedded)) u hu

end Index.Typed

/-! ## Files -/

theorem universe_typed (hc : Ty.Closed T) {name : String} {symbol : Symbol}
    (h : Universe.symbol? name = some symbol) : symbol.Typed T name := by
  unfold Universe.symbol? at h
  split_ifs at h
  · obtain rfl := Option.some.inj h
    exact ⟨⟨rfl, trivial⟩, Known.none⟩
  · obtain rfl := Option.some.inj h
    exact ⟨⟨rfl, trivial⟩, Known.none⟩
  · obtain rfl := Option.some.inj h
    exact ⟨⟨rfl, trivial⟩, by simpa [Known] using hc.basic _⟩
  · obtain rfl := Option.some.inj h
    exact ⟨⟨rfl, trivial⟩, by simpa [Known] using hc.basic _⟩
  · obtain ⟨t, ht, rfl⟩ := Option.map_eq_some_iff.mp h
    exact ⟨⟨rfl, trivial⟩, by simpa [Known] using known_universe hc name t ht⟩

section Files

variable {index : Index} (hc : Ty.Closed T) (h : index.Typed T) {decls : Declarations}
  (hd : decls.Typed T) {inferred : Std.TreeMap String Ty} (hi : AllValues T inferred)
  {file : SourceFile} (hf : file.ImportsTyped T index.names)

include hc hd hf

theorem known_fileEnv_resolve (t : TypeExpr) :
    Known T ((index.fileEnv decls inferred file).resolve t) :=
  known_resolve hc ⟨hd.own, imports_typed hf⟩ t

include h hi

theorem global?_typed {name : String} {symbol : Symbol}
    (hg : (index.fileEnv decls inferred file).global? name = some symbol) : symbol.Typed T name := by
  unfold FileEnv.global? at hg
  dsimp only at hg
  split at hg
  · rename_i t hf
    obtain rfl := Option.some.inj hg
    exact ⟨⟨rfl, trivial⟩, by simpa [Known] using hd.funcs name t hf⟩
  split_ifs at hg
  · obtain rfl := Option.some.inj hg
    exact ⟨⟨rfl, trivial⟩, known_fileEnv_resolve hc hd hf (.name none name)⟩
  split at hg
  · rename_i kind t hv
    obtain rfl := Option.some.inj hg
    obtain ⟨hkind, htype⟩ := hd.values name _ hv
    exact ⟨⟨rfl, hkind⟩, htype.or fun u hu => hi name u hu⟩
  split at hg
  · rename_i imported himport
    obtain rfl := Option.some.inj hg
    exact ⟨⟨rfl, imports_typed hf name imported himport⟩, Known.none⟩
  rw [Option.orElse_eq_orElse, Option.orElse_eq_or, Option.or_eq_some_iff] at hg
  rcases hg with hdot | ⟨-, hu⟩
  · obtain ⟨path, hpath, hm⟩ := List.exists_of_findSome?_eq_some hdot
    obtain ⟨spec, hspec, -, rfl⟩ := Imports.mem_dotted_ofFile hpath
    exact h.member? (hf spec hspec name) hm
  · exact universe_typed hc hu

/-- **The files of a package** keep what the types of the index have. -/
theorem Index.Typed.keeps :
    Keeps (index.fileEnv decls inferred file) T (fun _ name symbol => symbol.Typed T name) where
  closed := hc
  known hq := hq.2
  var ht := ⟨⟨rfl, trivial⟩, ht⟩
  global hg := global?_typed hc h hd hi hf hg
  member {short imported path name symbol member} hq hkind hm := by
    have hpath : SymbolKind.Typed T (.package imported path) := hkind ▸ hq.1.2
    exact h.member? (hpath name) hm
  resolve := known_fileEnv_resolve hc hd hf
  memberType name ht := h.memberWithin hc name _ ht
  underlying := h.underlying

end Files

/-! ## Packages -/

theorem inferTypes_typed {inferred : Std.TreeMap String Ty} (hi : AllValues T inferred)
    (names : List Ident) {types : List (Option Ty)} (ht : ∀ t ∈ types, Known T t) :
    AllValues T (inferTypes inferred names types) := by
  refine List.foldlRecOn _ _ hi fun inferred hi entry he => ?_
  obtain ⟨name, t⟩ := entry
  have hknown := ht t (List.of_mem_zip he).2
  cases t with
  | none => exact hi
  | some t => exact hi.insert _ (hknown t rfl)

/-- What is known of a package after more of it has been checked. -/
structure Progress.Grows (T : Ty → Prop) (Q : MarkKind → String → Symbol → Prop) (marks : List Mark)
    (p p' : Progress) : Prop where
  inferred : AllValues T p'.inferred
  tables : p.tables.Grows T Q marks p'.tables

theorem SoundScopes.nil : SoundScopes Q [] := by simp [SoundScopes]

theorem checkValues_grows {env : FileEnv} {progress : Progress}
    (hk : Keeps { env with inferred := progress.inferred } T Q)
    (hp : AllValues T progress.inferred) (spec : ValueSpec) :
    progress.Grows T Q (specsMarks [spec]) (checkValues env progress spec) := by
  obtain ⟨names, type, values⟩ := spec
  obtain ⟨htypes, hvisited⟩ := visitExprs_visits hk values { tables := progress.tables } SoundScopes.nil
  refine ⟨?_, hvisited.tables.mono (by simp [specsMarks])⟩
  cases type with
  | some t => exact hp
  | none => exact inferTypes_typed hp names (known_spreadTypes hk _ htypes)

theorem checkDeclValues_grows (env : FileEnv) {progress : Progress}
    (hk : Keeps { env with inferred := progress.inferred } T Q)
    (hp : AllValues T progress.inferred) (decl : Decl) :
    progress.Grows T Q decl.marks (checkDeclValues env progress decl) := by
  cases decl with
  | var spec => exact checkValues_grows hk hp spec
  | const spec => exact checkValues_grows hk hp spec
  | func d => exact ⟨hp, .refl _ _⟩
  | type d => exact ⟨hp, .refl _ _⟩

theorem visitFunc_visits {env : FileEnv} (hk : Keeps env T Q) (func : FuncDecl) (body : List Stmt) :
    Visits T Q (stmtsMarks body) [] (fun _ => True) (visitFunc env func body) := by
  have hrest := (declareFields_visits hk func.params).bind fun _ _ =>
    (declareFields_visits hk func.results).bind fun _ _ => visitStmts_visits hk body
  unfold visitFunc
  cases func.recv with
  | none => exact (hrest.weaken (by simp) fun _ => id).inScope
  | some recv =>
    have hrecv := declareAll_visits hk (hk.resolve recv.type) recv.name.toList
    exact ((hrecv.bind fun _ _ => hrest).weaken (by simp) fun _ => id).inScope

theorem FuncDecl.marks_subset {func : FuncDecl} {body : List Stmt} (h : func.body = some body) :
    stmtsMarks body ⊆ func.marks := by
  intro m hm
  simp [FuncDecl.marks, h, hm]

theorem checkDeclBody_grows {env : FileEnv} (hk : Keeps env T Q) (tables : Tables) (decl : Decl) :
    tables.Grows T Q decl.marks (checkDeclBody env tables decl) := by
  unfold checkDeclBody
  split
  · rename_i func
    split
    · rename_i body hbody
      have hvisited := (visitFunc_visits hk func body { tables } SoundScopes.nil).2
      exact hvisited.tables.mono (FuncDecl.marks_subset hbody)
    · exact .refl _ _
  · exact .refl _ _

/-- The declarations of a package, each with its file. -/
def Package.decls (package : Package) : List (SourceFile × Decl) :=
  package.files.flatMap fun file => file.decls.map (file, ·)

theorem Package.mem_decls {package : Package} {file : SourceFile} {decl : Decl} :
    (file, decl) ∈ package.decls ↔ file ∈ package.files ∧ decl ∈ file.decls := by
  simp [Package.decls]

theorem Package.marks_eq (package : Package) :
    package.marks = package.decls.flatMap fun d => d.2.marks := by
  unfold Package.marks SourceFile.marks Package.decls
  simp [List.flatMap_assoc, List.flatMap_map]

theorem marks_subset_of_mem {ds : List (SourceFile × Decl)} {d : SourceFile × Decl} (h : d ∈ ds) :
    d.2.marks ⊆ ds.flatMap fun d => d.2.marks := fun _ hm => List.mem_flatMap.mpr ⟨d, h, hm⟩

namespace Index

/-- What is known after the initial values in some declarations have been visited. -/
def visitValues (index : Index) (decls : Declarations) (progress : Progress)
    (ds : List (SourceFile × Decl)) : Progress :=
  ds.foldl (fun progress d =>
    checkDeclValues (index.fileEnv decls progress.inferred d.1) progress d.2) progress

/-- The tables after the function bodies in some declarations have been visited. -/
def visitBodies (index : Index) (decls : Declarations) (inferred : Std.TreeMap String Ty)
    (tables : Tables) (ds : List (SourceFile × Decl)) : Tables :=
  ds.foldl (fun tables d => checkDeclBody (index.fileEnv decls inferred d.1) tables d.2) tables

theorem visitValues_cons (index : Index) (decls : Declarations) (progress : Progress)
    (d : SourceFile × Decl) (ds : List (SourceFile × Decl)) :
    index.visitValues decls progress (d :: ds) = index.visitValues decls
      (checkDeclValues (index.fileEnv decls progress.inferred d.1) progress d.2) ds := List.foldl_cons

theorem visitValues_append (index : Index) (decls : Declarations) (progress : Progress)
    (before after : List (SourceFile × Decl)) : index.visitValues decls progress (before ++ after) =
      index.visitValues decls (index.visitValues decls progress before) after := List.foldl_append

theorem check_eq {index : Index} {package : Package} {decls : Declarations}
    (h : index.packages[package.path]? = some decls) :
    index.check package =
      let progress := index.visitValues decls {} package.decls
      index.visitBodies decls progress.inferred progress.tables package.decls := by
  unfold Index.check visitValues visitBodies Package.decls
  rw [h]
  simp only [List.foldl_flatMap, List.foldl_map]
  -- The types that are inferred before a file play no part: those so far take their place.
  congr 3

section Checking

variable {index : Index} {decls : Declarations} {ds : List (SourceFile × Decl)}
  (hk : ∀ inferred, AllValues T inferred → ∀ d ∈ ds, Keeps (index.fileEnv decls inferred d.1) T Q)

include hk

theorem visitValues_grows (progress : Progress) (hp : AllValues T progress.inferred) :
    progress.Grows T Q (ds.flatMap fun d => d.2.marks) (index.visitValues decls progress ds) := by
  refine List.foldlRecOn ds _ ⟨hp, .refl _ _⟩ fun later hl d hd => ?_
  have hstep := checkDeclValues_grows (index.fileEnv decls later.inferred d.1)
    (hk later.inferred hl.inferred d hd) hl.inferred d.2
  exact ⟨hstep.inferred, hl.tables.trans (hstep.tables.mono (marks_subset_of_mem hd))⟩

theorem visitBodies_grows {inferred : Std.TreeMap String Ty} (hi : AllValues T inferred)
    (tables : Tables) : tables.Grows T Q (ds.flatMap fun d => d.2.marks)
      (index.visitBodies decls inferred tables ds) := by
  refine List.foldlRecOn ds _ (.refl _ _) fun later hl d hd => ?_
  have hstep := checkDeclBody_grows (hk inferred hi d hd) later d.2
  exact hl.trans (hstep.mono (marks_subset_of_mem hd))

end Checking

/-- **Each entry of the tables** is for a mark of the package. -/
theorem check_grows_of_files {index : Index} {package : Package}
    (hk : ∀ decls, index.packages[package.path]? = some decls → ∀ inferred, AllValues T inferred →
      ∀ file ∈ package.files, Keeps (index.fileEnv decls inferred file) T Q) :
    ({} : Tables).Grows T Q package.marks (index.check package) := by
  cases hd : index.packages[package.path]? with
  | none =>
    unfold Index.check
    rw [hd]
    exact .refl _ _
  | some decls =>
    have hkeeps := fun inferred hi (d : SourceFile × Decl) (hmem : d ∈ package.decls) =>
      hk decls hd inferred hi d.1 (Package.mem_decls.mp hmem).1
    have hvalues := visitValues_grows hkeeps {} AllValues.empty
    rw [check_eq hd, package.marks_eq]
    exact hvalues.tables.trans (visitBodies_grows hkeeps hvalues.inferred _)

theorem check_grows {index : Index} {package : Package}
    (hk : ∀ decls, index.packages[package.path]? = some decls → ∀ inferred, AllValues T inferred →
      ∀ file, Keeps (index.fileEnv decls inferred file) T Q) :
    ({} : Tables).Grows T Q package.marks (index.check package) :=
  check_grows_of_files fun decls hd inferred hi file _ => hk decls hd inferred hi file

end Index

end GoCalls
