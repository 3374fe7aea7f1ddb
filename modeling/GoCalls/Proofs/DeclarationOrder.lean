import GoCalls.Proofs.TopNames
import Mathlib.Data.List.Flatten
import Mathlib.Data.List.Nodup

/-!
# The order of declarations

What a package declares is collected file by file. Where its names differ, each declaration changes
what no other one changes, so the files may come in any order: the same is found under each name.

* `foldl_reorder`: steps that change places must commute, up to a relation.
* `Declarations.Collects`: a part of the declarations that is collected from entries for names.
* `Declarations.memberStep`: the members of a type, declaration by declaration.
* `Declarations.Same`, `Index.Same`: the same is found in two collections.
* **`Declarations.same_of_perm`**: files in another order declare the same.
-/

namespace GoCalls

/-! ## Folds in another order -/

theorem pair_sublist {α : Type} {a b : α} {front back : List α} (ha : a ∈ front) (hb : b ∈ back) :
    [a, b].Sublist (front ++ back) :=
  (List.singleton_sublist.mpr ha).append (List.singleton_sublist.mpr hb)

section Reorder

variable {α σ : Type} {R : σ → σ → Prop} (hR : Equivalence R) {f : σ → α → σ}

include hR

/-- A step that commutes with others can come first. -/
theorem foldl_step_first {front : List α} {a : α}
    (hcongr : ∀ b ∈ front, ∀ m m', R m m' → R (f m b) (f m' b))
    (hcomm : ∀ b ∈ front, ∀ m, R (f (f m a) b) (f (f m b) a)) (m : σ) :
    R (front.foldl f (f m a)) (f (front.foldl f m) a) := by
  induction front generalizing m with
  | nil => exact hR.refl _
  | cons b front ih =>
    obtain ⟨-, hcongr⟩ := List.forall_mem_cons.mp hcongr
    obtain ⟨hswap, hcomm⟩ := List.forall_mem_cons.mp hcomm
    rw [List.foldl_cons, List.foldl_cons]
    exact hR.trans (List.foldl_rel (hswap m) hcongr) (ih hcongr hcomm (f m b))

/-- **Steps in another order** give the same, if each two that change places commute. -/
theorem foldl_reorder {l l' : List α} (hperm : l'.Perm l)
    (hcongr : ∀ a ∈ l, ∀ m m', R m m' → R (f m a) (f m' a))
    (hcomm : ∀ a b, a ≠ b → [a, b].Sublist l → [b, a].Sublist l' →
      ∀ m, R (f (f m a) b) (f (f m b) a)) (m : σ) :
    R (l.foldl f m) (l'.foldl f m) := by
  induction l generalizing l' m with
  | nil =>
    obtain rfl := hperm.eq_nil
    exact hR.refl _
  | cons a l ih =>
    -- The first step of the one order is somewhere in the other, after steps that it commutes with.
    obtain ⟨front, back, rfl, hfirst⟩ :=
      List.eq_append_cons_of_mem (hperm.mem_iff.mpr List.mem_cons_self)
    have hrest : (front ++ back).Perm l := (List.perm_middle.symm.trans hperm).cons_inv
    have hfront : ∀ b ∈ front, b ∈ l := fun b hb => hrest.mem_iff.mp (List.mem_append_left _ hb)
    have hback : ∀ b ∈ back, b ∈ l := fun b hb => hrest.mem_iff.mp (List.mem_append_right _ hb)
    obtain ⟨-, hcongr⟩ := List.forall_mem_cons.mp hcongr
    have hmove : R (front.foldl f (f m a)) (f (front.foldl f m) a) := by
      refine foldl_step_first hR (fun b hb => hcongr b (hfront b hb)) (fun b hb => ?_) m
      refine hcomm a b (fun he => hfirst (he ▸ hb)) ?_ ?_
      · exact (List.singleton_sublist.mpr (hfront b hb)).cons_cons a
      · exact pair_sublist hb List.mem_cons_self
    have hshorter := ih hrest hcongr (fun b c hne hbc hcb => hcomm b c hne (hbc.cons a)
      (hcb.trans (List.Sublist.append_left (List.sublist_cons_self a back) front))) (f m a)
    rw [List.foldl_append] at hshorter
    rw [List.foldl_cons, List.foldl_append, List.foldl_cons]
    exact hR.trans hshorter (List.foldl_rel hmove fun b hb => hcongr b (hback b hb))

end Reorder

/-- A map with more entries. -/
def addEntries {β : Type} (m : Std.TreeMap String β) (entries : List (String × β)) :
    Std.TreeMap String β := entries.foldl (fun m entry => m.insert entry.1 entry.2) m

section Entries

variable {β : Type} {entries : List (String × β)} {key : String} {value : β}

theorem addEntries_append (m : Std.TreeMap String β) (front back : List (String × β)) :
    addEntries m (front ++ back) = addEntries (addEntries m front) back := List.foldl_append

theorem mem_of_addEntries (h : (addEntries ∅ entries)[key]? = some value) :
    (key, value) ∈ entries := by
  revert h
  refine List.foldlRecOn (motive := fun m : Std.TreeMap String β => m[key]? = some value → _)
    entries _ (fun h => ?_) fun m hm entry hentry h => ?_
  · simp at h
  · rw [Std.TreeMap.getElem?_insert] at h
    split_ifs at h with hkey
    · obtain rfl : entry.1 = key := by simpa using hkey
      obtain rfl := Option.some.inj h
      exact hentry
    · exact hm h

/-- Entries with different keys may come in any order. -/
theorem getElem?_addEntries_of_perm {others : List (String × β)} (hperm : others.Perm entries)
    (hkeys : (entries.map (·.1)).Nodup) (key : String) :
    (addEntries ∅ others)[key]? = (addEntries ∅ entries)[key]? := by
  have hkeys' := (hperm.map (·.1)).nodup_iff.mpr hkeys
  by_cases hkey : key ∈ entries.map (·.1)
  · obtain ⟨entry, hentry, rfl⟩ := List.mem_map.mp hkey
    exact (getElem?_foldl_insert _ _ others hkeys' (hperm.mem_iff.mpr hentry) ∅).trans
      (getElem?_foldl_insert _ _ entries hkeys hentry ∅).symm
  · have hkey' : key ∉ others.map (·.1) := fun h => hkey ((hperm.map _).mem_iff.mp h)
    exact (getElem?_foldl_insert_of_notMem _ _ others hkey' ∅).trans
      (getElem?_foldl_insert_of_notMem _ _ entries hkey ∅).symm

end Entries

/-! ## Types as written -/

/-- Types stand for the same where the same is known. -/
theorem TypeEnv.resolve_congr {env other : TypeEnv} (hpackage : other.package = env.package)
    (hpath : other.path = env.path) (himports : other.imports = env.imports)
    (hlocal : ∀ name : String, other.localTypes[name]? = env.localTypes[name]?) (t : TypeExpr) :
    other.resolve t = env.resolve t := by
  have hwithin (fuel : Nat) : ∀ t, other.resolveWithin fuel t = env.resolveWithin fuel t := by
    induction fuel with
    | zero => exact fun _ => rfl
    | succ fuel ih =>
      intro t
      unfold TypeEnv.resolveWithin
      simp only [ih, hlocal, hpackage, hpath, himports]
  exact hwithin _ t

/-- The package with its files in another order, or with other files. -/
def Package.withFiles (package : Package) (files : List SourceFile) : Package :=
  { package with files }

theorem Package.decls_withFiles_perm {package : Package} {files : List SourceFile}
    (h : files.Perm package.files) : (package.withFiles files).decls.Perm package.decls :=
  h.flatMap_right _

theorem Package.topNames_eq (package : Package) : package.topNames =
    package.files.flatMap fun file => file.decls.flatMap Decl.topNames := by
  unfold Package.topNames Package.decls
  simp [List.flatMap_assoc, List.flatMap_map]

namespace Declarations

variable {names : Std.TreeMap String String} {package : Package} {files : List SourceFile}

/-- The name of a type, with its target if it is an alias. -/
def typeItem? : Decl → Option (String × Option TypeExpr)
  | .type d => some (d.name.name, if d.isAlias then some d.type else none)
  | _ => none

theorem localTypes_ofPackage_eq : (ofPackage names package).localTypes =
    addEntries ∅ (package.decls.filterMap fun d => typeItem? d.2) := by
  rw [localTypes_ofPackage, addEntries, List.foldl_filterMap]
  refine List.foldl_ext _ _ _ fun known d _ => ?_
  cases hd : d.2 <;> rfl

theorem keys_filterMap_sublist {α β : Type} {f : α → Option (String × β)} {g : α → List String}
    (h : ∀ a entry, f a = some entry → entry.1 ∈ g a) (l : List α) :
    ((l.filterMap f).map (·.1)).Sublist (l.flatMap g) := by
  induction l with
  | nil => exact .slnil
  | cons a l ih =>
    rw [List.flatMap_cons]
    cases ha : f a with
    | none =>
      rw [List.filterMap_cons_none ha]
      exact ih.trans (List.sublist_append_right _ _)
    | some entry =>
      rw [List.filterMap_cons_some ha]
      exact (List.singleton_sublist.mpr (h a entry ha)).append ih

theorem mem_topNames_of_typeItem? {d : Decl} {item : String × Option TypeExpr}
    (h : typeItem? d = some item) : item.1 ∈ d.topNames := by
  cases d with
  | type d =>
    obtain rfl := Option.some.inj h
    exact List.mem_singleton_self _
  | _ => cases h

theorem localTypes_withFiles (htop : package.topNames.Nodup) (hperm : files.Perm package.files)
    (name : String) : (ofPackage names (package.withFiles files)).localTypes[name]? =
      (ofPackage names package).localTypes[name]? := by
  rw [localTypes_ofPackage_eq, localTypes_ofPackage_eq]
  refine getElem?_addEntries_of_perm ((Package.decls_withFiles_perm hperm).filterMap _) ?_ name
  exact htop.sublist (keys_filterMap_sublist (fun _ _ h => mem_topNames_of_typeItem? h) package.decls)

/-- What types stand for does not depend on the order of the files. -/
theorem resolve_withFiles (htop : package.topNames.Nodup) (hperm : files.Perm package.files)
    (file : SourceFile) (t : TypeExpr) :
    ((start (package.withFiles files)).typeEnv names file).resolve t =
      ((start package).typeEnv names file).resolve t := by
  have hlocal (name : String) : (start (package.withFiles files)).localTypes[name]? =
      (start package).localTypes[name]? := by
    have henv := @typeEnv_ofPackage names (package.withFiles files) file
    have henv' := @typeEnv_ofPackage names package file
    exact (congrArg (·.localTypes[name]?) henv).symm.trans
      ((localTypes_withFiles htop hperm name).trans (congrArg (·.localTypes[name]?) henv'))
  exact @TypeEnv.resolve_congr ((start package).typeEnv names file)
    ((start (package.withFiles files)).typeEnv names file) rfl rfl rfl hlocal t

/-! ## Parts that are collected from entries -/

/-- A part of the declarations that is collected file by file, from entries for declared names. -/
structure Collects {β : Type} (part : Declarations → Std.TreeMap String β)
    (entries : TypeEnv → List Decl → List (String × β)) : Prop where
  start (package : Package) : part (start package) = ∅
  step (env : TypeEnv) (decls : Declarations) (ds : List Decl) :
    part (addDecls env none decls ds) = addEntries (part decls) (entries env ds)
  keys (env : TypeEnv) (ds : List Decl) :
    ((entries env ds).map (·.1)).Sublist (ds.flatMap Decl.topNames)
  congr {env other : TypeEnv} : (∀ t, other.resolve t = env.resolve t) →
    ∀ ds, entries other ds = entries env ds

namespace Collects

variable {β : Type} {part : Declarations → Std.TreeMap String β}
  {entries : TypeEnv → List Decl → List (String × β)} (h : Collects part entries)

include h

theorem ofPackage : part (ofPackage names package) = addEntries ∅ (package.files.flatMap fun file =>
    entries ((Declarations.start package).typeEnv names file) file.decls) := by
  have hfiles (files : List SourceFile) (decls : Declarations) :
      part (files.foldl (fun decls file =>
        addDecls ((Declarations.start package).typeEnv names file) none decls file.decls) decls) =
        addEntries (part decls) (files.flatMap fun file =>
          entries ((Declarations.start package).typeEnv names file) file.decls) := by
    induction files generalizing decls with
    | nil => rfl
    | cons file files ih => rw [List.foldl_cons, ih, h.step, List.flatMap_cons, addEntries_append]
  rw [ofPackage_eq, hfiles, h.start]

theorem keys_nodup (htop : package.topNames.Nodup) : ((package.files.flatMap fun file =>
    entries ((Declarations.start package).typeEnv names file) file.decls).map (·.1)).Nodup := by
  rw [Package.topNames_eq] at htop
  rw [List.map_flatMap]
  exact htop.sublist (.flatMap_right _ fun file _ => h.keys _ file.decls)

theorem withFiles (htop : package.topNames.Nodup) (hperm : files.Perm package.files)
    (name : String) :
    (part (Declarations.ofPackage names (package.withFiles files)))[name]? =
      (part (Declarations.ofPackage names package))[name]? := by
  have hentries : ((package.withFiles files).files.flatMap fun file =>
      entries ((Declarations.start (package.withFiles files)).typeEnv names file) file.decls) =
      files.flatMap fun file =>
        entries ((Declarations.start package).typeEnv names file) file.decls := by
    refine List.flatMap_congr fun file _ => ?_
    exact h.congr (resolve_withFiles htop hperm file) file.decls
  rw [h.ofPackage, h.ofPackage, hentries]
  exact getElem?_addEntries_of_perm (hperm.flatMap_right _) (h.keys_nodup htop) name

end Collects

/-- A function, with its type. -/
def funcItem? (env : TypeEnv) : Decl → Option (String × Ty)
  | .func d =>
    match d.recv.bind Receiver.typeName with
    | some _ => none
    | none => some (d.name.name, env.signature d.results)
  | _ => none

theorem funcs_addDecls (env : TypeEnv) (last : Option Ty) (decls : Declarations) (ds : List Decl) :
    (addDecls env last decls ds).funcs =
      addEntries decls.funcs (ds.filterMap (funcItem? env)) := by
  fun_induction addDecls env last decls ds with
  | case1 => rfl
  | case2 last decls d rest _ target _ ih => exact ih
  | case3 last decls d rest _ _ ih => exact ih
  | case4 last decls d rest _ ih => exact ih
  | case5 last decls d rest ih =>
    rw [ih]
    unfold addFunc
    dsimp only
    split
    · rename_i recv hrecv
      rw [List.filterMap_cons_none (by simp [funcItem?, hrecv])]
      rfl
    · rename_i hrecv
      have hentry : funcItem? env (.func d) = some (d.name.name, env.signature d.results) := by
        simp [funcItem?, hrecv]
      rw [List.filterMap_cons_some hentry]
      rfl
  | case6 last decls ids t values rest ih => exact ih
  | case7 last decls ids t values rest type ih => exact ih

theorem mem_topNames_of_funcItem? {env : TypeEnv} {d : Decl} {item : String × Ty}
    (h : funcItem? env d = some item) : item.1 ∈ d.topNames := by
  cases d with
  | func d =>
    unfold funcItem? at h
    dsimp only at h
    split at h
    · cases h
    · rename_i hrecv
      obtain rfl := Option.some.inj h
      simp [Decl.topNames, hrecv]
  | _ => cases h

theorem collects_funcs : Collects (·.funcs) fun env ds => ds.filterMap (funcItem? env) where
  start _ := rfl
  step env decls ds := funcs_addDecls env none decls ds
  keys env ds := keys_filterMap_sublist (fun _ _ h => mem_topNames_of_funcItem? h) ds
  congr {env other} hresolve ds := by
    have hentry : funcItem? other = funcItem? env := by
      funext d
      unfold funcItem?
      simp only [TypeEnv.signature_congr hresolve]
    rw [hentry]

/-- An alias, with its target if that is known. -/
def aliasItem? (env : TypeEnv) : Decl → Option (String × Ty)
  | .type d =>
    if d.isAlias then (env.resolve d.type).map fun target => (d.name.name, target) else none
  | _ => none

theorem collects_aliases : Collects (·.aliases) fun env ds => ds.filterMap (aliasItem? env) where
  start _ := rfl
  step env decls ds := by
    rw [aliases_addDecls, addEntries, List.foldl_filterMap]
    refine List.foldl_ext _ _ _ fun aliases d _ => ?_
    cases d with
    | type d =>
      unfold addAlias aliasItem?
      dsimp only
      split_ifs
      · cases env.resolve d.type <;> rfl
      · rfl
    | _ => rfl
  keys env ds := by
    refine keys_filterMap_sublist (fun d entry he => ?_) ds
    cases d with
    | type d =>
      unfold aliasItem? at he
      dsimp only at he
      split_ifs at he
      obtain ⟨target, -, rfl⟩ := Option.map_eq_some_iff.mp he
      exact List.mem_singleton_self _
    | _ => cases he
  congr {env other} hresolve ds := by
    have hentry : aliasItem? other = aliasItem? env := by
      funext d
      unfold aliasItem?
      simp only [hresolve]
    rw [hentry]

/-- Variables and constants with their types, where `last` is the type of the constants before. -/
def valueEntries (env : TypeEnv) (last : Option Ty) :
    List Decl → List (String × SymbolKind × Option Ty)
  | [] => []
  | .var (.mk names t _) :: rest =>
    names.map (fun i => (i.name, .var, t.bind env.resolve)) ++ valueEntries env last rest
  | .const spec@(.mk names _ _) :: rest =>
    names.map (fun i => (i.name, .const, constType env last spec)) ++
      valueEntries env (constType env last spec) rest
  | .func _ :: rest | .type _ :: rest => valueEntries env last rest

theorem addEntries_addValues (decls : Declarations) (kind : SymbolKind) (t : Option Ty)
    (is : List Ident) : (decls.addValues kind t is).values =
      addEntries decls.values (is.map fun i => (i.name, kind, t)) := by
  unfold addValues addEntries
  rw [List.foldl_map]

theorem values_addFunc (env : TypeEnv) (decls : Declarations) (func : FuncDecl) :
    (addFunc env decls func).values = decls.values := by
  unfold addFunc
  dsimp only
  split <;> rfl

theorem values_addDecls (env : TypeEnv) (last : Option Ty) (decls : Declarations) (ds : List Decl) :
    (addDecls env last decls ds).values = addEntries decls.values (valueEntries env last ds) := by
  fun_induction addDecls env last decls ds with
  | case1 => rfl
  | case2 last decls d rest _ target _ ih => exact ih
  | case3 last decls d rest _ _ ih => exact ih
  | case4 last decls d rest _ ih => exact ih
  | case5 last decls d rest ih =>
    rw [ih, values_addFunc]
    rfl
  | case6 last decls ids t values rest ih =>
    rw [ih, addEntries_addValues, ← addEntries_append]
    rfl
  | case7 last decls ids t values rest type ih =>
    rw [ih, addEntries_addValues, ← addEntries_append]
    rfl

theorem keys_valueEntries (env : TypeEnv) (last : Option Ty) (ds : List Decl) :
    ((valueEntries env last ds).map (·.1)).Sublist (ds.flatMap Decl.topNames) := by
  fun_induction valueEntries env last ds with
  | case1 => exact .slnil
  | case2 last ids t values rest ih =>
    rw [List.map_append, List.map_map, List.flatMap_cons]
    exact (List.Sublist.refl _).append ih
  | case3 last ids t values rest ih =>
    rw [List.map_append, List.map_map, List.flatMap_cons]
    exact (List.Sublist.refl _).append ih
  | case4 last d rest ih => exact ih.trans (List.sublist_append_right _ _)
  | case5 last d rest ih => exact ih.trans (List.sublist_append_right _ _)

theorem valueEntries_congr {env other : TypeEnv} (h : ∀ t, other.resolve t = env.resolve t)
    (last : Option Ty) (ds : List Decl) :
    valueEntries other last ds = valueEntries env last ds := by
  have hresolve : other.resolve = env.resolve := funext h
  have hconst (last : Option Ty) (spec : ValueSpec) :
      constType other last spec = constType env last spec := by
    unfold constType
    simp only [h]
  fun_induction valueEntries env last ds with
  | case1 => rfl
  | case2 last ids t values rest ih => rw [valueEntries, ih, hresolve]
  | case3 last ids t values rest ih => rw [valueEntries, hconst, ih]
  | case4 last d rest ih => rw [valueEntries, ih]
  | case5 last d rest ih => rw [valueEntries, ih]

theorem collects_values : Collects (·.values) fun env ds => valueEntries env none ds where
  start _ := rfl
  step env decls ds := values_addDecls env none decls ds
  keys env ds := keys_valueEntries env none ds
  congr hresolve ds := valueEntries_congr hresolve none ds

end Declarations

/-! ## Members of types -/

/-- The same members are found in two declared types. -/
structure NamedDecl.Same (decl other : NamedDecl) : Prop where
  underlying : other.underlying = decl.underlying
  fields : other.fields = decl.fields
  methods (name : String) : other.methods[name]? = decl.methods[name]?

namespace NamedDecl

theorem same_equivalence : Equivalence NamedDecl.Same where
  refl _ := ⟨rfl, rfl, fun _ => rfl⟩
  symm h := ⟨h.underlying.symm, h.fields.symm, fun name => (h.methods name).symm⟩
  trans h h' := ⟨h'.underlying.trans h.underlying, h'.fields.trans h.fields,
    fun name => (h'.methods name).trans (h.methods name)⟩

/-- The type with one more method. -/
def addMethod (decl : NamedDecl) (name : String) (type : Ty) : NamedDecl :=
  { decl with methods := decl.methods.insert name type }

theorem getElem?_addMethod (decl : NamedDecl) (name other : String) (type : Ty) :
    (decl.addMethod name type).methods[other]? =
      if name = other then some type else decl.methods[other]? := by
  rw [addMethod, Std.TreeMap.getElem?_insert]
  simp

theorem getElem?_foldl_insertIfNew (names : List String) (type : Ty) (m : Std.TreeMap String Ty)
    (name : String) : (names.foldl (fun m name => m.insertIfNew name type) m)[name]? =
      m[name]?.or (if name ∈ names then some type else none) := by
  induction names generalizing m with
  | nil => simp
  | cons first names ih =>
    rw [List.foldl_cons, ih, Std.TreeMap.getElem?_insertIfNew]
    by_cases hfirst : first = name
    · subst hfirst
      by_cases hmem : first ∈ m
      · simp [hmem]
      · simp [hmem]
    · simp [hfirst, Ne.symm hfirst]

variable {decl other : NamedDecl}

theorem Same.define (h : decl.Same other) (env : TypeEnv) (t : TypeExpr) :
    (decl.define env t).Same (other.define env t) := by
  unfold NamedDecl.define
  split
  · exact ⟨h.underlying, by rw [h.fields], h.methods⟩
  · refine ⟨h.underlying, h.fields, fun name => ?_⟩
    rw [getElem?_foldl_insertIfNew, getElem?_foldl_insertIfNew, h.methods]
  · exact ⟨rfl, h.fields, h.methods⟩

theorem Same.addMethod (h : decl.Same other) (name : String) (type : Ty) :
    (decl.addMethod name type).Same (other.addMethod name type) := by
  refine ⟨h.underlying, h.fields, fun k => ?_⟩
  rw [getElem?_addMethod, getElem?_addMethod, h.methods]

/-- A method that is declared counts, also for an interface that names it. -/
theorem define_addMethod (decl : NamedDecl) (env : TypeEnv) (t : TypeExpr) (name : String)
    (type : Ty) : ((decl.define env t).addMethod name type).Same
      ((decl.addMethod name type).define env t) := by
  unfold NamedDecl.define
  split
  · exact ⟨rfl, rfl, fun _ => rfl⟩
  · refine ⟨rfl, rfl, fun k => ?_⟩
    rw [getElem?_addMethod, getElem?_foldl_insertIfNew, getElem?_foldl_insertIfNew,
      getElem?_addMethod]
    split_ifs <;> simp
  · exact ⟨rfl, rfl, fun _ => rfl⟩

theorem addMethod_addMethod (decl : NamedDecl) {name name' : String} (h : name ≠ name')
    (type type' : Ty) : ((decl.addMethod name type).addMethod name' type').Same
      ((decl.addMethod name' type').addMethod name type) := by
  refine ⟨rfl, rfl, fun k => ?_⟩
  simp only [getElem?_addMethod]
  by_cases hk : name = k
  · subst hk
    simp [h.symm]
  · simp [hk]

end NamedDecl

/-- The type and the name of a method. -/
def Decl.methodKey? : Decl → Option (String × String)
  | .func d => (d.recv.bind Receiver.typeName).map (·, d.name.name)
  | _ => none

def Package.methodKeys (package : Package) : List (String × String) :=
  package.decls.filterMap fun d => d.2.methodKey?

namespace Declarations

variable {names : Std.TreeMap String String} {package : Package} {files : List SourceFile}

/-- The members that are known of a type. -/
def members (decls : Declarations) (type : String) : NamedDecl := decls.types[type]?.getD {}

theorem members_modifyType (decls : Declarations) (name type : String) (f : NamedDecl → NamedDecl) :
    (decls.modifyType name f).members type =
      if name = type then f (decls.members type) else decls.members type := by
  unfold members modifyType
  rw [Std.TreeMap.getElem?_insert]
  by_cases h : name = type
  · subst h
    simp
  · simp [h]

/-- The members of a type, with those of one more declaration. -/
def memberStep (env : TypeEnv) (type : String) (decl : NamedDecl) : Decl → NamedDecl
  | .type d => if d.isAlias = false ∧ d.name.name = type then decl.define env d.type else decl
  | .func d =>
    if d.recv.bind Receiver.typeName = some type then
      decl.addMethod d.name.name (env.signature d.results)
    else decl
  | .var _ | .const _ => decl

theorem members_addFunc (env : TypeEnv) (decls : Declarations) (func : FuncDecl) (type : String) :
    (addFunc env decls func).members type =
      memberStep env type (decls.members type) (.func func) := by
  unfold addFunc memberStep
  dsimp only
  cases hrecv : func.recv.bind Receiver.typeName with
  | none => rfl
  | some recv =>
    rw [members_modifyType]
    simp only [Option.some.injEq]
    rfl

theorem members_addDecls (env : TypeEnv) (last : Option Ty) (decls : Declarations) (ds : List Decl)
    (type : String) : (addDecls env last decls ds).members type =
      ds.foldl (memberStep env type) (decls.members type) := by
  fun_induction addDecls env last decls ds with
  | case1 => rfl
  | case2 last decls d rest halias target _ ih =>
    rw [ih, List.foldl_cons, memberStep, if_neg (by simp [halias])]
    rfl
  | case3 last decls d rest halias _ ih =>
    rw [ih, List.foldl_cons, memberStep, if_neg (by simp [halias])]
  | case4 last decls d rest halias ih =>
    rw [ih, List.foldl_cons, memberStep, members_modifyType]
    simp [halias]
  | case5 last decls d rest ih => rw [ih, List.foldl_cons, members_addFunc]
  | case6 last decls ids t values rest ih => exact ih
  | case7 last decls ids t values rest constant ih => exact ih

theorem members_ofPackage (type : String) : (ofPackage names package).members type =
    package.decls.foldl
      (fun decl d => memberStep ((start package).typeEnv names d.1) type decl d.2) {} := by
  have hfiles (files : List SourceFile) (decls : Declarations) :
      (files.foldl (fun decls file =>
        addDecls ((start package).typeEnv names file) none decls file.decls) decls).members type =
        files.foldl (fun decl file =>
          file.decls.foldl (memberStep ((start package).typeEnv names file) type) decl)
          (decls.members type) := by
    induction files generalizing decls with
    | nil => rfl
    | cons file files ih => rw [List.foldl_cons, ih, members_addDecls, List.foldl_cons]
  rw [ofPackage_eq, hfiles, Package.decls, List.foldl_flatMap]
  simp only [List.foldl_map]
  rfl

theorem memberStep_congr {env other : TypeEnv} (h : ∀ t, other.resolve t = env.resolve t)
    (type : String) : memberStep other type = memberStep env type := by
  have hfield : fieldDecl? other = fieldDecl? env := by
    funext field
    unfold fieldDecl?
    simp only [h]
  have hdefine (decl : NamedDecl) (t : TypeExpr) : decl.define other t = decl.define env t := by
    unfold NamedDecl.define
    simp only [hfield, h]
  funext decl d
  unfold memberStep
  simp only [hdefine, TypeEnv.signature_congr h]

theorem memberStep_same (env : TypeEnv) (type : String) (d : Decl) {decl other : NamedDecl}
    (h : decl.Same other) : (memberStep env type decl d).Same (memberStep env type other d) := by
  unfold memberStep
  split
  · split_ifs
    · exact h.define env _
    · exact h
  · split_ifs
    · exact h.addMethod _ _
    · exact h
  all_goals exact h

/-- **Two declarations commute**, if they share no name and no method. -/
theorem memberStep_comm (env env' : TypeEnv) (type : String) {d d' : Decl}
    (htop : d.topNames.Disjoint d'.topNames)
    (hkey : ∀ key, d.methodKey? = some key → ∀ key', d'.methodKey? = some key' → key ≠ key')
    (decl : NamedDecl) :
    (memberStep env' type (memberStep env type decl d) d').Same
      (memberStep env type (memberStep env' type decl d') d) := by
  have hrefl := NamedDecl.same_equivalence.refl
  cases d with
  | var spec => exact hrefl _
  | const spec => exact hrefl _
  | type d =>
    cases d' with
    | var spec => exact hrefl _
    | const spec => exact hrefl _
    | type d' =>
      have hne : d.name.name ≠ d'.name.name := fun he =>
        htop List.mem_cons_self (he ▸ List.mem_cons_self)
      unfold memberStep
      dsimp only
      split_ifs with h h'
      · exact absurd (h'.2.trans h.2.symm) hne
      all_goals exact hrefl _
    | func d' =>
      unfold memberStep
      dsimp only
      split_ifs
      · exact NamedDecl.define_addMethod _ _ _ _ _
      all_goals exact hrefl _
  | func d =>
    cases d' with
    | var spec => exact hrefl _
    | const spec => exact hrefl _
    | type d' =>
      unfold memberStep
      dsimp only
      split_ifs
      · exact NamedDecl.same_equivalence.symm (NamedDecl.define_addMethod _ _ _ _ _)
      all_goals exact hrefl _
    | func d' =>
      unfold memberStep
      dsimp only
      split_ifs with h h'
      · have hne : d.name.name ≠ d'.name.name := by
          intro he
          refine hkey (type, d.name.name) ?_ (type, d'.name.name) ?_ (by rw [he])
          · rw [Decl.methodKey?, h']
            rfl
          · rw [Decl.methodKey?, h]
            rfl
        exact NamedDecl.addMethod_addMethod _ hne _ _
      all_goals exact hrefl _

/-! ## Collections with the same contents -/

/-- The same is found in two collections of declarations. -/
structure Same (decls other : Declarations) : Prop where
  name : other.name = decls.name
  path : other.path = decls.path
  localTypes (name : String) : other.localTypes[name]? = decls.localTypes[name]?
  members (type : String) : (decls.members type).Same (other.members type)
  aliases (name : String) : other.aliases[name]? = decls.aliases[name]?
  funcs (name : String) : other.funcs[name]? = decls.funcs[name]?
  values (name : String) : other.values[name]? = decls.values[name]?

theorem Same.refl (decls : Declarations) : decls.Same decls :=
  ⟨rfl, rfl, fun _ => rfl, fun _ => NamedDecl.same_equivalence.refl _, fun _ => rfl, fun _ => rfl,
    fun _ => rfl⟩

theorem name_ofPackage : (ofPackage names package).name = package.name :=
  congrArg TypeEnv.package (typeEnv_ofPackage ⟨"", "", [], []⟩)

theorem path_ofPackage : (ofPackage names package).path = package.path :=
  congrArg TypeEnv.path (typeEnv_ofPackage ⟨"", "", [], []⟩)

/-- **Files in another order declare the same.** -/
theorem same_of_perm (htop : package.topNames.Nodup) (hmethods : package.methodKeys.Nodup)
    (hperm : files.Perm package.files) :
    (ofPackage names package).Same (ofPackage names (package.withFiles files)) where
  name := by
    rw [name_ofPackage, name_ofPackage]
    rfl
  path := by
    rw [path_ofPackage, path_ofPackage]
    rfl
  localTypes := localTypes_withFiles htop hperm
  members type := by
    let step (decl : NamedDecl) (d : SourceFile × Decl) : NamedDecl :=
      memberStep ((start package).typeEnv names d.1) type decl d.2
    have hsteps : (fun decl (d : SourceFile × Decl) =>
        memberStep ((start (package.withFiles files)).typeEnv names d.1) type decl d.2) = step := by
      funext decl d
      rw [memberStep_congr (resolve_withFiles htop hperm d.1)]
    have hdisjoint : package.decls.Pairwise fun d d' => d.2.topNames.Disjoint d'.2.topNames :=
      (List.nodup_flatMap.mp htop).2
    have hkeys : package.decls.Pairwise fun d d' => ∀ key, d.2.methodKey? = some key →
        ∀ key', d'.2.methodKey? = some key' → key ≠ key' := List.pairwise_filterMap.mp hmethods
    have hcomm (d d' : SourceFile × Decl) (hdd' : [d, d'].Sublist package.decls)
        (decl : NamedDecl) : (step (step decl d) d').Same (step (step decl d') d) := by
      have htop := List.pairwise_pair.mp (hdisjoint.sublist hdd')
      have hkey := List.pairwise_pair.mp (hkeys.sublist hdd')
      exact memberStep_comm _ _ type htop hkey decl
    have hcongr (d : SourceFile × Decl) (decl other : NamedDecl) (h : decl.Same other) :
        (step decl d).Same (step other d) := memberStep_same _ type d.2 h
    rw [members_ofPackage, members_ofPackage, hsteps]
    exact foldl_reorder NamedDecl.same_equivalence (Package.decls_withFiles_perm hperm)
      (fun d _ => hcongr d) (fun d d' _ hdd' _ => hcomm d d' hdd') {}
  aliases := collects_aliases.withFiles htop hperm
  funcs := collects_funcs.withFiles htop hperm
  values := collects_values.withFiles htop hperm

end Declarations

/-- The same is found in two indexes. -/
def Index.Same (index other : Index) : Prop :=
  ∀ path : String, Option.Rel Declarations.Same index.packages[path]? other.packages[path]?

namespace Index.Same

variable {index other : Index} (h : index.Same other)

include h

theorem member? (path name : String) : other.member? path name = index.member? path name := by
  have hpath := h path
  unfold Index.member?
  revert hpath
  generalize index.packages[path]? = found, other.packages[path]? = found'
  intro hpath
  cases hpath with
  | none => rfl
  | some hsame =>
    simp only [Option.bind_eq_bind, Option.bind_some, Std.TreeMap.contains_eq_isSome_getElem?,
      hsame.name, hsame.path, hsame.localTypes, hsame.aliases, hsame.funcs, hsame.values]

/-- What is read off the members of a type. -/
theorem bind_namedDecl? {β : Type} {f f' : NamedDecl → Option β} (hf : f {} = none)
    (hf' : f' {} = none) (hsame : ∀ decl decl', decl.Same decl' → f' decl' = f decl) (t : Ty) :
    (other.namedDecl? t).bind f' = (index.namedDecl? t).bind f := by
  have hread {g : NamedDecl → Option β} (hg : g {} = none) (decls : Declarations) (name : String) :
      decls.types[name]?.bind g = g (decls.members name) := by
    unfold Declarations.members
    cases decls.types[name]? with
    | none => exact hg.symm
    | some decl => rfl
  unfold Index.namedDecl?
  split
  · rename_i label path name
    have hpath := h path
    revert hpath
    generalize index.packages[path]? = found, other.packages[path]? = found'
    intro hpath
    cases hpath with
    | none => rfl
    | some hdecls =>
      simp only [Option.bind_eq_bind, Option.bind_some]
      rw [hread hf, hread hf']
      exact hsame _ _ (hdecls.members name)
  · rfl

theorem underlying (t : Ty) : other.underlying t = index.underlying t := by
  unfold Index.underlying
  rw [h.bind_namedDecl? rfl rfl fun _ _ hsame => hsame.underlying]

theorem memberWithin (name : String) (fuel : Nat) (t : Ty) :
    other.memberWithin name fuel t = index.memberWithin name fuel t := by
  induction fuel generalizing t with
  | zero => rfl
  | succ fuel ih =>
    unfold Index.memberWithin
    split
    · rfl
    · refine h.bind_namedDecl? (by simp) (by simp) (fun decl decl' hsame => ?_) _
      simp only [hsame.methods, hsame.fields, ih]

theorem memberType (t : Ty) (name : String) : other.memberType t name = index.memberType t name :=
  h.memberWithin name _ t

end Index.Same

end GoCalls
