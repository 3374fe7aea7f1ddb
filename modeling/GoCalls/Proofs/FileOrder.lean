import GoCalls.Proofs.ParallelVisits
import GoCalls.Proofs.ReachableDeclarations
import GoCalls.Proofs.ValueReads

/-!
# The order of files

A package is checked file by file, first the initial values at top level and then the function
bodies. Initial values give types to the variables and constants that are declared without one, and
an initial value in a later file finds them, but not one in an earlier file. Nothing else depends on
the order of the files.

* `SourceFile.DependsOn`: an initial value reads what gets its type in another file.
* `Tables.Same`, `Progress.Same`: the same is found in two tables, and known of two packages.
* `Index.visitValues_news`, `Index.visitBodies_news`: the news of a file, in two runs.
* `Index.visitValues_of_keepsDependences`: files that do not depend on each other may change places.
* `Index.inferred_of_same`: the same tables come from the same types.
* **`check_of_file_order`**: the tables stay the same if and only if only such files change places.
-/

namespace GoCalls

/-! ## Dependence -/

/-- The declarations of some files, each with its file. -/
def located (files : List SourceFile) : List (SourceFile × Decl) :=
  files.flatMap fun file => file.decls.map (file, ·)

theorem located_append (files others : List SourceFile) :
    located (files ++ others) = located files ++ located others := List.flatMap_append

theorem located_perm {files others : List SourceFile} (h : files.Perm others) :
    (located files).Perm (located others) := h.flatMap_right _

namespace SourceFile

/-- The names that the initial values of a file read. -/
def reads (file : SourceFile) : List Mark := file.decls.flatMap Decl.reads

/-- The variables and constants of a file that get their types from initial values. -/
def untypedNames (file : SourceFile) : List String := file.decls.flatMap Decl.untypedNames

/-- An initial value of the file reads what gets its type from an initial value of the other file.
-/
def DependsOn (inferred : Std.TreeMap String Ty) (file other : SourceFile) : Prop :=
  ∃ mark ∈ file.reads, mark.name ∈ other.untypedNames ∧ mark.name ∈ inferred

instance (inferred : Std.TreeMap String Ty) (file other : SourceFile) :
    Decidable (file.DependsOn inferred other) :=
  inferInstanceAs (Decidable (∃ mark ∈ file.reads,
    mark.name ∈ other.untypedNames ∧ mark.name ∈ inferred))

end SourceFile

/-- Files change places only where they do not depend on each other. -/
def KeepsDependences (inferred : Std.TreeMap String Ty) (old new : List SourceFile) : Prop :=
  ∀ file other, file ≠ other → [file, other].Sublist old → [other, file].Sublist new →
    ¬ file.DependsOn inferred other ∧ ¬ other.DependsOn inferred file

/-- The types that the initial values of a package give. -/
def Index.inferred (index : Index) (package : Package) : Std.TreeMap String Ty :=
  match index.packages[package.path]? with
  | none => ∅
  | some decls => (index.visitValues decls {} package.decls).inferred

theorem Index.inferred_eq {index : Index} {package : Package} {decls : Declarations}
    (h : index.packages[package.path]? = some decls) :
    index.inferred package = (index.visitValues decls {} package.decls).inferred := by
  rw [Index.inferred, h]

/-! ## What is known -/

/-- The same is found in two tables. -/
structure Tables.Same (tables other : Tables) : Prop where
  uses (id : Nat) : other.uses[id]? = tables.uses[id]?
  selections (id : Nat) : other.selections[id]? = tables.selections[id]?

theorem Tables.same_equivalence : Equivalence Tables.Same where
  refl _ := ⟨fun _ => rfl, fun _ => rfl⟩
  symm h := ⟨fun id => (h.uses id).symm, fun id => (h.selections id).symm⟩
  trans h h' := ⟨fun id => (h'.uses id).trans (h.uses id),
    fun id => (h'.selections id).trans (h.selections id)⟩

theorem Tables.SameNews.same {old new old' new' : Tables} (h : Tables.SameNews old new old' new')
    (hold : old.Same old') : new.Same new' :=
  ⟨fun id => h.uses.eq (hold.uses id), fun id => h.selections.eq (hold.selections id)⟩

/-- The same is known in two states of checking a package. -/
structure Progress.Same (progress other : Progress) : Prop where
  inferred (name : String) : other.inferred[name]? = progress.inferred[name]?
  tables : progress.tables.Same other.tables

theorem Progress.same_equivalence : Equivalence Progress.Same where
  refl _ := ⟨fun _ => rfl, Tables.same_equivalence.refl _⟩
  symm h := ⟨fun name => (h.inferred name).symm, Tables.same_equivalence.symm h.tables⟩
  trans h h' := ⟨fun name => (h'.inferred name).trans (h.inferred name),
    Tables.same_equivalence.trans h.tables h'.tables⟩

/-- From two states of checking to two later ones, the same is new. -/
structure Progress.SameNews (old new old' new' : Progress) : Prop where
  inferred : GoCalls.SameNews old.inferred new.inferred old'.inferred new'.inferred
  tables : Tables.SameNews old.tables new.tables old'.tables new'.tables

theorem Progress.SameNews.trans {old mid new old' mid' new' : Progress}
    (h : Progress.SameNews old mid old' mid') (h' : Progress.SameNews mid new mid' new') :
    Progress.SameNews old new old' new' :=
  ⟨h.inferred.trans h'.inferred, h.tables.trans h'.tables⟩

theorem Progress.SameNews.same {old new old' new' : Progress}
    (h : Progress.SameNews old new old' new') (hold : old.Same old') : new.Same new' :=
  ⟨fun name => h.inferred.eq (hold.inferred name), h.tables.same hold.tables⟩

/-- **News for different keys** may come in either order. -/
theorem SameNews.swap {κ β : Type} [Ord κ] {m a b ab ba : Std.TreeMap κ β} (ha : SameNews m a b ba)
    (hb : SameNews m b a ab) (hkeep : ∀ k : κ, a[k]? = m[k]? ∧ ba[k]? = b[k]? ∨
      b[k]? = m[k]? ∧ ab[k]? = a[k]?) (k : κ) : ba[k]? = ab[k]? := by
  rcases hkeep k with ⟨hkept, hkept'⟩ | ⟨hkept, hkept'⟩
  · rcases hb k with ⟨hold, hold'⟩ | hsame
    · rw [hkept', hold, hold', hkept]
    · rw [hkept', hsame]
  · rcases ha k with ⟨hold, hold'⟩ | hsame
    · rw [hold', hkept, hkept', hold]
    · rw [hsame, hkept']

theorem Tables.SameNews.swap {T : Ty → Prop} {Q : MarkKind → String → Symbol → Prop}
    {marks marks' : List Mark} (hapart : Apart marks marks') {t a b ab ba : Tables}
    (ha : Tables.SameNews t a b ba) (hb : Tables.SameNews t b a ab)
    (hga : t.Grows T Q marks a) (hgba : b.Grows T Q marks ba)
    (hgb : t.Grows T Q marks' b) (hgab : a.Grows T Q marks' ab) : ab.Same ba := by
  have hor (id : Nat) : (∀ mark ∈ marks, mark.id ≠ id) ∨ ∀ mark ∈ marks', mark.id ≠ id := by
    by_cases hid : ∃ mark ∈ marks, mark.id = id
    · obtain ⟨mark, hmark, rfl⟩ := hid
      exact .inr fun mark' hmark' he => hapart mark hmark mark' hmark' he.symm
    · exact .inl fun mark hmark he => hid ⟨mark, hmark, he⟩
  have hkeep {marks : List Mark} {old new : Tables} (h : old.Grows T Q marks new) {id : Nat}
      (hid : ∀ mark ∈ marks, mark.id ≠ id) : new.uses[id]? = old.uses[id]? ∧
        new.selections[id]? = old.selections[id]? := by
    constructor
    · rcases h.uses id with he | ⟨kind, name, symbol, -, hmark, -⟩
      · exact he
      · exact absurd rfl (hid _ hmark)
    · rcases h.selections id with he | ⟨selection, hmark, -⟩
      · exact he
      · exact absurd rfl (hid _ hmark)
  refine ⟨ha.uses.swap hb.uses fun id => ?_, ha.selections.swap hb.selections fun id => ?_⟩
  · exact (hor id).imp (fun h => ⟨(hkeep hga h).1, (hkeep hgba h).1⟩)
      fun h => ⟨(hkeep hgb h).1, (hkeep hgab h).1⟩
  · exact (hor id).imp (fun h => ⟨(hkeep hga h).2, (hkeep hgba h).2⟩)
      fun h => ⟨(hkeep hgb h).2, (hkeep hgab h).2⟩

/-! ## The news of a file -/

theorem inferTypes_news (inferred inferred' : Std.TreeMap String Ty) (names : List Ident)
    {types types' : List (Option Ty)} (htypes : types' = types) :
    SameNews inferred (inferTypes inferred names types) inferred'
      (inferTypes inferred' names types') := by
  subst htypes
  unfold inferTypes
  refine List.foldl_rel (r := fun m m' => SameNews inferred m inferred' m') (.refl _ _) ?_
  rintro ⟨name, t⟩ - m m' h
  cases t with
  | none => exact h
  | some t => exact h.trans (.insert m m' name.name t)

section News

variable {index index' : Index} {decls decls' : Declarations} (hindex : index.Same index')
  (hnames : index'.names = index.names) (hdecls : decls.Same decls')

include hindex hnames hdecls

theorem Index.Same.fileEnv_alike (inferred inferred' : Std.TreeMap String Ty) (file : SourceFile) :
    (index.fileEnv decls inferred file).Alike (index'.fileEnv decls' inferred' file) where
  name := hdecls.name
  resolve := by
    funext t
    refine TypeEnv.resolve_congr hdecls.name hdecls.path ?_ hdecls.localTypes t
    unfold Index.fileEnv FileEnv.typeEnv
    rw [hnames]
  member := by
    funext path name
    exact hindex.member? path name
  memberType := by
    funext t name
    exact hindex.memberType t name
  underlying := by
    funext t
    exact hindex.underlying t

/-- Names stand for the same, if their types do. -/
theorem Index.Same.sameGlobals {inferred inferred' : Std.TreeMap String Ty} {marks : List Mark}
    (h : ∀ mark ∈ marks, inferred'[mark.name]? = inferred[mark.name]?) (file : SourceFile) :
    SameGlobals (index.fileEnv decls inferred file) (index'.fileEnv decls' inferred' file)
      marks := by
  intro mark hmark
  have hresolve := (hindex.fileEnv_alike hnames hdecls inferred inferred' file).resolve
  have himports : Imports.ofFile index'.names file = Imports.ofFile index.names file :=
    hnames ▸ rfl
  have hmember (path : String) : index'.member? path mark.name = index.member? path mark.name :=
    hindex.member? path mark.name
  unfold FileEnv.global?
  rw [hresolve]
  simp only [Index.fileEnv, Std.TreeMap.contains_eq_isSome_getElem?, hdecls.name, hdecls.funcs,
    hdecls.localTypes, hdecls.values, h mark hmark, himports, hmember]

theorem checkDeclValues_news (file : SourceFile) (d : Decl) {progress progress' : Progress}
    (h : SameGlobals (index.fileEnv decls progress.inferred file)
      (index'.fileEnv decls' progress'.inferred file) d.reads) :
    Progress.SameNews progress
      (checkDeclValues (index.fileEnv decls progress.inferred file) progress d) progress'
      (checkDeclValues (index'.fileEnv decls' progress'.inferred file) progress' d) := by
  have halike := hindex.fileEnv_alike hnames hdecls progress.inferred progress'.inferred file
  cases d with
  | var spec | const spec =>
    obtain ⟨names, t, values⟩ := spec
    have hend := visitExprs_alike halike [] values h { tables := progress.tables }
      { tables := progress'.tables } rfl (List.forall_mem_nil _) fun _ => rfl
    refine ⟨?_, hend.news⟩
    cases t with
    | some t => exact .refl _ _
    | none => exact inferTypes_news _ _ names (congrArg (spreadTypes names.length) hend.result)
  | func d | type d => exact ⟨.refl _ _, .refl _ _⟩

/-- **The news of initial values** are the same in two runs, where they read the same types. -/
theorem Index.visitValues_news (ds : List (SourceFile × Decl)) {progress progress' : Progress}
    (h : ∀ d ∈ ds, ∀ mark ∈ d.2.reads,
      progress'.inferred[mark.name]? = progress.inferred[mark.name]?) :
    Progress.SameNews progress (index.visitValues decls progress ds) progress'
      (index'.visitValues decls' progress' ds) := by
  induction ds generalizing progress progress' with
  | nil => exact ⟨.refl _ _, .refl _ _⟩
  | cons d ds ih =>
    obtain ⟨hd, hds⟩ := List.forall_mem_cons.mp h
    have hnews := checkDeclValues_news hindex hnames hdecls d.1 d.2
      (hindex.sameGlobals hnames hdecls hd d.1)
    rw [visitValues_cons, visitValues_cons]
    exact hnews.trans (ih fun e he mark hmark => hnews.inferred.eq (hds e he mark hmark))

theorem visitFunc_alike (inferred inferred' : Std.TreeMap String Ty)
    (h : ∀ name : String, inferred'[name]? = inferred[name]?) (file : SourceFile) (func : FuncDecl)
    (body : List Stmt) : Alike [] [] (visitFunc (index.fileEnv decls inferred file) func body)
      (visitFunc (index'.fileEnv decls' inferred' file) func body) := by
  have halike := hindex.fileEnv_alike hnames hdecls inferred inferred' file
  have hbody (names : List String) := (halike.declareFields func.params : Alike names _ _ _).bind
    fun _ => (halike.declareFields func.results).bind fun _ => visitStmts_alike halike _ body
      (hindex.sameGlobals hnames hdecls (fun mark _ => h mark.name) file)
  unfold visitFunc
  cases func.recv with
  | none => exact (hbody []).inScope
  | some recv =>
    dsimp only
    rw [halike.resolve]
    exact ((halike.declareAll _ recv.name.toList : Alike [] _ _ _).bind fun _ => hbody _).inScope

/-- **The news of function bodies** are the same in two runs, with the same types. -/
theorem Index.visitBodies_news {inferred inferred' : Std.TreeMap String Ty}
    (h : ∀ name : String, inferred'[name]? = inferred[name]?) (ds : List (SourceFile × Decl))
    (tables tables' : Tables) : Tables.SameNews tables (index.visitBodies decls inferred tables ds)
      tables' (index'.visitBodies decls' inferred' tables' ds) := by
  refine List.foldl_rel (r := fun t t' => Tables.SameNews tables t tables' t') (.refl _ _) ?_
  rintro ⟨file, d⟩ - t t' hnews
  refine hnews.trans ?_
  cases d with
  | func func =>
    unfold checkDeclBody
    dsimp only
    cases func.body with
    | none => exact .refl _ _
    | some body =>
      have halike := visitFunc_alike hindex hnames hdecls inferred inferred' h file func body
      exact (halike { tables := t } { tables := t' } rfl (List.forall_mem_nil _) fun _ => rfl).news
  | _ => exact .refl _ _

end News

/-! ## Function bodies of files that change places -/

theorem Index.Same.refl (index : Index) : index.Same index := by
  intro path
  cases index.packages[path]? with
  | none => exact .none
  | some decls => exact .some (Declarations.Same.refl decls)

theorem flatMap_located (file : SourceFile) :
    ((located [file]).flatMap fun d => d.2.marks) = file.marks := by
  unfold located SourceFile.marks
  rw [List.flatMap_singleton, List.flatMap_map]

section Places

variable (index : Index) (decls : Declarations) {file other : SourceFile}

theorem Index.visitBodies_frame (inferred : Std.TreeMap String Ty) (tables : Tables)
    (file : SourceFile) : tables.Grows (fun _ => True) (fun _ _ _ => True) file.marks
      (index.visitBodies decls inferred tables (located [file])) := by
  have hinferred : AllValues (fun _ => True) inferred := fun _ _ _ => trivial
  have hgrows : tables.Grows (fun _ => True) (fun _ _ _ => True)
      ((located [file]).flatMap fun d => d.2.marks)
      (index.visitBodies decls inferred tables (located [file])) :=
    Index.visitBodies_grows (fun _ _ _ _ => keeps_true _) hinferred tables
  rw [flatMap_located file] at hgrows
  exact hgrows

/-- **The function bodies of two files commute.** -/
theorem Index.visitBodies_comm (hapart : Apart file.marks other.marks)
    (inferred : Std.TreeMap String Ty) (tables : Tables) :
    (index.visitBodies decls inferred (index.visitBodies decls inferred tables (located [file]))
      (located [other])).Same
      (index.visitBodies decls inferred (index.visitBodies decls inferred tables (located [other]))
        (located [file])) := by
  have hnews := @Index.visitBodies_news index index decls decls (.refl index) rfl (.refl decls)
    inferred inferred fun _ => rfl
  have hframe := visitBodies_frame index decls inferred
  exact (hnews (located [file]) _ _).swap hapart (hnews (located [other]) _ _) (hframe _ file)
    (hframe _ file) (hframe _ other) (hframe _ other)

end Places

/-! ## Initial values of files that change places -/

section Values

variable {κ β : Type} [Ord κ] {keys keys' more : List κ} {whole : Std.TreeMap κ β}

/-- The same news make a larger part of the whole. -/
theorem SameNews.partOf {old new old' new' : Std.TreeMap κ β} (h : SameNews old new old' new')
    (hold : PartOf keys old whole) (hnew : PartOf (keys ++ more) new whole)
    (hold' : PartOf keys' old' whole) (hnew' : ChangesOnly more old' new')
    (hdisjoint : keys.Disjoint more) (hdisjoint' : keys'.Disjoint more) :
    PartOf (keys' ++ more) new' whole := by
  refine ⟨fun {k} hk => ?_, fun {k} hk => ?_⟩
  · by_cases hmore : k ∈ more
    · have hnone := hold.outside fun hkey => hdisjoint hkey hmore
      have hnone' := hold'.outside fun hkey => hdisjoint' hkey hmore
      rw [h.eq (hnone'.trans hnone.symm)]
      exact hnew.inside (List.mem_append_right _ hmore)
    · rw [hnew' k hmore]
      exact hold'.inside ((List.mem_append.mp hk).resolve_right hmore)
  · rw [List.mem_append, not_or] at hk
    rw [hnew' k hk.2]
    exact hold'.outside hk.1

end Values

theorem Progress.SameNews.partOf {old new old' new' whole : Progress}
    {ds ds' more : List (SourceFile × Decl)} (h : Progress.SameNews old new old' new')
    (hold : old.PartOf ds whole) (hnew : new.PartOf (ds ++ more) whole)
    (hold' : old'.PartOf ds' whole) (hnew' : old'.ChangesOnly more new')
    (hdistinct : Distinct (ds ++ more)) (hdistinct' : Distinct (ds' ++ more)) :
    new'.PartOf (ds' ++ more) whole := by
  obtain ⟨hinferred, huses, hselections⟩ := hnew
  rw [untypedNames_append] at hinferred
  rw [markIds_append] at huses hselections
  constructor
  · rw [untypedNames_append]
    exact h.inferred.partOf hold.inferred hinferred hold'.inferred hnew'.inferred
      hdistinct.names_disjoint hdistinct'.names_disjoint
  · rw [markIds_append]
    exact h.tables.uses.partOf hold.uses huses hold'.uses hnew'.uses hdistinct.ids_disjoint
      hdistinct'.ids_disjoint
  · rw [markIds_append]
    exact h.tables.selections.partOf hold.selections hselections hold'.selections
      hnew'.selections hdistinct.ids_disjoint hdistinct'.ids_disjoint

theorem mem_untypedNames_located {name : String} {files : List SourceFile} :
    name ∈ untypedNames (located files) ↔
      ∃ file ∈ files, name ∈ file.untypedNames := by
  unfold untypedNames SourceFile.untypedNames located
  rw [List.flatMap_assoc]
  simp only [List.flatMap_map, List.mem_flatMap]

theorem mem_reads_of_located {file : SourceFile} {d : SourceFile × Decl} (hd : d ∈ located [file])
    {mark : Mark} (hmark : mark ∈ d.2.reads) : mark ∈ file.reads := by
  rw [located, List.flatMap_singleton] at hd
  obtain ⟨decl, hdecl, rfl⟩ := List.mem_map.mp hd
  exact List.mem_flatMap.mpr ⟨decl, hdecl, hmark⟩

theorem Progress.PartOf.same {ds ds' : List (SourceFile × Decl)} {part whole : Progress}
    (h : part.PartOf ds' whole) (hperm : ds'.Perm ds)
    (hwhole : ({} : Progress).ChangesOnly ds whole) : whole.Same part := by
  have hnames := (hperm.flatMap_right fun d => d.2.untypedNames).symm.subset
  have hids := ((hperm.flatMap_right fun d => d.2.marks).map (·.id)).symm.subset
  exact ⟨h.inferred.eq_whole hnames hwhole.inferred, h.uses.eq_whole hids hwhole.uses,
    h.selections.eq_whole hids hwhole.selections⟩

theorem located_pair {file other : SourceFile} {files : List SourceFile}
    (h : [file, other].Sublist files) {d e : Decl} (hd : d ∈ file.decls) (he : e ∈ other.decls) :
    [(file, d), (other, e)].Sublist (located files) := by
  have hpair : [(file, d), (other, e)].Sublist (located [file, other]) := by
    rw [located, List.flatMap_cons, List.flatMap_singleton]
    exact pair_sublist (List.mem_map_of_mem hd) (List.mem_map_of_mem he)
  exact hpair.trans (h.flatMap _)

/-- A name that only one order has before a file belongs to a file that changes places with it. -/
theorem exists_swapped {name : String} {file : SourceFile}
    {before after before' after' : List SourceFile}
    (hdistinct : Distinct (located (before ++ file :: after)))
    (hsub : before ++ file :: after ⊆ before' ++ file :: after')
    (hname : name ∈ untypedNames (located before))
    (hname' : name ∉ untypedNames (located before')) :
    ∃ other, name ∈ other.untypedNames ∧ other ≠ file ∧
      [other, file].Sublist (before ++ file :: after) ∧
      [file, other].Sublist (before' ++ file :: after') := by
  obtain ⟨other, hother, hmem⟩ := mem_untypedNames_located.mp hname
  have hne : other ≠ file := by
    rintro rfl
    rw [located_append] at hdistinct
    exact hdistinct.names_disjoint hname
      (mem_untypedNames_located.mpr ⟨other, List.mem_cons_self, hmem⟩)
  have hafter : other ∈ after' := by
    rcases List.mem_append.mp (hsub (List.mem_append_left _ hother)) with hbefore | hrest
    · exact absurd (mem_untypedNames_located.mpr ⟨other, hbefore, hmem⟩) hname'
    · exact (List.mem_cons.mp hrest).resolve_left hne
  refine ⟨other, hmem, hne, pair_sublist hother List.mem_cons_self, ?_⟩
  exact ((List.singleton_sublist.mpr hafter).cons_cons file).trans (List.sublist_append_right _ _)

/-- At the start of a file the types that it reads are the same in two orders. -/
theorem KeepsDependences.inferred_eq {inferred start start' : Std.TreeMap String Ty}
    {file : SourceFile} {before after before' after' : List SourceFile}
    (h : KeepsDependences inferred (before ++ file :: after) (before' ++ file :: after'))
    (hperm : (before' ++ file :: after').Perm (before ++ file :: after))
    (hdistinct : Distinct (located (before ++ file :: after)))
    (hstart : PartOf (untypedNames (located before)) start inferred)
    (hstart' : PartOf (untypedNames (located before')) start' inferred)
    {mark : Mark} (hmark : mark ∈ file.reads) : start'[mark.name]? = start[mark.name]? := by
  have hdistinct' := hdistinct.perm (located_perm hperm)
  refine hstart.eq hstart' fun hone => Std.TreeMap.getElem?_eq_none fun hinferred => ?_
  rcases hone with ⟨hbefore, hbefore'⟩ | ⟨hbefore, hbefore'⟩
  · obtain ⟨other, hname, hne, hold, hnew⟩ :=
      exists_swapped hdistinct hperm.symm.subset hbefore hbefore'
    exact (h other file hne hold hnew).2 ⟨mark, hmark, hname, hinferred⟩
  · obtain ⟨other, hname, hne, hnew, hold⟩ :=
      exists_swapped hdistinct' hperm.subset hbefore' hbefore
    exact (h file other hne.symm hold hnew).1 ⟨mark, hmark, hname, hinferred⟩

section Order

variable (index : Index) (decls : Declarations)

/-- One file along the new order. -/
theorem Index.visitValues_partOf_of_keepsDependences {file : SourceFile}
    {before after before' after' : List SourceFile}
    (hperm : (before' ++ file :: after').Perm (before ++ file :: after))
    (hdistinct : Distinct (located (before ++ file :: after)))
    (h : KeepsDependences (index.visitValues decls {} (located (before ++ file :: after))).inferred
      (before ++ file :: after) (before' ++ file :: after'))
    (hstart' : (index.visitValues decls {} (located before')).PartOf (located before')
      (index.visitValues decls {} (located (before ++ file :: after)))) :
    (index.visitValues decls {} (located (before' ++ [file]))).PartOf (located (before' ++ [file]))
      (index.visitValues decls {} (located (before ++ file :: after))) := by
  have hstart : (index.visitValues decls {} (located before)).PartOf (located before)
      (index.visitValues decls {} (located (before ++ file :: after))) := by
    rw [located_append] at hdistinct ⊢
    exact index.visitValues_partOf decls hdistinct
  have hnews := Index.visitValues_news (.refl index) rfl (.refl decls) (located [file])
    fun d hd mark hmark => h.inferred_eq hperm hdistinct hstart.inferred hstart'.inferred
      (mem_reads_of_located hd hmark)
  have hdistinct' := hdistinct.perm (located_perm hperm)
  rw [List.append_cons, located_append] at hdistinct hdistinct'
  have hend := index.visitValues_partOf decls hdistinct
  rw [← located_append, ← List.append_cons, located_append before, visitValues_append] at hend
  rw [located_append before', visitValues_append]
  refine hnews.partOf hstart hend hstart' (index.visitValues_changesOnly decls _ _) ?_ ?_
  · exact located_append _ _ ▸ hdistinct.left
  · exact located_append _ _ ▸ hdistinct'.left

/-- **The initial values of files that change places**, where none depends on the other. -/
theorem Index.visitValues_of_keepsDependences {old new : List SourceFile} (hperm : new.Perm old)
    (hdistinct : Distinct (located old))
    (h : KeepsDependences (index.visitValues decls {} (located old)).inferred old new) :
    (index.visitValues decls {} (located old)).Same
      (index.visitValues decls {} (located new)) := by
  -- Along the new order, what is known is a part of what the old order gives in the end.
  have hparts (before after : List SourceFile) (hnew : new = before ++ after)
      (hpart : (index.visitValues decls {} (located before)).PartOf (located before)
        (index.visitValues decls {} (located old))) :
      (index.visitValues decls {} (located new)).PartOf (located new)
        (index.visitValues decls {} (located old)) := by
    induction after generalizing before with
    | nil =>
      rw [List.append_nil] at hnew
      rwa [hnew]
    | cons file after ih =>
      refine ih (before ++ [file]) (by rw [hnew, List.append_cons]) ?_
      subst hnew
      obtain ⟨front, back, rfl⟩ :=
        List.append_of_mem (hperm.mem_iff.mp (List.mem_append_right _ List.mem_cons_self))
      exact index.visitValues_partOf_of_keepsDependences decls hperm hdistinct h hpart
  exact (hparts [] new rfl (index.visitValues_partOf decls hdistinct)).same
    (located_perm hperm) (index.visitValues_changesOnly decls {} _)

end Order

/-! ## Packages -/

section Packages

variable {package : Package} {files : List SourceFile}

theorem Package.apart_of_sublist (hids : package.UniqueIds) {file other : SourceFile}
    (h : [file, other].Sublist package.files) : Apart file.marks other.marks := by
  have hnodup : (package.files.flatMap fun file => file.marks.map (·.id)).Nodup := by
    rw [← List.map_flatMap]
    exact hids
  have hdisjoint := List.pairwise_pair.mp ((List.nodup_flatMap.mp hnodup).2.sublist h)
  intro mark hmark mark' hmark' he
  exact hdisjoint (List.mem_map_of_mem hmark) (he ▸ List.mem_map_of_mem hmark')

theorem Index.visitBodies_decls (index : Index) (decls : Declarations)
    (inferred : Std.TreeMap String Ty) (tables : Tables) (package : Package) :
    index.visitBodies decls inferred tables package.decls =
      package.files.foldl (fun tables file =>
        index.visitBodies decls inferred tables (located [file])) tables := by
  unfold visitBodies Package.decls located
  simp only [List.foldl_flatMap, List.foldl_cons, List.foldl_nil]

theorem Index.visitBodies_withFiles (index : Index) (decls : Declarations)
    (hids : package.UniqueIds) (hperm : files.Perm package.files)
    (inferred : Std.TreeMap String Ty) (tables : Tables) :
    (index.visitBodies decls inferred tables package.decls).Same
      (index.visitBodies decls inferred tables (package.withFiles files).decls) := by
  rw [visitBodies_decls, visitBodies_decls]
  refine foldl_reorder Tables.same_equivalence hperm (fun file _ tables tables' h => ?_)
    (fun file other _ hold _ tables => ?_) tables
  · refine Tables.SameNews.same ?_ h
    exact visitBodies_news (.refl index) rfl (.refl decls) (fun _ => rfl) (located [file]) _ _
  · exact visitBodies_comm index decls (Package.apart_of_sublist hids hold) inferred tables

variable {front back : List Package}

theorem map_path_withFiles : (front ++ package.withFiles files :: back).map (·.path) =
    (front ++ package :: back).map (·.path) := by
  simp [Package.withFiles]

theorem Index.names_withFiles :
    (Index.ofPackages (front ++ package.withFiles files :: back)).names =
      (Index.ofPackages (front ++ package :: back)).names := by
  unfold Index.ofPackages
  simp only [List.foldl_append, List.foldl_cons]
  rfl

/-- **The same is declared in any order of the files** of a package. -/
theorem Index.same_withFiles (hpaths : ((front ++ package :: back).map (·.path)).Nodup)
    (htop : package.topNames.Nodup) (hmethods : package.methodKeys.Nodup)
    (hperm : files.Perm package.files) :
    (Index.ofPackages (front ++ package :: back)).Same
      (Index.ofPackages (front ++ package.withFiles files :: back)) := by
  have hpaths' := hpaths
  rw [← @map_path_withFiles package files] at hpaths'
  intro path
  by_cases hmem : path ∈ (front ++ package :: back).map (·.path)
  · obtain ⟨p, hp, rfl⟩ := List.mem_map.mp hmem
    rw [Index.packages_ofPackages hpaths hp]
    by_cases hsame : p = package
    · subst hsame
      have hnew := Index.packages_ofPackages hpaths' (List.mem_append_right _ List.mem_cons_self)
      rw [names_withFiles] at hnew
      have hpath : (p.withFiles files).path = p.path := rfl
      rw [← hpath, hnew]
      exact .some (Declarations.same_of_perm htop hmethods hperm)
    · have hp' : p ∈ front ++ package.withFiles files :: back := by
        rw [List.mem_append, List.mem_cons] at hp ⊢
        exact hp.imp_right fun h => .inr (h.resolve_left hsame)
      rw [Index.packages_ofPackages hpaths' hp', names_withFiles]
      exact .some (Declarations.Same.refl _)
  · have hmem' := hmem
    rw [← @map_path_withFiles package files] at hmem'
    rw [Index.packages_of_notMem hmem, Index.packages_of_notMem hmem']
    exact .none

end Packages

/-! ## The same tables -/

section Reads

variable {index index' : Index} {decls decls' : Declarations} {package package' : Package}
  (hindex : index.Same index') (hnames : index'.names = index.names) (hdecls : decls.Same decls')
  (hfound : index.packages[package.path]? = some decls)
  (hfound' : index'.packages[package'.path]? = some decls') (hids : package.UniqueIds)
  (hids' : package'.UniqueIds) (hsame : (index.check package).Same (index'.check package'))

include hfound hfound' hids hids' hsame

/-- The same tables come of the same reads. -/
theorem sameGlobals_of_same {before after before' after' : List (SourceFile × Decl)}
    {d : SourceFile × Decl} (hsplit : package.decls = before ++ d :: after)
    (hsplit' : package'.decls = before' ++ d :: after') :
    SameGlobals (index.fileEnv decls (index.visitValues decls {} before).inferred d.1)
      (index'.fileEnv decls' (index'.visitValues decls' {} before').inferred d.1) d.2.reads := by
  intro read hread
  rw [← Index.check_of_read hfound hids hsplit hread,
    ← Index.check_of_read hfound' hids' hsplit' hread]
  exact hsame.uses read.id

theorem Index.inferred_of_read (hof : decls = Declarations.ofPackage index.names package)
    (hof' : decls' = Declarations.ofPackage index'.names package')
    (htop : package.topNames.Nodup) (htop' : package'.topNames.Nodup)
    {before after before' after' : List (SourceFile × Decl)} {d e : SourceFile × Decl}
    (hsplit : package.decls = before ++ d :: after)
    (hsplit' : package'.decls = before' ++ d :: after') (he : e ∈ package.decls)
    (he' : e ∈ package'.decls) {read : Mark} (hread : read ∈ d.2.reads)
    (hname : read.name ∈ e.2.untypedNames) :
    (index'.visitValues decls' {} before').inferred[read.name]? =
      (index.visitValues decls {} before).inferred[read.name]? := by
  have hglobal := sameGlobals_of_same hfound hfound' hids hids' hsame hsplit hsplit' read hread
  obtain ⟨kind, hkind⟩ := @global?_of_untyped index.names package htop e.1 e.2 he _ hname
  obtain ⟨kind', hkind'⟩ := @global?_of_untyped index'.names package' htop' e.1 e.2 he' _ hname
  rw [← hof] at hkind
  rw [← hof'] at hkind'
  rw [hkind, hkind'] at hglobal
  exact congrArg Symbol.type (Option.some.inj hglobal)

include hindex hnames hdecls

/-- **The same tables come from the same types.** -/
theorem Index.inferred_of_same (hdistinct : Distinct package.decls)
    (hperm : package'.decls.Perm package.decls) (name : String) :
    (index'.visitValues decls' {} package'.decls).inferred[name]? =
      (index.visitValues decls {} package.decls).inferred[name]? := by
  have hdistinct' := hdistinct.perm hperm
  by_cases hname : name ∈ untypedNames package.decls
  · obtain ⟨d, hd, hmem⟩ := List.mem_flatMap.mp hname
    obtain ⟨before, after, hsplit⟩ := List.append_of_mem hd
    obtain ⟨before', after', hsplit'⟩ := List.append_of_mem (hperm.mem_iff.mpr hd)
    have hnews := checkDeclValues_news hindex hnames hdecls d.1 d.2
      (sameGlobals_of_same hfound hfound' hids hids' hsame hsplit hsplit')
    rw [hsplit] at hdistinct ⊢
    rw [hsplit'] at hdistinct' ⊢
    obtain ⟨hstart, hend⟩ := index.inferred_of_untyped decls hdistinct hmem
    obtain ⟨hstart', hend'⟩ := index'.inferred_of_untyped decls' hdistinct' hmem
    rw [hend, hend']
    exact hnews.inferred.eq (hstart'.trans hstart.symm)
  · have hname' : name ∉ untypedNames package'.decls :=
      fun h => hname ((hperm.flatMap_right _).mem_iff.mp h)
    rw [(index.visitValues_changesOnly decls {} _).inferred name hname,
      (index'.visitValues_changesOnly decls' {} _).inferred name hname']

/-- **The same tables** show that files which change places are independent. -/
theorem Index.keepsDependences_of_same (hof : decls = Declarations.ofPackage index.names package)
    (hof' : decls' = Declarations.ofPackage index'.names package')
    (htop : package.topNames.Nodup) (hperm : package'.files.Perm package.files) :
    KeepsDependences (index.visitValues decls {} package.decls).inferred package.files
      package'.files := by
  have hpermDecls : package'.decls.Perm package.decls := located_perm hperm
  have htop' : package'.topNames.Nodup := (hpermDecls.flatMap_right _).nodup_iff.mpr htop
  have hdistinct := Package.distinct hids htop
  have hdistinct' := Package.distinct hids' htop'
  have htypes := inferred_of_same hindex hnames hdecls hfound hfound' hids hids' hsame hdistinct
    hpermDecls
  have hreads {before after before' after' : List (SourceFile × Decl)} {d e : SourceFile × Decl}
      (he : e ∈ package.decls) {read : Mark} (hname : read.name ∈ e.2.untypedNames)
      (hread : read ∈ d.2.reads) (hsplit : package.decls = before ++ d :: after)
      (hsplit' : package'.decls = before' ++ d :: after') :=
    inferred_of_read hfound hfound' hids hids' hsame hof hof' htop htop' hsplit hsplit' he
      (hpermDecls.mem_iff.mpr he) hread hname
  intro file other hne hold hnew
  constructor
  · rintro ⟨read, hread, hname, hinferred⟩
    obtain ⟨d, hd, hread⟩ := List.mem_flatMap.mp hread
    obtain ⟨e, he, hname⟩ := List.mem_flatMap.mp hname
    -- In the old order the name has no type yet, in the new one it has that of the end.
    obtain ⟨before, after, hsplit, hnone⟩ :=
      index.inferred_of_earlier decls hdistinct hname (located_pair hold hd he)
    obtain ⟨before', after', hsplit', hend⟩ :=
      index'.inferred_of_later decls' hdistinct' hname (located_pair hnew he hd)
    have hmem := hold.subset (List.mem_cons_of_mem _ List.mem_cons_self)
    have hsame := hreads (Package.mem_decls.mpr ⟨hmem, he⟩) hname hread hsplit hsplit'
    rw [hnone, hend, htypes] at hsame
    rw [Std.TreeMap.mem_iff_isSome_getElem?, hsame] at hinferred
    cases hinferred
  · rintro ⟨read, hread, hname, hinferred⟩
    obtain ⟨d, hd, hread⟩ := List.mem_flatMap.mp hread
    obtain ⟨e, he, hname⟩ := List.mem_flatMap.mp hname
    obtain ⟨before, after, hsplit, hend⟩ :=
      index.inferred_of_later decls hdistinct hname (located_pair hold he hd)
    obtain ⟨before', after', hsplit', hnone⟩ :=
      index'.inferred_of_earlier decls' hdistinct' hname (located_pair hnew hd he)
    have hmem := hold.subset List.mem_cons_self
    have hsame := hreads (Package.mem_decls.mpr ⟨hmem, he⟩) hname hread hsplit hsplit'
    rw [hnone, hend] at hsame
    rw [Std.TreeMap.mem_iff_isSome_getElem?, ← hsame] at hinferred
    cases hinferred

end Reads

/-- **The order of files** never changes what is declared. It changes the tables, unless files that
change places do not depend on each other. -/
theorem check_of_file_order {front back : List Package} {package : Package}
    (hpaths : ((front ++ package :: back).map (·.path)).Nodup) (hids : package.UniqueIds)
    (htop : package.topNames.Nodup) (hmethods : package.methodKeys.Nodup)
    {files : List SourceFile} (hperm : files.Perm package.files) :
    let index := Index.ofPackages (front ++ package :: back)
    let index' := Index.ofPackages (front ++ package.withFiles files :: back)
    index.Same index' ∧ (KeepsDependences (index.inferred package) package.files files ↔
      (index.check package).Same (index'.check (package.withFiles files))) := by
  intro index index'
  have hindex : index.Same index' := Index.same_withFiles hpaths htop hmethods hperm
  have hnames : index'.names = index.names := Index.names_withFiles
  have hpaths' := hpaths
  rw [← @map_path_withFiles package files] at hpaths'
  have hfound : index.packages[package.path]? = some (Declarations.ofPackage index.names package) :=
    Index.packages_ofPackages hpaths (List.mem_append_right _ List.mem_cons_self)
  have hfound' : index'.packages[(package.withFiles files).path]? =
      some (Declarations.ofPackage index'.names (package.withFiles files)) :=
    Index.packages_ofPackages hpaths' (List.mem_append_right _ List.mem_cons_self)
  have hdecls : (Declarations.ofPackage index.names package).Same
      (Declarations.ofPackage index'.names (package.withFiles files)) := by
    rw [hnames]
    exact Declarations.same_of_perm htop hmethods hperm
  have hids' : (package.withFiles files).UniqueIds :=
    ((hperm.flatMap_right SourceFile.marks).map Mark.id).nodup_iff.mpr hids
  refine ⟨hindex, ?_⟩
  rw [Index.inferred_eq hfound]
  refine ⟨fun horder => ?_, fun hsame => ?_⟩
  · rw [Index.check_eq hfound, Index.check_eq hfound']
    -- First the files of the one package change places, then the other package takes its place.
    have hvalues := Progress.same_equivalence.trans
      (index.visitValues_of_keepsDependences _ hperm (Package.distinct hids htop) horder)
      ((Index.visitValues_news hindex hnames hdecls _ fun _ _ _ _ => rfl).same
        (Progress.same_equivalence.refl {}))
    exact Tables.same_equivalence.trans
      (index.visitBodies_withFiles _ hids hperm _ _)
      ((Index.visitBodies_news hindex hnames hdecls hvalues.inferred _ _ _).same hvalues.tables)
  · exact Index.keepsDependences_of_same hindex hnames hdecls hfound hfound' hids hids' hsame rfl
      rfl htop hperm

/-- A file with a type, a method of it, and a variable whose initial value gives its type. -/
def taskFile : SourceFile where
  path := "task.go"
  package := "app"
  imports := []
  decls := [
    .type ⟨⟨10, "Task"⟩, .struct [], false⟩,
    .func ⟨⟨11, "Run"⟩, some ⟨some ⟨12, "t"⟩, .name none "Task"⟩, [], [], some []⟩,
    .var (.mk [⟨13, "second"⟩] none [.composite (some (.name none "Task")) []])]

/-- A file with a variable that has the given initial value, and a function that uses it. -/
def useFile (initial : Expr) (used : String) : SourceFile where
  path := "use.go"
  package := "app"
  imports := []
  decls := [
    .var (.mk [⟨0, "first"⟩] none [initial]),
    .func ⟨⟨2, "Use"⟩, none, [], [], some [
      .expr (.call (.selector 3 (.ident ⟨4, used⟩) ⟨5, "Run"⟩) [])]⟩]

/-- A function uses a variable of the other file, and no initial value does. -/
def usingBody : Package where
  name := "app"
  path := "m/app"
  files := [useFile (.composite (some (.name none "Task")) []) "second", taskFile]

/-- A function body uses what the other file declares without a type. -/
theorem check_of_file_order_body :
    let swapped := usingBody.withFiles usingBody.files.reverse
    usingBody.UniqueIds ∧ usingBody.topNames.Nodup ∧ usingBody.methodKeys.Nodup ∧
      KeepsDependences ((Index.ofPackages [usingBody]).inferred usingBody) usingBody.files
        usingBody.files.reverse ∧
      ((Index.ofPackages [usingBody]).check usingBody).Same
        ((Index.ofPackages [swapped]).check swapped) := by
  intro swapped
  have hids : usingBody.UniqueIds := by
    unfold Package.UniqueIds UniqueIds
    decide
  have htop : usingBody.topNames.Nodup := by decide
  have hmethods : usingBody.methodKeys.Nodup := by decide
  have horder : KeepsDependences ((Index.ofPackages [usingBody]).inferred usingBody)
      usingBody.files usingBody.files.reverse := by
    intro file other _ hold _
    have hfiles : [file, other] = usingBody.files := hold.eq_of_length rfl
    obtain ⟨rfl, rfl⟩ : file = _ ∧ other = _ := by simpa [usingBody] using hfiles
    decide
  have hpaths : (([] ++ usingBody :: []).map Package.path).Nodup := by decide
  have hcheck := check_of_file_order hpaths hids htop hmethods (List.reverse_perm usingBody.files)
  exact ⟨hids, htop, hmethods, horder, hcheck.2.mp horder⟩

/-- An initial value uses a variable of the other file. -/
def usingValue : Package where
  name := "app"
  path := "m/app"
  files := [useFile (.ident ⟨1, "second"⟩) "first", taskFile]

/-- The type of an initial value can come from a later file. -/
theorem file_order_changes_tables :
    ¬ ∀ (front back : List Package) (package : Package) (files : List SourceFile),
      ((front ++ package :: back).map (·.path)).Nodup → package.UniqueIds →
      package.topNames.Nodup → package.methodKeys.Nodup → files.Perm package.files →
      ((Index.ofPackages (front ++ package :: back)).check package).Same
        ((Index.ofPackages (front ++ package.withFiles files :: back)).check
          (package.withFiles files)) := by
  intro h
  have hids : usingValue.UniqueIds := by
    unfold Package.UniqueIds UniqueIds
    decide
  have hsame := h [] [] usingValue usingValue.files.reverse (by decide) hids (by decide) (by decide)
    (List.reverse_perm usingValue.files)
  -- The initial value of `first` is known to be a task only if the file of `second` comes first.
  have htype : some (some (Ty.declared "app" "m/app" "Task")) = some (none : Option Ty) :=
    congrArg (Option.map Symbol.type) (hsame.uses 1)
  cases htype

end GoCalls
