import GoCalls.Proofs.CheckedBodies
import GoCalls.Proofs.DeclarationOrder
import GoCalls.Proofs.FreeNames
import Mathlib.Data.List.Pairwise

/-!
# What initial values read

The initial values at top level are visited before all function bodies, in the order of the
declarations. A variable or constant that is declared without a type gets the type of its initial
value, and a value that is visited later finds that type, but not one that is visited earlier.

* `Decl.reads`: the names that initial values read at top level.
* `Decl.untypedNames`: what gets its type from initial values.
* `Progress.PartOf`: what is known after some of the declarations.
* **`Index.check_of_read`**: the tables hold for each name that is read what it stood for then.
* **`Index.global?_of_untyped`**: a name without a type stands for a symbol with the type so far.
-/

namespace GoCalls

/-- The names that the initial values in a declaration read. -/
def Decl.reads : Decl → List Mark
  | .var (.mk _ _ values) | .const (.mk _ _ values) => exprsReads [] values
  | .func _ | .type _ => []

/-- The variables and constants that get their types from initial values. -/
def Decl.untypedNames : Decl → List String
  | .var (.mk names none (_ :: _)) | .const (.mk names none (_ :: _)) => names.map (·.name)
  | _ => []

theorem Decl.untypedNames_sublist (d : Decl) : d.untypedNames.Sublist d.topNames := by
  unfold Decl.untypedNames
  split
  · exact .refl _
  · exact .refl _
  · exact List.nil_sublist _

def untypedNames (ds : List (SourceFile × Decl)) : List String :=
  ds.flatMap fun d => d.2.untypedNames

def markIds (ds : List (SourceFile × Decl)) : List Nat :=
  (ds.flatMap fun d => d.2.marks).map (·.id)

theorem untypedNames_append (before after : List (SourceFile × Decl)) :
    untypedNames (before ++ after) = untypedNames before ++ untypedNames after :=
  List.flatMap_append

theorem markIds_append (before after : List (SourceFile × Decl)) :
    markIds (before ++ after) = markIds before ++ markIds after := by
  unfold markIds
  rw [List.flatMap_append, List.map_append]

/-- The untyped names of some declarations differ, and so do the numbers of their marks. -/
structure Distinct (ds : List (SourceFile × Decl)) : Prop where
  names : (untypedNames ds).Nodup
  ids : (markIds ds).Nodup

namespace Distinct

variable {before after ds : List (SourceFile × Decl)}

theorem left (h : Distinct (before ++ after)) : Distinct before := by
  obtain ⟨hnames, hids⟩ := h
  rw [untypedNames_append] at hnames
  rw [markIds_append] at hids
  exact ⟨hnames.of_append_left, hids.of_append_left⟩

theorem perm (h : Distinct ds) (hperm : after.Perm ds) : Distinct after where
  names := (hperm.flatMap_right _).nodup_iff.mpr h.names
  ids := ((hperm.flatMap_right _).map _).nodup_iff.mpr h.ids

theorem names_disjoint (h : Distinct (before ++ after)) :
    (untypedNames before).Disjoint (untypedNames after) :=
  List.disjoint_of_nodup_append (untypedNames_append before after ▸ h.names)

theorem ids_disjoint (h : Distinct (before ++ after)) : (markIds before).Disjoint (markIds after) :=
  List.disjoint_of_nodup_append (markIds_append before after ▸ h.ids)

end Distinct

theorem Package.distinct {package : Package} (hids : package.UniqueIds)
    (htop : package.topNames.Nodup) : Distinct package.decls where
  names := htop.sublist (.flatMap_right _ fun d _ => d.2.untypedNames_sublist)
  ids := by
    unfold markIds
    rw [← package.marks_eq]
    exact hids

/-! ## Types of initial values -/

theorem inferTypes_of_notMem {names : List Ident} {name : String} (h : name ∉ names.map (·.name))
    (inferred : Std.TreeMap String Ty) (types : List (Option Ty)) :
    (inferTypes inferred names types)[name]? = inferred[name]? := by
  unfold inferTypes
  refine List.foldlRecOn (motive := fun m : Std.TreeMap String Ty => m[name]? = inferred[name]?) _ _
    rfl fun m hm entry hentry => ?_
  obtain ⟨i, t⟩ := entry
  cases t with
  | none => exact hm
  | some t =>
    have hne : i.name ≠ name := fun he =>
      h (List.mem_map.mpr ⟨i, (List.of_mem_zip hentry).1, he⟩)
    rw [Std.TreeMap.getElem?_insert, if_neg (by simpa using hne)]
    exact hm

/-- Only an untyped declaration with values gives types. -/
theorem inferred_checkDeclValues (env : FileEnv) (progress : Progress) {d : Decl} {name : String}
    (h : name ∉ d.untypedNames) :
    (checkDeclValues env progress d).inferred[name]? = progress.inferred[name]? := by
  have hnoValues (names : List Ident) : inferTypes progress.inferred names [] =
      progress.inferred := by
    rw [inferTypes, List.zip_nil_right]
    rfl
  cases d with
  | var spec | const spec =>
    obtain ⟨names, t, values⟩ := spec
    cases t with
    | some t => rfl
    | none =>
      cases values with
      | nil =>
        rw [checkDeclValues, checkValues, visitExprs]
        exact congrArg (·[name]?) (hnoValues names)
      | cons value values => exact inferTypes_of_notMem h _ _
  | func d => rfl
  | type d => rfl

/-! ## Parts of what is known -/

section Parts

variable {κ β : Type} [Ord κ]

/-- From one map to another, only the entries of certain keys change. -/
def ChangesOnly (keys : List κ) (old new : Std.TreeMap κ β) : Prop :=
  ∀ k : κ, k ∉ keys → new[k]? = old[k]?

/-- A map holds what another one does for certain keys, and nothing else. -/
structure PartOf (keys : List κ) (part whole : Std.TreeMap κ β) : Prop where
  inside {k : κ} : k ∈ keys → part[k]? = whole[k]?
  outside {k : κ} : k ∉ keys → part[k]? = none

theorem ChangesOnly.partOf [Std.TransOrd κ] {keys more : List κ} {part whole : Std.TreeMap κ β}
    (hpart : ChangesOnly keys ∅ part) (hwhole : ChangesOnly more part whole)
    (hdisjoint : keys.Disjoint more) : PartOf keys part whole where
  inside h := (hwhole _ (hdisjoint h)).symm
  outside h := (hpart _ h).trans Std.TreeMap.getElem?_emptyc

/-- Parts agree where neither has more than the other. -/
theorem PartOf.eq {keys keys' : List κ} {part part' whole : Std.TreeMap κ β}
    (h : PartOf keys part whole)
    (h' : PartOf keys' part' whole) {k : κ}
    (hk : k ∈ keys ∧ k ∉ keys' ∨ k ∉ keys ∧ k ∈ keys' → whole[k]? = none) :
    part'[k]? = part[k]? := by
  by_cases hkey : k ∈ keys <;> by_cases hkey' : k ∈ keys'
  · rw [h.inside hkey, h'.inside hkey']
  · rw [h.inside hkey, h'.outside hkey', hk (.inl ⟨hkey, hkey'⟩)]
  · rw [h.outside hkey, h'.inside hkey', hk (.inr ⟨hkey, hkey'⟩)]
  · rw [h.outside hkey, h'.outside hkey']

theorem PartOf.eq_whole [Std.TransOrd κ] {keys keys' : List κ} {part whole : Std.TreeMap κ β}
    (h : PartOf keys' part whole)
    (hsub : keys ⊆ keys') (hwhole : ChangesOnly keys ∅ whole) (k : κ) : part[k]? = whole[k]? := by
  by_cases hkey : k ∈ keys'
  · exact h.inside hkey
  · rw [h.outside hkey, hwhole k fun hk => hkey (hsub hk), Std.TreeMap.getElem?_emptyc]

end Parts

/-- Some declarations change only what is theirs. -/
structure Progress.ChangesOnly (ds : List (SourceFile × Decl)) (old new : Progress) : Prop where
  inferred : GoCalls.ChangesOnly (untypedNames ds) old.inferred new.inferred
  uses : GoCalls.ChangesOnly (markIds ds) old.tables.uses new.tables.uses
  selections : GoCalls.ChangesOnly (markIds ds) old.tables.selections new.tables.selections

/-- What is known after some declarations is what is known of them in the end. -/
structure Progress.PartOf (ds : List (SourceFile × Decl)) (part whole : Progress) : Prop where
  inferred : GoCalls.PartOf (untypedNames ds) part.inferred whole.inferred
  uses : GoCalls.PartOf (markIds ds) part.tables.uses whole.tables.uses
  selections : GoCalls.PartOf (markIds ds) part.tables.selections whole.tables.selections

namespace Index

variable (index : Index) (decls : Declarations)

theorem visitValues_changesOnly (progress : Progress) (ds : List (SourceFile × Decl)) :
    progress.ChangesOnly ds (index.visitValues decls progress ds) := by
  have hgrows : progress.Grows (fun _ => True) (fun _ _ _ => True)
      (ds.flatMap fun d => d.2.marks) (index.visitValues decls progress ds) :=
    visitValues_grows (fun _ _ _ _ => keeps_true _) progress fun _ _ _ => trivial
  refine ⟨fun name hname => ?_, fun id hid => ?_, fun id hid => ?_⟩
  · refine List.foldlRecOn (motive := fun later : Progress =>
      later.inferred[name]? = progress.inferred[name]?) ds _ rfl fun later hlater d hd => ?_
    rw [← hlater]
    exact inferred_checkDeclValues _ later fun h => hname (List.mem_flatMap.mpr ⟨d, hd, h⟩)
  · rcases hgrows.tables.uses id with he | ⟨kind, name, symbol, -, hmark, -⟩
    · exact he
    · exact absurd (List.mem_map_of_mem hmark) hid
  · rcases hgrows.tables.selections id with he | ⟨selection, hmark, -⟩
    · exact he
    · exact absurd (List.mem_map_of_mem hmark) hid

/-- **What is known after the first declarations** is a part of the whole. -/
theorem visitValues_partOf {before after : List (SourceFile × Decl)}
    (h : Distinct (before ++ after)) :
    (index.visitValues decls {} before).PartOf before
      (index.visitValues decls {} (before ++ after)) := by
  rw [visitValues_append]
  have hbefore := visitValues_changesOnly index decls {} before
  have hafter := visitValues_changesOnly index decls (index.visitValues decls {} before) after
  exact ⟨hbefore.inferred.partOf hafter.inferred h.names_disjoint,
    hbefore.uses.partOf hafter.uses h.ids_disjoint,
    hbefore.selections.partOf hafter.selections h.ids_disjoint⟩

theorem inferred_of_untyped {before after : List (SourceFile × Decl)} {d : SourceFile × Decl}
    (h : Distinct (before ++ d :: after)) {name : String} (hname : name ∈ d.2.untypedNames) :
    let start := index.visitValues decls {} before
    start.inferred[name]? = none ∧
      (index.visitValues decls {} (before ++ d :: after)).inferred[name]? =
        (checkDeclValues (index.fileEnv decls start.inferred d.1) start d.2).inferred[name]? := by
  intro start
  have hlater : name ∈ untypedNames (d :: after) :=
    List.mem_flatMap.mpr ⟨d, List.mem_cons_self, hname⟩
  have hnow : name ∈ untypedNames (before ++ [d]) :=
    List.mem_flatMap.mpr ⟨d, List.mem_append_right _ List.mem_cons_self, hname⟩
  refine ⟨(visitValues_partOf index decls h).inferred.outside fun hbefore =>
    h.names_disjoint hbefore hlater, ?_⟩
  rw [List.append_cons] at h ⊢
  rw [← (visitValues_partOf index decls h).inferred.inside hnow, visitValues_append,
    visitValues_cons]
  rfl

section Pairs

variable {ds : List (SourceFile × Decl)} (h : Distinct ds) {d e : SourceFile × Decl} {name : String}
  (hname : name ∈ e.2.untypedNames)

include h hname

/-- A name has no type yet where a declaration before its own is visited. -/
theorem inferred_of_earlier (hpair : [d, e].Sublist ds) : ∃ before after,
    ds = before ++ d :: after ∧ (index.visitValues decls {} before).inferred[name]? = none := by
  obtain ⟨front, back, rfl, hd, he⟩ := List.cons_sublist_iff.mp hpair
  obtain ⟨before, after, rfl⟩ := List.append_of_mem hd
  rw [List.append_assoc, List.cons_append] at h ⊢
  refine ⟨before, after ++ back, rfl, (visitValues_partOf index decls h).inferred.outside ?_⟩
  have hlater : name ∈ untypedNames (d :: (after ++ back)) := List.mem_flatMap.mpr
    ⟨e, List.mem_cons_of_mem _ (List.mem_append_right _ (List.singleton_sublist.mp he)), hname⟩
  exact fun hbefore => h.names_disjoint hbefore hlater

/-- A name has its type where a declaration after its own is visited. -/
theorem inferred_of_later (hpair : [e, d].Sublist ds) : ∃ before after,
    ds = before ++ d :: after ∧ (index.visitValues decls {} before).inferred[name]? =
      (index.visitValues decls {} ds).inferred[name]? := by
  obtain ⟨front, back, rfl, he, hd⟩ := List.cons_sublist_iff.mp hpair
  obtain ⟨before, after, rfl⟩ := List.append_of_mem (List.singleton_sublist.mp hd)
  rw [← List.append_assoc] at h ⊢
  refine ⟨front ++ before, after, rfl, (visitValues_partOf index decls h).inferred.inside ?_⟩
  exact List.mem_flatMap.mpr ⟨e, List.mem_append_left _ he, hname⟩

end Pairs

end Index

/-! ## Recorded reads -/

/-- Initial values record what they read. -/
theorem uses_checkDeclValues (env : FileEnv) (progress : Progress) {d : Decl}
    (hids : UniqueIds d.marks) {read : Mark} (hread : read ∈ d.reads) :
    read ∈ d.marks ∧ (checkDeclValues env progress d).tables.uses[read.id]? =
      (({ env with inferred := progress.inferred } : FileEnv).global? read.name).or
        progress.tables.uses[read.id]? := by
  cases d with
  | var spec | const spec =>
    obtain ⟨names, t, values⟩ := spec
    have hnotes := visitExprs_notes { env with inferred := progress.inferred } [] values
    have hsub : (exprsMarks values).Sublist (specsMarks [.mk names t values]) := by
      simp [specsMarks]
    refine ⟨hsub.subset (hnotes.subset hread), ?_⟩
    exact hnotes.run (UniqueIds.sublist hids hsub) { tables := progress.tables } (Covers.nil []) read
      hread
  | func d | type d => exact absurd hread List.not_mem_nil

theorem checkDeclBody_of_read {d : Decl} {read : Mark} (hread : read ∈ d.reads) (env : FileEnv)
    (tables : Tables) : checkDeclBody env tables d = tables := by
  cases d with
  | func d => exact absurd hread List.not_mem_nil
  | _ => rfl

/-- **Recorded reads**: what a name stood for when an initial value read it. -/
theorem Index.check_of_read {index : Index} {package : Package} {decls : Declarations}
    (hdecls : index.packages[package.path]? = some decls) (hids : package.UniqueIds)
    {before after : List (SourceFile × Decl)} {d : SourceFile × Decl}
    (hsplit : package.decls = before ++ d :: after) {read : Mark} (hread : read ∈ d.2.reads) :
    (index.check package).uses[read.id]? =
      (index.fileEnv decls (index.visitValues decls {} before).inferred d.1).global? read.name := by
  have hmarks : UniqueIds (before.flatMap (fun d => d.2.marks) ++
      (d.2.marks ++ after.flatMap fun d => d.2.marks)) := by
    unfold Package.UniqueIds at hids
    rwa [package.marks_eq, hsplit, List.flatMap_append, List.flatMap_cons] at hids
  have hbefore : Apart (before.flatMap fun d => d.2.marks) d.2.marks :=
    hmarks.apart.mono (List.Subset.refl _) (List.subset_append_left _ _)
  have hafter : Apart (after.flatMap fun d => d.2.marks) d.2.marks := hmarks.right.apart.symm
  let start := index.visitValues decls {} before
  let env := index.fileEnv decls start.inferred d.1
  obtain ⟨hmark, hrecorded⟩ := uses_checkDeclValues env start hmarks.right.left hread
  have hstart : start.tables.uses[read.id]? = none :=
    ((visitValues_agreeOn hbefore {}) read hmark).1
  have hvalues : (index.visitValues decls {} package.decls).tables.uses[read.id]? =
      env.global? read.name := by
    rw [hsplit, visitValues_append, visitValues_cons,
      ((visitValues_agreeOn hafter _) read hmark).1, hrecorded, hstart, Option.or_none]
    rfl
  have hbodies (inferred : Std.TreeMap String Ty) (tables : Tables) :
      (index.visitBodies decls inferred tables package.decls).uses[read.id]? =
        tables.uses[read.id]? := by
    unfold visitBodies
    rw [hsplit, List.foldl_append, List.foldl_cons, checkDeclBody_of_read hread]
    exact ((visitBodies_agreeOn hafter inferred _) read hmark).1.trans
      ((visitBodies_agreeOn hbefore inferred tables) read hmark).1
  rw [check_eq hdecls]
  exact (hbodies _ _).trans hvalues

/-! ## Names without a type -/

/-- A name at top level belongs to one declaration. -/
theorem Package.eq_of_mem_topNames {package : Package} (htop : package.topNames.Nodup)
    {d e : SourceFile × Decl} (hd : d ∈ package.decls) (he : e ∈ package.decls) {name : String}
    (hname : name ∈ d.2.topNames) (hname' : name ∈ e.2.topNames) : d = e := by
  by_contra hne
  have : Std.Symm (Function.onFun List.Disjoint fun d : SourceFile × Decl => d.2.topNames) :=
    ⟨fun _ _ h _ hname hname' => h hname' hname⟩
  exact (List.nodup_flatMap.mp htop).2.forall hd he hne hname hname'

namespace Declarations

variable {names : Std.TreeMap String String} {package : Package}

theorem mem_valueEntries (env : TypeEnv) (last : Option Ty) {ds : List Decl} {d : Decl} (hd : d ∈ ds)
    {name : String} (hname : name ∈ d.untypedNames) :
    ∃ kind, (name, kind, none) ∈ valueEntries env last ds := by
  have hhead (names : List Ident) (kind : SymbolKind) (t : Option Ty) (ht : t = none)
      (hname : name ∈ names.map (·.name)) :
      (name, kind, none) ∈ names.map fun i => (i.name, kind, t) := by
    obtain ⟨i, hi, rfl⟩ := List.mem_map.mp hname
    exact List.mem_map.mpr ⟨i, hi, by rw [ht]⟩
  fun_induction valueEntries env last ds with
  | case1 => exact absurd hd List.not_mem_nil
  | case2 last is t values rest ih =>
    rcases List.mem_cons.mp hd with rfl | hd
    · refine ⟨.var, List.mem_append_left _ ?_⟩
      cases t with
      | some t => exact absurd hname List.not_mem_nil
      | none =>
        cases values with
        | nil => exact absurd hname List.not_mem_nil
        | cons value values => exact hhead is .var none rfl hname
    · obtain ⟨kind, hmem⟩ := ih hd
      exact ⟨kind, List.mem_append_right _ hmem⟩
  | case3 last is t values rest ih =>
    rcases List.mem_cons.mp hd with rfl | hd
    · refine ⟨.const, List.mem_append_left _ ?_⟩
      cases t with
      | some t => exact absurd hname List.not_mem_nil
      | none =>
        cases values with
        | nil => exact absurd hname List.not_mem_nil
        | cons value values => exact hhead is .const _ rfl hname
    · obtain ⟨kind, hmem⟩ := ih hd
      exact ⟨kind, List.mem_append_right _ hmem⟩
  | case4 last d rest ih | case5 last d rest ih =>
    exact ih ((List.mem_cons.mp hd).resolve_left fun he => absurd (he ▸ hname) List.not_mem_nil)

/-- What has no type is declared in no other way. -/
theorem values_of_untyped (htop : package.topNames.Nodup) {file : SourceFile} {d : Decl}
    (hd : (file, d) ∈ package.decls) {name : String} (hname : name ∈ d.untypedNames) :
    (ofPackage names package).funcs[name]? = none ∧
      (ofPackage names package).localTypes[name]? = none ∧
      ∃ kind, (ofPackage names package).values[name]? = some (kind, none) := by
  have honly {e : SourceFile × Decl} (he : e ∈ package.decls) (hname' : name ∈ e.2.topNames) :
      e.2 = d := congrArg Prod.snd
    (Package.eq_of_mem_topNames htop he hd hname' (d.untypedNames_sublist.subset hname))
  refine ⟨?_, ?_, ?_⟩
  · rw [collects_funcs.ofPackage]
    by_contra hfound
    obtain ⟨t, hfound⟩ := Option.ne_none_iff_exists'.mp hfound
    obtain ⟨other, hother, hmem⟩ := List.mem_flatMap.mp (mem_of_addEntries hfound)
    obtain ⟨e, he, hitem⟩ := List.mem_filterMap.mp hmem
    obtain rfl : e = d :=
      honly (Package.mem_decls.mpr ⟨hother, he⟩) (mem_topNames_of_funcItem? hitem)
    cases e with
    | func e => exact absurd hname List.not_mem_nil
    | _ => cases hitem
  · rw [localTypes_ofPackage_eq]
    by_contra hfound
    obtain ⟨t, hfound⟩ := Option.ne_none_iff_exists'.mp hfound
    obtain ⟨e, he, hitem⟩ := List.mem_filterMap.mp (mem_of_addEntries hfound)
    obtain rfl : e.2 = d := honly he (mem_topNames_of_typeItem? hitem)
    generalize e.2 = d at hitem hname
    cases d with
    | type e => exact absurd hname List.not_mem_nil
    | _ => cases hitem
  · obtain ⟨hfile, hd⟩ := Package.mem_decls.mp hd
    obtain ⟨kind, hmem⟩ := mem_valueEntries ((start package).typeEnv names file) none hd hname
    rw [collects_values.ofPackage]
    exact ⟨kind, getElem?_foldl_insert _ _ _ (collects_values.keys_nodup htop)
      (List.mem_flatMap.mpr ⟨file, hfile, hmem⟩) ∅⟩

end Declarations

/-- **A name without a type** has the type that was inferred so far. -/
theorem Index.global?_of_untyped {names : Std.TreeMap String String} {package : Package}
    (htop : package.topNames.Nodup) {file : SourceFile} {d : Decl}
    (hd : (file, d) ∈ package.decls) {name : String} (hname : name ∈ d.untypedNames) :
    ∃ kind, ∀ (index : Index) (inferred : Std.TreeMap String Ty) (file : SourceFile),
      (index.fileEnv (Declarations.ofPackage names package) inferred file).global? name =
        some ⟨name, some package.name, kind, inferred[name]?⟩ := by
  obtain ⟨hfunc, htype, kind, hvalue⟩ := Declarations.values_of_untyped htop hd hname
  refine ⟨kind, fun index inferred file => ?_⟩
  unfold FileEnv.global? Index.fileEnv
  have hlocal : (Declarations.ofPackage names package).localTypes.contains name = false := by
    rw [Std.TreeMap.contains_eq_isSome_getElem?, htype]
    rfl
  simp [hfunc, hvalue, hlocal, Declarations.name_ofPackage]

end GoCalls
