import GoCalls.Proofs.TopNames

/-!
# The meaning of an alias

Other packages know an alias by the type that its target stands for in the file that declares it.
Inside the package the target is resolved again in each file that names the alias, with the imports
of that file and one level less deep. So a file sees the same type where it imports the packages that
the target names as the declaring file does, and where the target does not need the last level.

* `TypeEnv.qualifiersWithin`: the names of packages that resolving a type looks up.
* **`TypeEnv.resolveWithin_imports_iff`**: when two files resolve a type alike.
* **`alias_meaning_iff`**: when an alias means the same type in another file.
-/

namespace GoCalls

/-- Two files import the same packages under the given names. -/
def Imports.AgreeOn (names : List String) (a b : Imports) : Prop :=
  ∀ name ∈ names, a.named[name]? = b.named[name]?

namespace TypeEnv

variable {env : TypeEnv} {imports : Imports}

/-! ## Resolving with other imports -/

/-- The names of packages that are looked up when `expr` is resolved at most `fuel` levels deep. -/
def qualifiersWithin (env : TypeEnv) : (fuel : Nat) → TypeExpr → List String
  | 0, _ => []
  | fuel + 1, expr =>
    match expr with
    | .name none name =>
      match env.localTypes[name]? with
      | some (some target) => env.qualifiersWithin fuel target
      | _ => []
    | .name (some package) _ => [package]
    | .pointer t | .slice t | .array t | .ellipsis t | .chan t => env.qualifiersWithin fuel t
    | .map k v => env.qualifiersWithin fuel k ++ env.qualifiersWithin fuel v
    | .func _ results => results.flatMap (env.qualifiersWithin fuel)
    | .struct _ | .interface _ | .unknown => []

theorem universe_ne_invalid (name : String) : Universe.type? name ≠ some .invalid := by
  unfold Universe.type?
  split_ifs with herror hany hbasic
  · nofun
  · nofun
  · intro h
    obtain rfl : name = "invalid" := by simpa [Ty.invalid] using h
    exact absurd hbasic (by decide)
  · nofun

theorem resolveWithin_ne_invalid (fuel : Nat) (expr : TypeExpr) :
    env.resolveWithin fuel expr ≠ some .invalid := by
  induction fuel generalizing expr with
  | zero => nofun
  | succ fuel ih =>
    unfold resolveWithin
    cases expr with
    | name package name =>
      cases package with
      | none =>
        dsimp only
        split
        · exact ih _
        · nofun
        · exact universe_ne_invalid name
      | some package =>
        intro h
        obtain ⟨imported, -, hi⟩ := Option.map_eq_some_iff.mp h
        cases hi
    | _ => nofun

/-- Parts resolve alike where both are known or neither is. -/
theorem eq_of_part_eq {env' : TypeEnv} {n m : Nat} {t : TypeExpr}
    (h : (env'.resolveWithin n t).getD .invalid = (env.resolveWithin m t).getD .invalid) :
    env'.resolveWithin n t = env.resolveWithin m t := by
  cases hn : env'.resolveWithin n t with
  | none =>
    cases hm : env.resolveWithin m t with
    | none => rfl
    | some u =>
      rw [hn, hm] at h
      exact absurd (hm.trans (congrArg some h.symm)) (resolveWithin_ne_invalid m t)
  | some u =>
    cases hm : env.resolveWithin m t with
    | none =>
      rw [hn, hm] at h
      exact absurd (hn.trans (congrArg some h)) (resolveWithin_ne_invalid n t)
    | some v =>
      rw [hn, hm] at h
      exact congrArg some h

theorem resolveWithin_congr (fuel : Nat) (expr : TypeExpr)
    (h : imports.AgreeOn (env.qualifiersWithin fuel expr) env.imports) :
    { env with imports }.resolveWithin fuel expr = env.resolveWithin fuel expr := by
  induction fuel generalizing expr with
  | zero => rfl
  | succ fuel ih =>
    unfold qualifiersWithin at h
    unfold resolveWithin
    cases expr with
    | name package name =>
      cases package with
      | none =>
        dsimp only at h ⊢
        cases hlocal : env.localTypes[name]? with
        | none => rfl
        | some target =>
          cases target with
          | none => rfl
          | some target =>
            rw [hlocal] at h
            exact ih target h
      | some package =>
        dsimp only
        rw [h package List.mem_cons_self]
    | pointer t | slice t | array t | ellipsis t | chan t =>
      dsimp only
      rw [ih t h]
    | map k v =>
      dsimp only
      rw [ih k fun q hq => h q (List.mem_append_left _ hq),
        ih v fun q hq => h q (List.mem_append_right _ hq)]
    | func params results =>
      refine congrArg (fun types => some (Ty.func types)) (List.map_congr_left fun t ht => ?_)
      rw [ih t fun q hq => h q (List.mem_flatMap.mpr ⟨t, ht, hq⟩)]
    | struct fields => rfl
    | interface methods => rfl
    | unknown => rfl

/-- What is resolved alike is resolved with the same packages. -/
theorem agreeOn_of_resolveWithin_eq {n m : Nat} (hle : n ≤ m) (expr : TypeExpr)
    (h : { env with imports }.resolveWithin n expr = env.resolveWithin m expr) :
    imports.AgreeOn (env.qualifiersWithin n expr) env.imports := by
  induction n generalizing m expr with
  | zero => exact fun q hq => absurd hq List.not_mem_nil
  | succ n ih =>
    obtain ⟨m, rfl⟩ : ∃ k, m = k + 1 := ⟨m - 1, by omega⟩
    have hle' : n ≤ m := by omega
    unfold resolveWithin at h
    unfold qualifiersWithin
    cases expr with
    | name package name =>
      cases package with
      | none =>
        dsimp only at h ⊢
        cases hlocal : env.localTypes[name]? with
        | none => exact fun q hq => absurd hq List.not_mem_nil
        | some target =>
          cases target with
          | none => exact fun q hq => absurd hq List.not_mem_nil
          | some target =>
            rw [hlocal] at h
            exact ih hle' target h
      | some package =>
        intro q hq
        obtain rfl := List.mem_singleton.mp hq
        refine Option.map_injective (fun a b hab => ?_) h
        obtain ⟨a, a'⟩ := a
        obtain ⟨b, b'⟩ := b
        cases hab
        rfl
    | pointer t | slice t | array t | ellipsis t | chan t =>
      injection h with h
      injection h with h
      exact ih hle' t (eq_of_part_eq h)
    | map k v =>
      injection h with h
      injection h with hk hv
      intro q hq
      rcases List.mem_append.mp hq with hq | hq
      · exact ih hle' k (eq_of_part_eq hk) q hq
      · exact ih hle' v (eq_of_part_eq hv) q hq
    | func params results =>
      injection h with h
      injection h with h
      intro q hq
      obtain ⟨t, ht, hq⟩ := List.mem_flatMap.mp hq
      exact ih hle' t (eq_of_part_eq (List.map_inj_left.mp h t ht)) q hq
    | struct fields | interface methods | unknown => exact fun q hq => absurd hq List.not_mem_nil

/-- **When two files resolve a type alike**, one of them a level less deep. -/
theorem resolveWithin_imports_iff (env : TypeEnv) (imports : Imports) (fuel : Nat)
    (expr : TypeExpr) :
    { env with imports }.resolveWithin fuel expr = env.resolveWithin (fuel + 1) expr ↔
      imports.AgreeOn (env.qualifiersWithin fuel expr) env.imports ∧
        env.resolveWithin fuel expr = env.resolveWithin (fuel + 1) expr := by
  constructor
  · intro h
    have hagree := agreeOn_of_resolveWithin_eq (Nat.le_succ fuel) expr h
    exact ⟨hagree, (resolveWithin_congr fuel expr hagree).symm.trans h⟩
  · rintro ⟨hagree, hlevel⟩
    exact (resolveWithin_congr fuel expr hagree).trans hlevel

/-- An alias is its target, one level less deep. -/
theorem resolve_alias {name : String} {target : TypeExpr}
    (h : env.localTypes[name]? = some (some target)) :
    env.resolve (.name none name) = env.resolveWithin maxTypeDepth target := by
  rw [resolve, resolveWithin, h]

end TypeEnv

/-! ## Files and other packages -/

/-- **An alias means one type** in all files that import alike what its target names, unless the
target comes out otherwise one level less deep. -/
theorem alias_meaning_iff {index : Index} {package : Package} {decls : Declarations}
    (hindex : index.packages[package.path]? = some decls)
    (hdecls : decls = Declarations.ofPackage index.names package)
    {file : SourceFile} {d : TypeDecl} (hd : (file, .type d) ∈ package.decls) (halias : d.isAlias)
    (honce : package.topNames.count d.name.name = 1) {target : Ty}
    (htarget : (decls.typeEnv index.names file).resolve d.type = some target) :
    index.member? package.path d.name.name =
        some ⟨d.name.name, some package.name, .typeName, some target⟩ ∧
      ∀ user : SourceFile,
        (decls.typeEnv index.names user).resolve (.name none d.name.name) = some target ↔
          (Imports.ofFile index.names user).AgreeOn
              ((decls.typeEnv index.names file).qualifiersWithin maxTypeDepth d.type)
              (Imports.ofFile index.names file) ∧
            (decls.typeEnv index.names file).resolveWithin maxTypeDepth d.type = some target := by
  subst hdecls
  set decls := Declarations.ofPackage index.names package
  have hlocal : decls.localTypes[d.name.name]? = some (some d.type) :=
    Declarations.localTypes_ofPackage_of_alias hd honce halias
  have hlacks : decls.Lacks d.name.name := Declarations.lacks_ofPackage_of_type hd honce
  have haliases := Declarations.aliases_ofPackage_of_alias hd honce halias htarget
  have hname : decls.name = package.name :=
    congrArg TypeEnv.package (Declarations.typeEnv_ofPackage file)
  refine ⟨?_, fun user => ?_⟩
  · unfold Index.member?
    rw [hindex, Option.bind_eq_bind, Option.bind_some, hlacks.funcs, haliases, hname]
    rfl
  · have huse : (decls.typeEnv index.names user).localTypes[d.name.name]? = some (some d.type) :=
      hlocal
    rw [TypeEnv.resolve_alias huse, ← htarget]
    exact TypeEnv.resolveWithin_imports_iff (decls.typeEnv index.names file)
      (Imports.ofFile index.names user) maxTypeDepth d.type

/-- A package with a type `Sink`. -/
def sinkPackage (name : String) : Package where
  name := name
  path := "m/" ++ name
  files := [{ path := name ++ ".go", package := name, imports := [], decls := [
    .type ⟨⟨0, "Sink"⟩, .struct [], false⟩] }]

/-- A declaration of an alias for the `Sink` of the package that is imported as `log`. -/
def sinkAlias : TypeDecl := ⟨⟨0, "Sink"⟩, .name (some "log") "Sink", true⟩

/-- A file that imports a package as `log`. -/
def logFile (imported : String) (decls : List Decl) : SourceFile where
  path := imported ++ "_log.go"
  package := "app"
  imports := [⟨some "log", "m/" ++ imported⟩]
  decls := decls

/-- Two files import different packages as `log`, and one of them declares an alias. -/
def sinks : Package where
  name := "app"
  path := "m/app"
  files := [logFile "one" [.type sinkAlias], logFile "two" []]

def sinkIndex : Index := Index.ofPackages [sinkPackage "one", sinkPackage "two", sinks]

theorem packages_sinkIndex :
    sinkIndex.packages[sinks.path]? = some (Declarations.ofPackage sinkIndex.names sinks) :=
  Index.packages_ofPackages (by decide) (by simp)

theorem resolve_sinkAlias : ((Declarations.ofPackage sinkIndex.names sinks).typeEnv sinkIndex.names
    (logFile "one" [.type sinkAlias])).resolve sinkAlias.type =
      some (.declared "one" "m/one" "Sink") := rfl

/-- The declaring file sees the target, and the other file does not. -/
theorem alias_meaning_sink :
    let decls := Declarations.ofPackage sinkIndex.names sinks
    let target := Ty.declared "one" "m/one" "Sink"
    sinkIndex.packages[sinks.path]? = some decls ∧
      sinkIndex.member? "m/app" "Sink" = some ⟨"Sink", some "app", .typeName, some target⟩ ∧
      (decls.typeEnv sinkIndex.names (logFile "one" [.type sinkAlias])).resolve
        (.name none "Sink") = some target ∧
      (decls.typeEnv sinkIndex.names (logFile "two" [])).resolve (.name none "Sink") ≠
        some target := by
  intro decls target
  obtain ⟨hmember, hiff⟩ :=
    alias_meaning_iff packages_sinkIndex rfl List.mem_cons_self rfl (by decide) resolve_sinkAlias
  refine ⟨packages_sinkIndex, hmember, (hiff _).mpr ⟨fun _ _ => rfl, rfl⟩, fun h => ?_⟩
  have hlog := ((hiff _).mp h).1 "log" List.mem_cons_self
  exact absurd hlog (by decide)

/-- An alias can differ between the files of its package. -/
theorem alias_meaning_differs :
    ¬ ∀ (index : Index) (package : Package) (decls : Declarations),
      index.packages[package.path]? = some decls →
      decls = Declarations.ofPackage index.names package →
      ∀ (file : SourceFile) (d : TypeDecl), (file, .type d) ∈ package.decls → d.isAlias →
      package.topNames.count d.name.name = 1 →
      ∀ target, (decls.typeEnv index.names file).resolve d.type = some target →
      ∀ user ∈ package.files,
        (decls.typeEnv index.names user).resolve (.name none d.name.name) = some target := by
  intro h
  have huser : logFile "two" [] ∈ sinks.files := List.mem_cons_of_mem _ List.mem_cons_self
  have hsame := h sinkIndex sinks _ packages_sinkIndex rfl _ sinkAlias List.mem_cons_self rfl
    (by decide) _ resolve_sinkAlias _ huser
  have htwo : Ty.declared "two" "m/two" "Sink" = .declared "one" "m/one" "Sink" :=
    Option.some.inj hsame
  exact absurd htwo (by simp [Ty.declared])

end GoCalls
