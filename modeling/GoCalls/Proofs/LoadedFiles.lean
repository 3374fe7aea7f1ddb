import GoCalls.Proofs.PackageBuilds
import GoCalls.Source.Grammar.Stmts

/-!
# The files of loaded packages

When a project is loaded, no file of it is lost, repeated or put into a wrong package: the files of
its packages are its source files that take part in the build, each once, in the package of its
directory.

* `Path.Before`, `SourceTexts.ascend`: files are in the order of their directories, and in the order
  of their names within one.
* `IsLoaded.packageOf`, `IsLoaded.exists_packageOf`: the packages of a loaded project, directory by
  directory.
* **`loaded_files_exact`**: the files of loaded packages.
-/

namespace GoCalls

/-! ## The order of files -/

/-- A file comes before another: its directory does, or both lie in one directory and its name
does. -/
def Path.Before (a b : OsString) : Prop :=
  (components a).dropLast < (components b).dropLast ∨
    (components a).dropLast = (components b).dropLast ∧ components a < components b

theorem Path.Before.ne {a b : OsString} (h : Path.Before a b) : a ≠ b := by
  rintro rfl
  rcases h with h | ⟨-, h⟩
  · exact List.lt_irrefl _ h
  · exact List.lt_irrefl _ h

section Order

variable {disk : Disk} {platform : Platform} {root : OsString} {place : Place} {texts : DirTexts}

theorem SourceTexts.components_dir (h : SourceTexts disk platform root place texts)
    {t : OsString × List (OsString × String)} (ht : t ∈ texts) {f : OsString × String} (hf : f ∈ t.2) :
    Path.components t.1 = (Path.components f.1).dropLast := by
  obtain ⟨names, -, -, hdir⟩ := (h.mem t.1 f.1 f.2).mp ⟨t, ht, rfl, hf⟩
  exact Path.components_parent? hdir

/-- The files of a project are in ascending order. -/
theorem SourceTexts.ascend (h : SourceTexts disk platform root place texts) :
    (texts.flatMap Prod.snd).Pairwise fun f g => Path.Before f.1 g.1 := by
  rw [List.pairwise_flatMap]
  constructor
  · intro t ht
    refine (h.filesAscend t ht).imp_of_mem fun hf hg hlt => .inr ⟨?_, hlt⟩
    rw [← h.components_dir ht hf, ← h.components_dir ht hg]
  · refine h.dirsAscend.imp_of_mem fun hs ht hlt f hf g hg => .inl ?_
    rwa [← h.components_dir hs hf, ← h.components_dir ht hg]

end Order

/-! ## The packages of a loaded project -/

section Packages

variable {parse : String → Option ParseTree} {disk : Disk} {platform : Platform} {m : Module}
  {texts : DirTexts}

theorem problems_eq_nil_of_mem (hnone : problemsOf parse disk platform m texts = [])
    {t : OsString × List (OsString × String)} (ht : t ∈ texts) :
    (buildTexts parse platform m t).2 = [] :=
  List.flatMap_eq_nil_iff.mp (List.append_eq_nil_iff.mp hnone).1 t ht

variable {packages : List Package}

/-- A loaded package is that of a directory. -/
theorem IsLoaded.packageOf (h : IsLoaded (packagesOf parse platform m texts) packages)
    (hnone : problemsOf parse disk platform m texts = []) {p : Package} (hp : p ∈ packages) :
    (∃ t ∈ texts, PackageOf parse platform m t.1 t.2 p) ∧ p.tables.isSome = true := by
  obtain ⟨index, hperm⟩ := h.annotated
  obtain ⟨q, hq, rfl⟩ := List.mem_map.mp (hperm.mem_iff.mp hp)
  obtain ⟨t, ht, hpackage⟩ := packageOf_of_mem (fun t => problems_eq_nil_of_mem hnone) hq
  exact ⟨⟨t, ht, hpackage.annotate index⟩, rfl⟩

theorem IsLoaded.exists_packageOf (h : IsLoaded (packagesOf parse platform m texts) packages)
    (hnone : problemsOf parse disk platform m texts = []) {t : OsString × List (OsString × String)}
    (ht : t ∈ texts) {f : OsString × String} (hf : f ∈ t.2)
    (hmatches : platform.matchesSource f.2 = .ok true) :
    ∃ p ∈ packages, PackageOf parse platform m t.1 t.2 p := by
  obtain ⟨index, hperm⟩ := h.annotated
  obtain ⟨q, hq, hpackage⟩ :=
    GoCalls.exists_packageOf (fun t => problems_eq_nil_of_mem hnone) ht hf hmatches
  exact ⟨index.annotate q, hperm.mem_iff.mpr (List.mem_map_of_mem hq), hpackage.annotate index⟩

/-- A file of a loaded package comes of a source file in its directory. -/
theorem IsLoaded.sourceIn {root : OsString} {place : Place}
    (h : IsLoaded (packagesOf parse platform m texts) packages)
    (hnone : problemsOf parse disk platform m texts = [])
    (htexts : SourceTexts disk platform root place texts) {p : Package} (hp : p ∈ packages)
    {file : SourceFile} (hfile : file ∈ p.files) :
    ∃ text, SourceIn disk platform root place p.dir file.path text ∧
      IsFileOf parse platform file.path text file := by
  obtain ⟨⟨t, ht, hpackage⟩, -⟩ := h.packageOf hnone hp
  obtain ⟨f, hf, hof⟩ := hpackage.files.isFileOf hfile
  have hsource := (htexts.mem t.1 f.1 f.2).mp ⟨t, ht, rfl, hf⟩
  rw [← hpackage.dir_eq, ← hof.path_eq] at hsource
  exact ⟨f.2, hsource, hof.path_eq ▸ hof⟩

theorem IsLoaded.paths_perm {built : List Package} (h : IsLoaded built packages) :
    (packages.flatMap fun p => p.files.map (·.path)).Perm
      (built.flatMap fun p => p.files.map (·.path)) := by
  obtain ⟨index, hperm⟩ := h.annotated
  have hfiles := hperm.flatMap_right fun p => p.files.map (·.path)
  rwa [List.flatMap_map] at hfiles

/-- Two packages lie in different directories. -/
theorem IsLoaded.dirs_pairwise (h : IsLoaded (packagesOf parse platform m texts) packages)
    (hdirs : texts.Pairwise fun s t => Path.components s.1 < Path.components t.1) :
    packages.Pairwise fun p q => Path.components p.dir ≠ Path.components q.dir := by
  obtain ⟨index, hperm⟩ := h.annotated
  refine (hperm.pairwise_iff fun hne => hne.symm).mpr ?_
  rw [List.pairwise_map, packagesOf]
  refine List.Pairwise.filterMap _ ?_ hdirs
  intro s t hlt p hp q hq heq
  have hdir : Path.components p.dir = Path.components q.dir := heq
  rw [(dir_of_buildTexts hp).1, (dir_of_buildTexts hq).1] at hdir
  exact List.lt_irrefl _ (hdir ▸ hlt)

end Packages

/-! ## Files -/

/-- **The files of loaded packages** are the source files that take part in the build, each once and
in order, as they were read. -/
theorem loaded_files_exact {parse : String → Option ParseTree} {disk : Disk} {platform : Platform}
    {roots : OsString → Roots} {root : OsString} {packages : List Package} (htree : disk.IsTree)
    (hload : loadPackages parse disk platform roots root = .ok packages) :
    ∃ place, disk.find root = .ok place ∧
      (∀ dir path, (∃ p ∈ packages, p.dir = dir ∧ ∃ file ∈ p.files, file.path = path) ↔
        ∃ names text, IsSource disk platform place names (some text) ∧
          platform.matchesSource text = .ok true ∧ path = names.foldl Path.join root ∧
          disk.find path = .ok (place ++ names) ∧ Path.parent? path = some dir) ∧
      (packages.flatMap fun p => p.files.map (·.path)).Nodup ∧
      (packages.Pairwise fun p q => p.dir ≠ q.dir) ∧
      (∀ p ∈ packages, p.files.Pairwise fun f g =>
        Path.components f.path < Path.components g.path) ∧
      ∀ p ∈ packages, ∀ file ∈ p.files, ∃ text tree next next',
        disk.read file.path = .ok text ∧ parse text = some tree ∧
          lowerFile file.path tree next = (.ok file, next') := by
  obtain ⟨m, place, texts, -, hfind, htexts, hnone, hloaded⟩ := loadPackages_ok htree hload
  refine ⟨place, hfind, fun dir path => ⟨?_, ?_⟩, ?_, ?_, ?_, ?_⟩
  · rintro ⟨p, hp, rfl, file, hfile, rfl⟩
    obtain ⟨text, ⟨names, hsource, hpath, hdir⟩, hof⟩ := hloaded.sourceIn hnone htexts hp hfile
    exact ⟨names, text, hsource, hof.takesPart.chosen, hpath,
      hpath ▸ hsource.find htree hfind, hdir⟩
  · rintro ⟨names, text, hsource, hmatches, hpath, -, hdir⟩
    obtain ⟨t, ht, rfl, hf⟩ := (htexts.mem dir path text).mpr ⟨names, hsource, hpath, hdir⟩
    obtain ⟨p, hp, hpackage⟩ := hloaded.exists_packageOf hnone ht hf hmatches
    obtain ⟨file, hfile, hof⟩ := hpackage.files.exists_file hf hmatches
    exact ⟨p, hp, hpackage.dir_eq, file, hfile, hof.path_eq⟩
  · refine hloaded.paths_perm.nodup_iff.mpr (List.Nodup.sublist (packagesOf_sublist fun t ht =>
      problems_eq_nil_of_mem hnone ht) ?_)
    exact List.pairwise_map.mpr (htexts.ascend.imp Path.Before.ne)
  · exact (hloaded.dirs_pairwise htexts.dirsAscend).imp fun hne heq => hne (by rw [heq])
  · intro p hp
    obtain ⟨⟨t, ht, hpackage⟩, -⟩ := hloaded.packageOf hnone hp
    have hascend : (t.2.map Prod.fst).Pairwise fun a b => Path.components a < Path.components b :=
      List.pairwise_map.mpr (htexts.filesAscend t ht)
    have hpaths := hascend.sublist hpackage.files.sublist
    rwa [List.pairwise_map] at hpaths
  · intro p hp file hfile
    obtain ⟨text, ⟨names, hsource, hpath, -⟩, hof⟩ := hloaded.sourceIn hnone htexts hp hfile
    obtain ⟨tree, next, next', hparse, hlower⟩ := hof.lowered
    exact ⟨text, tree, next, next', hpath ▸ (hsource.read_ok htree hfind).mpr rfl, hparse, hlower⟩

/-- A package inside another, an excluded file, a test and a directory that is left out. -/
def nestedProject : Disk :=
  (((((({} : Disk).addFile ["p", "go.mod"] (some "module m\n")).addFile ["p", "a.go"]
    (some "package a\nimport \"m/in\"\n")).addFile ["p", "tag.go"]
    (some "//go:build other\n\npackage q\n")).addFile ["p", "in", "b.go"]
    (some "package b\n")).addFile ["p", "in", "b_test.go"] (some "package b\n")).addFile
    ["p", "vendor", "v.go"] (some "package v\n")

theorem nestedProject_isTree : nestedProject.IsTree := by
  decide +kernel

theorem nestedProject_loads : ∃ packages,
    loadPackages (some ∘ parseSource) nestedProject {} (fun _ => {}) "/p" = .ok packages := by
  have hloads : (loadPackages (some ∘ parseSource) nestedProject {} (fun _ => {})
      "/p").toOption.isSome = true := by
    decide +kernel
  cases hload : loadPackages (some ∘ parseSource) nestedProject {} (fun _ => {}) "/p" with
  | error failure =>
    rw [hload] at hloads
    cases hloads
  | ok packages => exact ⟨packages, rfl⟩

theorem nestedProject_isSource :
    IsSource nestedProject {} ["p"] ["in", "b.go"] (some "package b\n") := by
  have hsource : IsSource nestedProject {} ["p"] (["in"] ++ ["b.go"]) (some "package b\n") :=
    isSource_concat.mpr ⟨by decide +kernel, isSourceName_iff.mp (by decide +kernel),
      by decide +kernel⟩
  exact hsource

/-- The file is dealt after an excluded one. -/
theorem loaded_files_exact_inner :
    nestedProject.IsTree ∧ ∃ packages,
      loadPackages (some ∘ parseSource) nestedProject {} (fun _ => {}) "/p" = .ok packages ∧
      (∃ p ∈ packages, p.dir = "/p/in" ∧ ∃ file ∈ p.files, file.path = "/p/in/b.go") ∧
      (packages.flatMap fun p => p.files.map (·.path)).Nodup := by
  obtain ⟨packages, hload⟩ := nestedProject_loads
  obtain ⟨place, hfind, hmem, hnodup, -⟩ := loaded_files_exact nestedProject_isTree hload
  have hroot : nestedProject.find "/p" = .ok ["p"] := by decide +kernel
  obtain rfl : (["p"] : Place) = place := Except.ok.inj (hroot.symm.trans hfind)
  refine ⟨nestedProject_isTree, packages, hload, (hmem "/p/in" "/p/in/b.go").mpr ?_, hnodup⟩
  exact ⟨["in", "b.go"], _, nestedProject_isSource, by decide +kernel, by decide +kernel,
    by decide +kernel, by decide +kernel⟩

end GoCalls
