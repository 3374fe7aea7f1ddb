import GoCalls.Proofs.ByteTexts
import GoCalls.Proofs.LoadedFiles
import GoCalls.Proofs.Readers

/-!
# Import paths

The import path of a directory is that of the module with the names that lead from the module to the
directory, as texts. It can be taken back as far as these names are texts: what follows the path of
the module, cut at slashes, leads to the directory again. Names that are none can read alike.

* **`Module.rest?_importPath`**, **`Module.components_directory`**: from a directory to its import
  path, and back.
* **`Module.importPath_eq_iff`**: directories with one import path.
* `mem_missingImports`: the imports that are missed.
* `exists_base`: the directories of a project lie in its module.
* **`import_paths_invert`**: loaded packages and their import paths.
-/

namespace GoCalls

/-! ## Names as texts -/

section Names

variable {name : OsString}

theorem isMark_slash : Text.IsMark '/' := ⟨by decide, by decide⟩

theorem isMark_dot : Text.IsMark '.' := ⟨by decide, by decide⟩

theorem slash_notMem_lossy (h : Path.slash ∉ name) : '/' ∉ (Text.lossy name).toList :=
  fun hmem => h (Text.mem_of_mem_lossy isMark_slash hmem)

theorem Path.IsName.bytes_lossy (h : Path.IsName name) :
    Path.IsName (Text.bytes (Text.lossy name)) := by
  constructor
  · exact fun hslash => slash_notMem_lossy h.noSlash (Text.slash_of_mem_bytes hslash)
  · have hnamed := h.named
    simp only [Path.isEmptyPiece, Bool.or_eq_false_iff, decide_eq_false_iff_not] at hnamed ⊢
    refine ⟨fun hnil => hnamed.1 ?_, fun hdot => hnamed.2 ?_⟩
    · have hread : Text.lossy name = "" := Text.bytes_injective hnil
      exact Text.lossyFrom_none_eq_nil_iff.mp (String.ofList_injective hread)
    · have hread : Text.lossy name = "." := Text.bytes_injective hdot
      exact (Text.lossyFrom_none_eq_mark_iff isMark_dot).mp (String.ofList_injective hread)

/-- Names are the bytes of what is read of them if they are texts. -/
theorem map_bytes_lossy_eq_iff {names : List OsString} :
    (names.map fun name => Text.bytes (Text.lossy name)) = names ↔
      ∀ name ∈ names, Text.IsText name := by
  simp only [Text.isText_iff]
  induction names with
  | nil => simp
  | cons name names ih => rw [List.map_cons, List.cons.injEq, ih, List.forall_mem_cons]

end Names

/-! ## From directories to import paths and back -/

section Split

variable {α : Type} {x : α}

theorem intercalate_concat {front : List (List α)} (hne : front ≠ []) (part : List α) :
    List.intercalate [x] (front ++ [part]) = List.intercalate [x] front ++ x :: part := by
  induction front with
  | nil => exact absurd rfl hne
  | cons first rest ih =>
    cases rest with
    | nil => simp [List.intercalate_cons_cons]
    | cons second rest =>
      rw [List.cons_append, List.cons_append, List.intercalate_cons_cons, ← List.cons_append,
        ih (by simp), List.intercalate_cons_cons]
      simp

theorem splitOn_intercalate_append [BEq α] [LawfulBEq α] {front parts : List (List α)}
    (hne : front ≠ []) (h : ∀ part ∈ parts, x ∉ part) :
    (List.intercalate [x] (front ++ parts)).splitOn x =
      (List.intercalate [x] front).splitOn x ++ parts := by
  induction parts generalizing front with
  | nil => simp
  | cons part parts ih =>
    obtain ⟨hpart, hparts⟩ := List.forall_mem_cons.mp h
    rw [List.append_cons, ih (by simp) hparts, intercalate_concat hne,
      List.splitOn_append_cons_self, List.splitOn_eq_singleton hpart, List.append_assoc]
    rfl

/-- The names after the given ones are its last pieces. -/
theorem splitOn_slash_append {front : List String} (hne : front ≠ []) {names : List OsString}
    (h : ∀ name ∈ names, Path.slash ∉ name) :
    ("/".intercalate (front ++ names.map Text.lossy)).toList.splitOn '/' =
      ("/".intercalate front).toList.splitOn '/' ++ names.map fun name => (Text.lossy name).toList := by
  have hparts : ∀ part ∈ names.map fun name => (Text.lossy name).toList, '/' ∉ part :=
    List.forall_mem_map.mpr fun name hname => slash_notMem_lossy (h name hname)
  rw [String.toList_intercalate, String.toList_intercalate, List.map_append, List.map_map]
  exact splitOn_intercalate_append (by simpa using hne) hparts

theorem cut_slash {names : List OsString} (hne : names ≠ [])
    (h : ∀ name ∈ names, Path.slash ∉ name) :
    Text.cut (· = '/') ("/".intercalate (names.map Text.lossy)).toList =
      names.map fun name => (Text.lossy name).toList := by
  have hparts : ∀ part ∈ names.map fun name => (Text.lossy name).toList, '/' ∉ part :=
    List.forall_mem_map.mpr fun name hname => slash_notMem_lossy (h name hname)
  rw [Text.cut_eq, String.toList_intercalate, List.map_map]
  exact List.splitOn_intercalate '/' hparts (by simpa using hne)

end Split

namespace Module

variable {m : Module}

theorem rest?_eq_some {path rest : String} : m.rest? path = some rest ↔
    path = m.path ∧ rest = "" ∨ path = m.path ++ "/" ++ rest := by
  -- The path of the module does not go on from itself.
  have hself : m.path ≠ m.path ++ "/" ++ rest := by
    intro h
    have hlength := congrArg (fun s => s.toList.length) h
    simp at hlength
  rw [rest?]
  split_ifs with hpath
  · rw [Option.some.injEq, hpath]
    simp [hself, eq_comm]
  · rw [Option.map_eq_some_iff]
    simp only [Text.after?_eq_some, hpath, false_and, false_or]
    constructor
    · rintro ⟨cs, hcs, rfl⟩
      exact String.toList_inj.mp (by simpa using hcs)
    · rintro rfl
      exact ⟨rest.toList, by simp, by simp⟩

theorem importPath_eq {dir : OsString} {names : List OsString}
    (h : Path.components dir = Path.components m.dir ++ names) :
    m.importPath dir = "/".intercalate (m.path :: names.map Text.lossy) := by
  rw [importPath, Path.relative_eq h]

/-- **What follows the path of the module** are the names down to the directory. -/
theorem rest?_importPath {dir : OsString} {names : List OsString}
    (h : Path.components dir = Path.components m.dir ++ names) :
    m.rest? (m.importPath dir) = some ("/".intercalate (names.map Text.lossy)) := by
  rw [importPath_eq h, rest?_eq_some]
  cases names with
  | nil => exact .inl ⟨by simp, by simp⟩
  | cons name names => exact .inr String.intercalate_cons_cons

/-- **Directories with one import path** are those whose names read alike. -/
theorem importPath_eq_iff {a b : OsString} {base below below' : List OsString}
    (hbase : Path.components m.dir <+: base) (ha : Path.components a = base ++ below)
    (hb : Path.components b = base ++ below') (hbelow : ∀ name ∈ below, Path.slash ∉ name)
    (hbelow' : ∀ name ∈ below', Path.slash ∉ name) :
    m.importPath a = m.importPath b ↔ below.map Text.lossy = below'.map Text.lossy := by
  obtain ⟨front, rfl⟩ := hbase
  rw [List.append_assoc] at ha hb
  rw [importPath_eq ha, importPath_eq hb, List.map_append, List.map_append]
  refine ⟨fun heq => ?_, fun heq => by rw [heq]⟩
  have hsplit := congrArg (fun s => s.toList.splitOn '/') heq
  simp only [← List.cons_append, splitOn_slash_append (List.cons_ne_nil _ _) hbelow,
    splitOn_slash_append (List.cons_ne_nil _ _) hbelow', List.append_cancel_left_eq] at hsplit
  simpa [Function.comp_def] using congrArg (List.map String.ofList) hsplit

/-- **The directory for an import path.** -/
theorem components_directory {names : List OsString} (h : ∀ name ∈ names, Path.IsName name) :
    Path.components (m.directory ("/".intercalate (names.map Text.lossy))) =
      Path.components m.dir ++ names.map fun name => Text.bytes (Text.lossy name) := by
  rw [directory]
  by_cases hne : names = []
  · subst hne
    exact (Path.components_join_empty m.dir).trans (List.append_nil _).symm
  · have hback : ∀ name ∈ names.map fun name => Text.bytes (Text.lossy name), Path.IsName name :=
      List.forall_mem_map.mpr fun name hname => (h name hname).bytes_lossy
    rw [cut_slash hne fun name hname => (h name hname).noSlash, List.map_map]
    simpa [Function.comp_def] using Path.components_foldl_join hback m.dir

end Module

/-! ## Missing imports -/

section Missing

variable {disk : Disk} {m : Module} {packages : List Package}

theorem mem_missingImports {problem : Problem} : problem ∈ missingImports disk m packages ↔
    ∃ p ∈ packages, ∃ file ∈ p.files, ∃ i ∈ file.imports, ∃ rest, m.rest? i.path = some rest ∧
      (∀ q ∈ packages, q.path ≠ i.path) ∧ disk.isDir (m.directory rest) = false ∧
      problem = ⟨file.path, .missingImport i.path⟩ := by
  have hloaded : ∀ path, (Std.TreeSet.ofList (packages.map (·.path))).contains path = false ↔
      ∀ q ∈ packages, q.path ≠ path := by
    intro path
    simp [Std.TreeSet.contains_ofList]
  simp only [missingImports, List.mem_flatMap, List.mem_filterMap, bind, Option.bind_eq_some_iff]
  refine exists_congr fun p => and_congr_right fun _ => exists_congr fun file =>
    and_congr_right fun _ => exists_congr fun i => and_congr_right fun _ => exists_congr fun rest =>
    and_congr_right fun _ => ?_
  rw [← hloaded]
  cases (Std.TreeSet.ofList (packages.map (·.path))).contains i.path <;>
    cases disk.isDir (m.directory rest) <;> simp [@eq_comm _ problem]

theorem missingImports_eq_nil_iff : missingImports disk m packages = [] ↔
    ∀ p ∈ packages, ∀ file ∈ p.files, ∀ i ∈ file.imports, ∀ rest, m.rest? i.path = some rest →
      (∃ q ∈ packages, q.path = i.path) ∨ disk.isDir (m.directory rest) = true := by
  rw [List.eq_nil_iff_forall_not_mem]
  constructor
  · intro h p hp file hfile i hi rest hrest
    by_contra hmissed
    obtain ⟨hloaded, hdir⟩ := not_or.mp hmissed
    refine h _ (mem_missingImports.mpr ⟨p, hp, file, hfile, i, hi, rest, hrest, ?_, ?_, rfl⟩)
    · exact fun q hq heq => hloaded ⟨q, hq, heq⟩
    · simpa using hdir
  · intro h problem hmem
    obtain ⟨p, hp, file, hfile, i, hi, rest, hrest, hloaded, hdir, -⟩ := mem_missingImports.mp hmem
    rcases h p hp file hfile i hi rest hrest with ⟨q, hq, heq⟩ | hfound
    · exact hloaded q hq heq
    · rw [hdir] at hfound
      cases hfound

end Missing

/-! ## The directories of a project -/

section Directories

variable {disk : Disk} {root : OsString} {place : Place} {m : Module}

theorem findModule_ok (h : findModule disk root = .ok m) :
    m.dir ∈ Path.ancestors root ∧ disk.isFile (Path.join m.dir "go.mod") = true := by
  rw [findModule] at h
  split at h
  · cases h
  · rename_i dir hdir
    cases hread : disk.read (Path.join dir "go.mod") with
    | error reason => simp [hread, Except.mapError, bind, Except.bind] at h
    | ok text =>
      simp only [hread, Except.mapError, bind, Except.bind] at h
      split at h
      · obtain rfl := Except.ok.inj h
        have hgomod := List.find?_some hdir
        exact ⟨List.mem_of_find?_eq_some hdir, hgomod⟩
      · cases h

theorem findModule_path {dir : OsString} {path : String}
    (h : (findModule disk root).toOption.map (fun m => (m.dir, m.path)) = some (dir, path)) :
    findModule disk root = .ok ⟨dir, path⟩ := by
  cases hm : findModule disk root with
  | error failure => simp [hm, Except.toOption] at h
  | ok m =>
    obtain ⟨rfl, rfl⟩ : m.dir = dir ∧ m.path = path := by simpa [hm, Except.toOption] using h
    rfl

/-- The module lies at or above the directory. -/
theorem findModule_of_file (hmodule : findModule disk root = .ok m)
    (hfind : disk.find root = .ok place) {text : Option String}
    (hfile : disk.node? place = some (.file text)) :
    Path.components m.dir <+: (Path.components root).dropLast := by
  obtain ⟨hmem, hgomod⟩ := findModule_ok hmodule
  refine (Path.mem_ancestors_cases hmem).resolve_left fun heq => ?_
  have hname : Path.IsEntryName "go.mod" := by decide
  cases hjoin : disk.find (Path.join root "go.mod") with
  | error reason => simp [Disk.isFile, Disk.at?, heq, hjoin] at hgomod
  | ok q =>
    rw [Disk.node?_of_find_join hname.toIsName hfind hjoin] at hfile
    cases hfile

/-- **The directories of a project lie in its module**, below one of them. -/
theorem exists_base (platform : Platform) (htree : disk.IsTree)
    (hmodule : findModule disk root = .ok m) (hfind : disk.find root = .ok place) :
    ∃ base, Path.components m.dir <+: base ∧ ∀ dir path text,
      SourceIn disk platform root place dir path text →
      ∃ below, (∀ name ∈ below, Path.IsEntryName name) ∧ Path.components dir = base ++ below := by
  obtain ⟨node, hnode⟩ := htree.exists_node hfind
  cases node with
  | file text =>
    refine ⟨_, findModule_of_file hmodule hfind hnode, ?_⟩
    rintro dir path text' ⟨names, hsource, rfl, hdir⟩
    obtain rfl : names = [] := by
      by_contra hne
      simp [htree.dir hne hsource.file] at hnode
    exact ⟨[], by simp, by simpa using Path.components_parent? hdir⟩
  | dir =>
    refine ⟨_, Path.components_of_mem_ancestors (findModule_ok hmodule).1, ?_⟩
    rintro dir path text ⟨names, hsource, rfl, hdir⟩
    cases names using List.reverseRecOn with
    | nil => simpa [hnode] using hsource.file
    | append_singleton below name =>
      have hnames := htree.isEntryName hsource.file
      refine ⟨below, fun n hn => hnames n (List.mem_append_left _ hn), ?_⟩
      rw [Path.components_parent? hdir, components_below htree hsource.file, ← List.append_assoc,
        List.dropLast_concat]

end Directories

/-! ## Loaded packages -/

section Loaded

variable {parse : String → Option ParseTree} {disk : Disk} {platform : Platform} {root : OsString}
  {place : Place} {m : Module} {texts : DirTexts} {packages : List Package}

theorem IsLoaded.exists_below (h : IsLoaded (packagesOf parse platform m texts) packages)
    (hnone : problemsOf parse disk platform m texts = [])
    (htexts : SourceTexts disk platform root place texts) (htree : disk.IsTree)
    (hmodule : findModule disk root = .ok m) (hfind : disk.find root = .ok place) :
    ∃ base, Path.components m.dir <+: base ∧ ∀ p ∈ packages, ∃ below,
      (∀ name ∈ below, Path.IsEntryName name) ∧ Path.components p.dir = base ++ below := by
  obtain ⟨base, hbase, hbelow⟩ := exists_base platform htree hmodule hfind
  refine ⟨base, hbase, fun p hp => ?_⟩
  obtain ⟨⟨t, ht, hpackage⟩, -⟩ := h.packageOf hnone hp
  obtain ⟨file, hfile⟩ := List.exists_mem_of_ne_nil _ hpackage.nonempty
  obtain ⟨text, hsource, -⟩ := h.sourceIn hnone htexts hp hfile
  exact hbelow _ _ _ hsource

/-- An import of the module leads to a directory. -/
theorem IsLoaded.found (h : IsLoaded (packagesOf parse platform m texts) packages)
    (hnone : problemsOf parse disk platform m texts = []) {p : Package} (hp : p ∈ packages)
    {file : SourceFile} (hfile : file ∈ p.files) {i : Import} (hi : i ∈ file.imports)
    {rest : String} (hrest : m.rest? i.path = some rest) :
    (∃ q ∈ packages, q.path = i.path) ∨ disk.isDir (m.directory rest) = true := by
  obtain ⟨index, hperm⟩ := h.annotated
  obtain ⟨p, hbuilt, rfl⟩ := List.mem_map.mp (hperm.mem_iff.mp hp)
  have hmissing := missingImports_eq_nil_iff.mp (List.append_eq_nil_iff.mp hnone).2
  refine (hmissing p hbuilt file hfile i hi rest hrest).imp_left ?_
  rintro ⟨q, hq, hpath⟩
  exact ⟨index.annotate q, hperm.mem_iff.mpr (List.mem_map_of_mem hq), hpath⟩

end Loaded

/-- **Loaded packages and their import paths.** The import path of a directory of the module leads
back to it exactly if its names are texts. -/
theorem import_paths_invert {parse : String → Option ParseTree} {disk : Disk} {platform : Platform}
    {roots : OsString → Roots} {root : OsString} {packages : List Package} (htree : disk.IsTree)
    (hload : loadPackages parse disk platform roots root = .ok packages) :
    ∃ m, findModule disk root = .ok m ∧
      (packages.Pairwise fun p q => p.path ≤ q.path) ∧
      (∀ p ∈ packages, ∀ q ∈ packages, p.path = q.path ↔
        (Path.relative m.dir p.dir).map Text.lossy = (Path.relative m.dir q.dir).map Text.lossy) ∧
      ((∀ p ∈ packages, ∀ name ∈ Path.relative m.dir p.dir, Text.IsText name) →
        packages.Pairwise fun p q => p.path < q.path) ∧
      (∀ p ∈ packages, p.files ≠ [] ∧ p.name ≠ "" ∧ (∀ file ∈ p.files, file.package = p.name) ∧
        p.tables.isSome = true ∧ p.path = m.importPath p.dir ∧
        Path.components m.dir <+: Path.components p.dir) ∧
      (∀ p ∈ packages, ∀ file ∈ p.files, ∃ text tree, disk.read file.path = .ok text ∧
        parse text = some tree ∧
        file.imports = (ParseTree.named tree.parts).flatMap importSpecs ∧
        ∀ i ∈ file.imports, ∀ rest, m.rest? i.path = some rest →
          (∃ q ∈ packages, q.path = i.path) ∨ disk.isDir (m.directory rest) = true) ∧
      ∀ dir names, Path.components dir = Path.components m.dir ++ names →
        (m.dir = [] → ∀ name ∈ names, Path.IsName name) →
        ∃ rest, m.rest? (m.importPath dir) = some rest ∧
          (Path.components (m.directory rest) = Path.components dir ↔
            ∀ name ∈ names, Text.IsText name) ∧
          ((∀ name ∈ names, Text.IsText name) →
            disk.isDir (m.directory rest) = disk.isDir dir ∧
            (disk.isDir dir = true → ∀ loaded, ∀ problem ∈ missingImports disk m loaded,
              problem.cause ≠ .missingImport (m.importPath dir))) := by
  obtain ⟨m, place, texts, hmodule, hfind, htexts, hnone, hloaded⟩ := loadPackages_ok htree hload
  obtain ⟨base, hbase, hdirs⟩ := hloaded.exists_below hnone htexts htree hmodule hfind
  have hpaths : ∀ p ∈ packages, p.path = m.importPath p.dir := by
    intro p hp
    obtain ⟨⟨t, ht, hpackage⟩, -⟩ := hloaded.packageOf hnone hp
    rw [hpackage.path_eq, hpackage.dir_eq]
  have hrelative : ∀ p ∈ packages,
      Path.components p.dir = Path.components m.dir ++ Path.relative m.dir p.dir := by
    intro p hp
    obtain ⟨below, -, hp'⟩ := hdirs p hp
    obtain ⟨front, rfl⟩ := hbase
    rw [List.append_assoc] at hp'
    rw [Path.relative_eq hp', hp']
  have heq_iff : ∀ p ∈ packages, ∀ q ∈ packages, p.path = q.path ↔
      (Path.relative m.dir p.dir).map Text.lossy = (Path.relative m.dir q.dir).map Text.lossy := by
    intro p hp q hq
    obtain ⟨below, hnames, hp'⟩ := hdirs p hp
    obtain ⟨below', hnames', hq'⟩ := hdirs q hq
    rw [hpaths p hp, hpaths q hq, Module.importPath_eq_iff hbase hp' hq'
      (fun name h => (hnames name h).noSlash) fun name h => (hnames' name h).noSlash]
    obtain ⟨front, rfl⟩ := hbase
    rw [List.append_assoc] at hp' hq'
    rw [Path.relative_eq hp', Path.relative_eq hq', List.map_append, List.map_append,
      List.append_cancel_left_eq]
  refine ⟨m, hmodule, hloaded.ascend, heq_iff, fun htext => ?_, ?_, ?_, ?_⟩
  · -- Two packages with one import path would lie in one directory.
    have hne := hloaded.dirs_pairwise htexts.dirsAscend
    refine (hloaded.ascend.and hne).imp_of_mem fun {p q} hp hq ⟨hle, hdir⟩ => ?_
    refine String.not_le.mp fun hge => hdir ?_
    have hread := congrArg (List.map Text.bytes)
      ((heq_iff p hp q hq).mp (String.le_antisymm hle hge))
    rw [List.map_map, List.map_map] at hread
    rw [hrelative p hp, hrelative q hq, ← map_bytes_lossy_eq_iff.mpr (htext p hp),
      ← map_bytes_lossy_eq_iff.mpr (htext q hq)]
    exact congrArg _ hread
  · intro p hp
    obtain ⟨⟨t, ht, hpackage⟩, htables⟩ := hloaded.packageOf hnone hp
    obtain ⟨file, hfile⟩ := List.exists_mem_of_ne_nil _ hpackage.nonempty
    obtain ⟨text, -, hof⟩ := hloaded.sourceIn hnone htexts hp hfile
    obtain ⟨below, -, hdir⟩ := hdirs p hp
    refine ⟨hpackage.nonempty, ?_, hpackage.named, htables, hpaths p hp, ?_⟩
    · rw [← hpackage.named file hfile]
      exact hof.takesPart.sound.named
    · rw [hdir]
      exact hbase.trans (List.prefix_append _ _)
  · intro p hp file hfile
    obtain ⟨text, ⟨names, hsource, hpath, -⟩, hof⟩ := hloaded.sourceIn hnone htexts hp hfile
    obtain ⟨tree, hparse, -, -, -, himports⟩ := hof.takesPart.sound.tree
    exact ⟨text, tree, hpath ▸ (hsource.read_ok htree hfind).mpr rfl, hparse, himports.symm,
      fun i hi rest hrest => hloaded.found hnone hp hfile hi hrest⟩
  · intro dir names hdir hproper
    have hnames : ∀ name ∈ names, Path.IsName name := by
      by_cases hempty : m.dir = []
      · exact hproper hempty
      · exact Path.isName_of_components hempty hdir
    have hrest := Module.rest?_importPath hdir
    have hback := Module.components_directory (m := m) hnames
    have hback_iff : Path.components (m.directory ("/".intercalate (names.map Text.lossy))) =
        Path.components dir ↔ ∀ name ∈ names, Text.IsText name := by
      rw [hback, hdir, List.append_cancel_left_eq, map_bytes_lossy_eq_iff]
    refine ⟨_, hrest, hback_iff, fun htext => ?_⟩
    have hisDir : disk.isDir _ = disk.isDir dir := Disk.isDir_of_components (hback_iff.mpr htext)
    refine ⟨hisDir, fun hexists loaded problem hmem hcause => ?_⟩
    obtain ⟨p, -, file, -, i, -, rest, hrest', -, hmissing, rfl⟩ := mem_missingImports.mp hmem
    obtain hi : i.path = m.importPath dir := by simpa using hcause
    rw [hi, hrest, Option.some.injEq] at hrest'
    rw [← hrest', hisDir, hexists] at hmissing
    cases hmissing

/-- The inner package of a project, and the directory for its import path. -/
theorem import_paths_invert_inner :
    nestedProject.IsTree ∧ ∃ packages,
      loadPackages (some ∘ parseSource) nestedProject {} (fun _ => {}) "/p" = .ok packages ∧
      (packages.Pairwise fun p q => p.path ≤ q.path) ∧
      ∃ m, findModule nestedProject "/p" = .ok m ∧ m.importPath "/p/in" = "m/in" ∧
        ∃ rest, m.rest? "m/in" = some rest ∧
          Path.components (m.directory rest) = Path.components "/p/in" := by
  obtain ⟨packages, hload⟩ := nestedProject_loads
  obtain ⟨m, hmodule, hascend, -, -, -, -, hinvert⟩ :=
    import_paths_invert nestedProject_isTree hload
  have hfound : findModule nestedProject "/p" = .ok ⟨"/p", "m"⟩ := findModule_path (by decide +kernel)
  obtain rfl : ⟨"/p", "m"⟩ = m := Except.ok.inj (hfound.symm.trans hmodule)
  have hbelow : Path.components "/p/in" = Path.components "/p" ++ [Text.bytes "in"] := by
    decide +kernel
  have himport : Module.importPath ⟨"/p", "m"⟩ "/p/in" = "m/in" := by decide +kernel
  obtain ⟨rest, hrest, hback, -⟩ := hinvert "/p/in" _ hbelow fun hnil => absurd hnil (by decide)
  rw [himport] at hrest
  refine ⟨nestedProject_isTree, packages, hload, hascend, _, hmodule, himport, rest, hrest, ?_⟩
  exact hback.mpr fun name hname => ⟨"in", (List.mem_singleton.mp hname).symm⟩

/-- A project with an import in which a character of the path is escaped. -/
def escapedProject : Disk :=
  ((({} : Disk).addFile ["p", "go.mod"] (some "module m\n")).addFile ["p", "main.go"]
    (some "package main\nimport \"m/\\u0061\"\n")).addFile ["p", "a", "a.go"]
    (some "package a\n")

/-- A project with two directories whose names are no texts. -/
def twinProject : Disk :=
  ((({} : Disk).addFile ["p", "go.mod"] (some "module m\n")).addFile
    ["p", [0x61, 0xFE], "a.go"] (some "package a\n")).addFile
    ["p", [0x61, 0xFF], "a.go"] (some "package a\n")

/-- Loading keeps the import paths. -/
theorem loadPackages_paths {parse : String → Option ParseTree} {disk : Disk} {platform : Platform}
    (roots : OsString → Roots) {root : OsString} {m : Module} {paths : List String}
    (hmodule : findModule disk root = .ok m)
    (h : (parsePackages parse disk platform m root).map (List.map (·.path)) = .ok paths) :
    ∃ packages, loadPackages parse disk platform roots root = .ok packages ∧
      (packages.map (·.path)).Perm paths := by
  obtain ⟨finish, hfinish, heq⟩ := loadPackages_of_module hmodule
  cases hparse : parsePackages parse disk platform m root with
  | error failure => simp [hparse, Except.map] at h
  | ok built =>
    obtain rfl : built.map (·.path) = paths := by simpa [hparse, Except.map] using h
    refine ⟨finish built, by rw [heq, hparse]; rfl, ?_⟩
    obtain ⟨index, hperm⟩ := (hfinish built).annotated
    have hpaths := hperm.map (·.path)
    rwa [List.map_map] at hpaths

/-- An import path with an escape misses its package, and two packages have one import path. -/
theorem import_paths_differ :
    (loadPackages (some ∘ parseSource) escapedProject {} (fun _ => {}) "/p").map
        (List.map (·.path)) =
      .error (.problems [⟨"/p/main.go", .missingImport "m/\\u0061"⟩]) ∧
    (parsePackages (some ∘ parseSource) escapedProject {} ⟨"/p", "m"⟩ "/p/a").map
        (List.map (·.path)) = .ok ["m/a"] ∧
    ∃ packages, loadPackages (some ∘ parseSource) twinProject {} (fun _ => {}) "/p" = .ok packages ∧
      packages.map (·.path) = ["m/a\uFFFD", "m/a\uFFFD"] := by
  refine ⟨by decide +kernel, by decide +kernel, ?_⟩
  have hmodule : findModule twinProject "/p" = .ok ⟨"/p", "m"⟩ := findModule_path (by decide +kernel)
  have hparse : (parsePackages (some ∘ parseSource) twinProject {} ⟨"/p", "m"⟩ "/p").map
      (List.map (·.path)) = .ok ["m/a\uFFFD", "m/a\uFFFD"] := by
    decide +kernel
  obtain ⟨packages, hload, hperm⟩ := loadPackages_paths (fun _ => {}) hmodule hparse
  exact ⟨packages, hload, (List.perm_replicate (n := 2)).mp hperm⟩

end GoCalls
