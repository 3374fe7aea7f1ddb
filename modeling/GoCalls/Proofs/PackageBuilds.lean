import GoCalls.Proofs.LoweredFiles
import GoCalls.Proofs.ProjectFiles

/-!
# Building the packages of a project

The files of a project are parsed as one list, in which there is nothing for those that are left out,
and dealt to their directories. Each file goes where it came from, and each text by itself decides
what comes of it: it is left out, takes part in the build, or is reported. So a broken file changes
nothing for the others.

* **`deal_flatMap`**: parsed files are dealt to the directories that they came from.
* `SourceTexts`: the texts of the source files of a project, directory by directory.
* `TakesPart`, `Offends`: what a text decides.
* **`buildFile_cases`**, **`buildPackage_cases`**: what comes of a file and of a directory.
* **`loadPackages_ok`**, **`loadPackages_of_texts`**: what comes of a project.
-/

namespace GoCalls

open ParseTree

/-! ## Dealing -/

/-- **Parsed files are dealt** to the directories that they came from. -/
theorem deal_flatMap (g : OsString → Option ParsedFile) (dirs : List SourceDir) :
    deal dirs ((dirs.flatMap (·.files)).map g) = dirs.map fun d => (d.dir, d.files.filterMap g) := by
  induction dirs with
  | nil => rfl
  | cons d dirs ih =>
    rw [List.flatMap_cons, List.map_append, deal, List.map_cons]
    have hlength : d.files.length = (d.files.map g).length := (List.length_map g).symm
    rw [hlength, List.take_left, List.drop_left, ih, List.reduceOption, List.filterMap_map]
    rfl

/-! ## The texts of a project -/

section Traverse

variable {ε α β : Type} {f : α → Except ε β}

theorem mapM_ok_iff {g : α → β} {P : α → Prop} (h : ∀ a b, f a = .ok b ↔ P a ∧ b = g a)
    {as : List α} {bs : List β} : as.mapM f = .ok bs ↔ (∀ a ∈ as, P a) ∧ bs = as.map g := by
  induction as generalizing bs with
  | nil => simp [pure, Except.pure, eq_comm]
  | cons a as ih =>
    rw [List.mapM_cons, List.forall_mem_cons, List.map_cons]
    constructor
    · intro hbs
      cases ha : f a with
      | error e => simp [ha, bind, Except.bind] at hbs
      | ok b =>
        cases has : as.mapM f with
        | error e => simp [ha, has, bind, Except.bind] at hbs
        | ok bs' =>
          obtain rfl : b :: bs' = bs := by
            simpa [ha, has, bind, Except.bind, pure, Except.pure] using hbs
          obtain ⟨hP, rfl⟩ := (h a b).mp ha
          obtain ⟨hall, rfl⟩ := ih.mp has
          exact ⟨⟨hP, hall⟩, rfl⟩
    · rintro ⟨⟨hP, hall⟩, rfl⟩
      simp [(h a _).mpr ⟨hP, rfl⟩, ih.mpr ⟨hall, rfl⟩, bind, Except.bind, pure, Except.pure]

end Traverse

/-- The text of a file, or nothing. -/
def fileText (disk : Disk) (path : OsString) : String := (disk.read path).toOption.getD ""

/-- A file can be read. -/
def IsReadable (disk : Disk) (path : OsString) : Prop := ∃ text, disk.read path = .ok text

theorem fileText_of_read {disk : Disk} {path : OsString} {text : String}
    (h : disk.read path = .ok text) : fileText disk path = text := by
  rw [fileText, h]
  rfl

theorem IsReadable.read {disk : Disk} {path : OsString} (h : IsReadable disk path) :
    disk.read path = .ok (fileText disk path) := by
  obtain ⟨text, htext⟩ := h
  rw [fileText_of_read htext, htext]

theorem parseFile_ok_iff {parse : String → Option ParseTree} {disk : Disk} {platform : Platform}
    (path : OsString) (parsed : Option ParsedFile) :
    parseFile parse disk platform path = .ok parsed ↔
      IsReadable disk path ∧ parsed = parsedText? parse platform path (fileText disk path) := by
  rw [parseFile]
  cases h : disk.read path with
  | error reason => simp [IsReadable, h, bind, Except.bind, Except.mapError]
  | ok text =>
    rw [fileText_of_read h]
    simp [IsReadable, h, bind, Except.bind, Except.mapError, pure, Except.pure, eq_comm]

/-- Directories, each with the paths and texts of its files. -/
abbrev DirTexts := List (OsString × List (OsString × String))

/-- The texts of the files of directories. -/
def dirTexts (disk : Disk) (dirs : List SourceDir) : DirTexts :=
  dirs.map fun d => (d.dir, d.files.map fun path => (path, fileText disk path))

section Texts

variable {disk : Disk} {platform : Platform} {root : OsString} {place : Place}

theorem IsSource.find (htree : disk.IsTree) (hfind : disk.find root = .ok place) {names : Place}
    {text : Option String} (h : IsSource disk platform place names text) :
    disk.find (names.foldl Path.join root) = .ok (place ++ names) :=
  Disk.find_foldl_join htree hfind h.file

theorem IsSource.read_ok (htree : disk.IsTree) (hfind : disk.find root = .ok place) {names : Place}
    {text : Option String} {s : String} (h : IsSource disk platform place names text) :
    disk.read (names.foldl Path.join root) = .ok s ↔ text = some s := by
  rw [Disk.read, h.find htree hfind]
  cases text <;> simp [bind, Except.bind, h.file, pure, Except.pure]

/-- A source file of the project `root`, which stands at `place`: its directory, its path and its
text. -/
def SourceIn (disk : Disk) (platform : Platform) (root : OsString) (place : Place)
    (dir path : OsString) (text : String) : Prop :=
  ∃ names, IsSource disk platform place names (some text) ∧ path = names.foldl Path.join root ∧
    Path.parent? path = some dir

/-- Some texts are those of the source files of a project, directory by directory. -/
structure SourceTexts (disk : Disk) (platform : Platform) (root : OsString) (place : Place)
    (texts : DirTexts) : Prop where
  mem : ∀ dir path text, (∃ t ∈ texts, t.1 = dir ∧ (path, text) ∈ t.2) ↔
    SourceIn disk platform root place dir path text
  dirsAscend : texts.Pairwise fun s t => Path.components s.1 < Path.components t.1
  filesAscend : ∀ t ∈ texts, t.2.Pairwise fun a b => Path.components a.1 < Path.components b.1

theorem sourceTexts_dirTexts (htree : disk.IsTree) (hfind : disk.find root = .ok place)
    {dirs : List SourceDir} (hdirs : ListsSources disk platform root place dirs)
    (hread : ∀ path ∈ dirs.flatMap (·.files), IsReadable disk path) :
    SourceTexts disk platform root place (dirTexts disk dirs) := by
  refine ⟨fun dir path text => ?_, ?_, ?_⟩
  · simp only [dirTexts, List.mem_map, exists_exists_and_eq_and, Prod.mk.injEq]
    constructor
    · rintro ⟨d, hd, rfl, _, hpath, rfl, rfl⟩
      have hreadable := hread _ (List.mem_flatMap.mpr ⟨d, hd, hpath⟩)
      obtain ⟨names, text, hsource, rfl, hdir⟩ := (hdirs.mem d.dir _).mp ⟨d, hd, rfl, hpath⟩
      rw [(hsource.read_ok htree hfind).mp hreadable.read] at hsource
      exact ⟨names, hsource, rfl, hdir⟩
    · rintro ⟨names, hsource, rfl, hdir⟩
      obtain ⟨d, hd, rfl, hpath⟩ := (hdirs.mem dir _).mpr ⟨names, _, hsource, rfl, hdir⟩
      exact ⟨d, hd, rfl, _, hpath, rfl, fileText_of_read ((hsource.read_ok htree hfind).mpr rfl)⟩
  · exact List.pairwise_map.mpr hdirs.dirsAscend
  · refine List.forall_mem_map.mpr fun d hd => List.pairwise_map.mpr (hdirs.filesAscend d hd)

end Texts

/-! ## What a text decides -/

theorem ParseTree.syntaxErrors_eq_nil_iff {tree : ParseTree} :
    tree.syntaxErrors = [] ↔ tree.hasError = false := by
  rw [← List.length_eq_zero_iff, syntaxErrors, List.length_mergeSort, List.length_eq_zero_iff,
    hasError, Bool.not_eq_false', List.isEmpty_iff]

/-- A text is sound: its tree has no errors, is not nested too deeply and names a package. -/
structure IsSound (parse : String → Option ParseTree) (text package : String)
    (imports : List Import) : Prop where
  tree : ∃ tree, parse text = some tree ∧ tree.hasError = false ∧ tree.fileLevels ≤ maxNesting ∧
    ((named tree.parts).filterMap packageName?).getLast? = some package ∧
    (named tree.parts).flatMap importSpecs = imports
  named : package ≠ ""

section Files

variable {parse : String → Option ParseTree} {platform : Platform}

/-- A file with the given text takes part in the build. -/
structure TakesPart (parse : String → Option ParseTree) (platform : Platform)
    (text package : String) (imports : List Import) : Prop where
  chosen : platform.matchesSource text = .ok true
  sound : IsSound parse text package imports

/-- A file is reported: its constraint is malformed, or it takes part and its text is not sound. -/
def Offends (parse : String → Option ParseTree) (platform : Platform) (text : String) : Prop :=
  (∃ reason, platform.matchesSource text = .error reason) ∨
    platform.matchesSource text = .ok true ∧ ∀ package imports, ¬ IsSound parse text package imports

/-- A file comes of a text that takes part in the build. -/
structure IsFileOf (parse : String → Option ParseTree) (platform : Platform) (path : OsString)
    (text : String) (file : SourceFile) : Prop where
  lowered : ∃ tree next next', parse text = some tree ∧
    lowerFile path tree next = (.ok file, next')
  path_eq : file.path = path
  takesPart : TakesPart parse platform text file.package file.imports

theorem TakesPart.not_offends {text package : String} {imports : List Import}
    (h : TakesPart parse platform text package imports) : ¬ Offends parse platform text := by
  rintro (⟨reason, hreason⟩ | ⟨-, hunsound⟩)
  · rw [h.chosen] at hreason
    cases hreason
  · exact hunsound package imports h.sound

theorem IsSound.of_tree {text package : String} {imports : List Import} {tree : ParseTree}
    (h : IsSound parse text package imports) (htree : parse text = some tree) :
    tree.hasError = false ∧ tree.fileLevels ≤ maxNesting ∧
      ((ParseTree.named tree.parts).filterMap packageName?).getLast? = some package ∧
      (ParseTree.named tree.parts).flatMap importSpecs = imports := by
  obtain ⟨tree', htree', hsound⟩ := h.tree
  obtain rfl : tree' = tree := Option.some.inj (htree'.symm.trans htree)
  exact hsound

/-- A tree without errors that names a package is sound. -/
theorem isSound_of_lowerFile {path : OsString} {text : String} {tree : ParseTree} {next next' : Nat}
    {file : SourceFile} (htree : parse text = some tree) (herror : tree.hasError = false)
    (h : lowerFile path tree next = (.ok file, next')) (hnamed : file.package ≠ "") :
    IsSound parse text file.package file.imports := by
  have hfile := isLowered False nofun h
  have hlevels : tree.fileLevels ≤ maxNesting :=
    lowerFile_ok_iff.mp ⟨file, congrArg Prod.fst h⟩
  refine ⟨⟨tree, htree, herror, hlevels, ?_, hfile.imports_eq.symm⟩, hnamed⟩
  have hpackage := hfile.package_eq
  cases hclause : ((ParseTree.named tree.parts).filterMap packageName?).getLast? with
  | none =>
    rw [hclause] at hpackage
    exact absurd hpackage hnamed
  | some package =>
    rw [hclause] at hpackage
    exact congrArg some hpackage.symm

/-- The problems with the syntax of a text. -/
def syntaxProblems (path : OsString) (tree : ParseTree) : List Problem :=
  tree.syntaxErrors.map fun spot => ⟨path, .syntaxError spot⟩

theorem mem_syntaxProblems {path : OsString} {tree : ParseTree} (h : tree.hasError = true) :
    path ∈ (syntaxProblems path tree).map (·.path) := by
  have hne : tree.syntaxErrors ≠ [] := fun hnil => by simp [syntaxErrors_eq_nil_iff.mp hnil] at h
  obtain ⟨spot, hspot⟩ := List.exists_mem_of_ne_nil _ hne
  exact List.mem_map.mpr ⟨_, List.mem_map_of_mem hspot, rfl⟩

theorem buildFile_tree_cases {path : OsString} {text : String} {tree : ParseTree}
    (htree : parse text = some tree) (next : Nat) :
    (∀ package imports, ¬ IsSound parse text package imports) ∧
        path ∈ (buildFile next ⟨path, some tree, syntaxProblems path tree⟩).1.problems.map (·.path) ∨
      ∃ file next', lowerFile path tree next = (.ok file, next') ∧
        IsSound parse text file.package file.imports ∧
        (buildFile next ⟨path, some tree, syntaxProblems path tree⟩).1 = { files := [file] } := by
  rcases hlower : lowerFile path tree next with ⟨spot | file, next'⟩
  · refine .inl ⟨fun package imports hsound => ?_, by simp [buildFile, hlower]⟩
    obtain ⟨file, hfile⟩ := (@lowerFile_ok_iff path tree next).mpr (hsound.of_tree htree).2.1
    rw [hlower] at hfile
    cases hfile
  · by_cases hpackage : file.package = ""
    · refine .inl ⟨fun package imports hsound => ?_, by simp [buildFile, hlower, hpackage]⟩
      have hfile := (isLowered False nofun hlower).package_eq
      rw [(hsound.of_tree htree).2.2.1, hpackage, Option.getD_some] at hfile
      exact hsound.named hfile.symm
    · have hproblems : (buildFile next ⟨path, some tree, syntaxProblems path tree⟩).1 =
          ⟨[file], syntaxProblems path tree⟩ := by
        simp [buildFile, hlower, hpackage]
      rw [hproblems]
      cases herror : tree.hasError with
      | true =>
        refine .inl ⟨fun package imports hsound => ?_, mem_syntaxProblems herror⟩
        exact Bool.false_ne_true ((hsound.of_tree htree).1.symm.trans herror)
      | false =>
        refine .inr ⟨file, next', rfl, isSound_of_lowerFile htree herror hlower hpackage, ?_⟩
        rw [syntaxProblems, syntaxErrors_eq_nil_iff.mpr herror]
        rfl

/-- **What comes of one file**: it is reported, left out, or built. -/
theorem buildFile_cases (parse : String → Option ParseTree) (platform : Platform) (next : Nat)
    (path : OsString) (text : String) :
    (∃ parsed, parsedText? parse platform path text = some parsed ∧ Offends parse platform text ∧
        path ∈ (buildFile next parsed).1.problems.map (·.path)) ∨
      (platform.matchesSource text = .ok false ∧ parsedText? parse platform path text = none) ∨
      ∃ parsed file, parsedText? parse platform path text = some parsed ∧
        IsFileOf parse platform path text file ∧ (buildFile next parsed).1 = { files := [file] } := by
  cases hmatches : platform.matchesSource text with
  | error reason =>
    exact .inl ⟨_, by rw [parsedText?, hmatches], .inl ⟨reason, hmatches⟩, List.mem_singleton_self _⟩
  | ok chosen =>
    cases chosen with
    | false => exact .inr (.inl ⟨rfl, by rw [parsedText?, hmatches]⟩)
    | true =>
      have hparsed : parsedText? parse platform path text = some (parseText parse path text) := by
        rw [parsedText?, hmatches]
      cases htree : parse text with
      | none =>
        refine .inl ⟨_, hparsed, .inr ⟨hmatches, fun package imports hsound => ?_⟩, ?_⟩
        · obtain ⟨tree, htree', -⟩ := hsound.tree
          rw [htree] at htree'
          cases htree'
        · rw [parseText, htree]
          exact List.mem_singleton_self _
      | some tree =>
        have htext : parseText parse path text = ⟨path, some tree, syntaxProblems path tree⟩ := by
          rw [parseText, htree, syntaxProblems]
        rw [htext] at hparsed
        obtain ⟨hunsound, hproblem⟩ | ⟨file, next', hlower, hsound, hbuild⟩ :=
          buildFile_tree_cases htree next
        · exact .inl ⟨_, hparsed, .inr ⟨hmatches, hunsound⟩, hproblem⟩
        · have hpath := (isLowered False nofun hlower).path_eq
          exact .inr (.inr ⟨_, file, hparsed, ⟨⟨tree, next, next', htree, hlower⟩, hpath,
            hmatches, hsound⟩, hbuild⟩)

/-! ## The files of a directory -/

/-- The files with the given texts that are not left out. -/
def batchOf (parse : String → Option ParseTree) (platform : Platform)
    (texts : List (OsString × String)) : List ParsedFile :=
  texts.filterMap fun t => parsedText? parse platform t.1 t.2

theorem batchOf_cons_some {path : OsString} {text : String} {parsed : ParsedFile}
    (h : parsedText? parse platform path text = some parsed) (rest : List (OsString × String)) :
    batchOf parse platform ((path, text) :: rest) = parsed :: batchOf parse platform rest :=
  List.filterMap_cons_some h

theorem batchOf_cons_none {path : OsString} {text : String}
    (h : parsedText? parse platform path text = none) (rest : List (OsString × String)) :
    batchOf parse platform ((path, text) :: rest) = batchOf parse platform rest :=
  List.filterMap_cons_none h

theorem buildFiles_cons (next : Nat) (parsed : ParsedFile) (rest : List ParsedFile) :
    buildFiles next (parsed :: rest) =
      ⟨(buildFile next parsed).1.files ++ (buildFiles (buildFile next parsed).2 rest).files,
        (buildFile next parsed).1.problems ++
          (buildFiles (buildFile next parsed).2 rest).problems⟩ := rfl

open scoped Classical in
/-- The paths of the offending files. -/
noncomputable def offenders (parse : String → Option ParseTree) (platform : Platform)
    (texts : List (OsString × String)) : List OsString :=
  (texts.filter fun t => Offends parse platform t.2).map Prod.fst

theorem mem_offenders {texts : List (OsString × String)} {path : OsString} :
    path ∈ offenders parse platform texts ↔
      ∃ text, (path, text) ∈ texts ∧ Offends parse platform text := by
  simp [offenders]

/-- **All offending files are reported**, in their order. -/
theorem offenders_sublist (parse : String → Option ParseTree) (platform : Platform) (next : Nat)
    (texts : List (OsString × String)) :
    (offenders parse platform texts).Sublist
      ((buildFiles next (batchOf parse platform texts)).problems.map (·.path)) := by
  induction texts generalizing next with
  | nil => exact .slnil
  | cons t rest ih =>
    obtain ⟨path, text⟩ := t
    obtain ⟨parsed, hparsed, hoffends, hproblem⟩ | ⟨hmatches, hparsed⟩ |
      ⟨parsed, file, hparsed, hfile, hbuild⟩ := buildFile_cases parse platform next path text
    · have hcons : offenders parse platform ((path, text) :: rest) =
          [path] ++ offenders parse platform rest := by
        simp [offenders, hoffends]
      rw [hcons, batchOf_cons_some hparsed, buildFiles_cons, List.map_append]
      exact (List.singleton_sublist.mpr hproblem).append (ih _)
    · have hcons : offenders parse platform ((path, text) :: rest) =
          offenders parse platform rest := by
        simp [offenders, Offends, hmatches]
      rw [hcons, batchOf_cons_none hparsed]
      exact ih next
    · have hcons : offenders parse platform ((path, text) :: rest) =
          offenders parse platform rest := by
        simp [offenders, hfile.takesPart.not_offends]
      rw [hcons, batchOf_cons_some hparsed, buildFiles_cons, hbuild]
      exact ih _

/-- Some files come of texts, none of which offends. -/
inductive BuiltFrom (parse : String → Option ParseTree) (platform : Platform) :
    List (OsString × String) → List SourceFile → Prop
  | nil : BuiltFrom parse platform [] []
  | skip {path : OsString} {text : String} {rest : List (OsString × String)}
      {files : List SourceFile} (excluded : platform.matchesSource text = .ok false)
      (others : BuiltFrom parse platform rest files) :
      BuiltFrom parse platform ((path, text) :: rest) files
  | take {path : OsString} {text : String} {rest : List (OsString × String)} {file : SourceFile}
      {files : List SourceFile} (isFile : IsFileOf parse platform path text file)
      (others : BuiltFrom parse platform rest files) :
      BuiltFrom parse platform ((path, text) :: rest) (file :: files)

/-- When no text offends, the files come of the texts. -/
theorem buildFiles_builtFrom (next : Nat) {texts : List (OsString × String)}
    (h : ∀ t ∈ texts, ¬ Offends parse platform t.2) :
    BuiltFrom parse platform texts (buildFiles next (batchOf parse platform texts)).files ∧
      (buildFiles next (batchOf parse platform texts)).problems = [] := by
  induction texts generalizing next with
  | nil => exact ⟨.nil, rfl⟩
  | cons t rest ih =>
    obtain ⟨path, text⟩ := t
    obtain ⟨hsound, hrest⟩ := List.forall_mem_cons.mp h
    obtain ⟨-, -, hoffends, -⟩ | ⟨hmatches, hparsed⟩ | ⟨parsed, file, hparsed, hfile, hbuild⟩ :=
      buildFile_cases parse platform next path text
    · exact absurd hoffends hsound
    · rw [batchOf_cons_none hparsed]
      exact ⟨.skip hmatches (ih next hrest).1, (ih next hrest).2⟩
    · rw [batchOf_cons_some hparsed, buildFiles_cons, hbuild]
      exact ⟨.take hfile (ih _ hrest).1, (ih _ hrest).2⟩

theorem buildFiles_problems_eq_nil_iff (next : Nat) {texts : List (OsString × String)} :
    (buildFiles next (batchOf parse platform texts)).problems = [] ↔
      ∀ t ∈ texts, ¬ Offends parse platform t.2 := by
  refine ⟨fun hnone t ht hoffends => ?_, fun h => (buildFiles_builtFrom next h).2⟩
  have hreported := (offenders_sublist parse platform next texts).subset
    (mem_offenders.mpr ⟨t.2, ht, hoffends⟩)
  rw [hnone] at hreported
  cases hreported

namespace BuiltFrom

variable {texts : List (OsString × String)} {files : List SourceFile}

theorem sublist (h : BuiltFrom parse platform texts files) :
    (files.map (·.path)).Sublist (texts.map Prod.fst) := by
  induction h with
  | nil => exact .slnil
  | skip _ _ ih => exact ih.cons _
  | take hfile _ ih =>
    rw [List.map_cons, List.map_cons, hfile.path_eq]
    exact ih.cons_cons _

theorem isFileOf (h : BuiltFrom parse platform texts files) {file : SourceFile}
    (hfile : file ∈ files) : ∃ t ∈ texts, IsFileOf parse platform t.1 t.2 file := by
  induction h with
  | nil => cases hfile
  | skip _ _ ih =>
    obtain ⟨t, ht, hof⟩ := ih hfile
    exact ⟨t, List.mem_cons_of_mem _ ht, hof⟩
  | take hof _ ih =>
    rcases List.mem_cons.mp hfile with rfl | hfile
    · exact ⟨_, List.mem_cons_self, hof⟩
    · obtain ⟨t, ht, hof⟩ := ih hfile
      exact ⟨t, List.mem_cons_of_mem _ ht, hof⟩

theorem exists_file (h : BuiltFrom parse platform texts files) {t : OsString × String}
    (ht : t ∈ texts) (hmatches : platform.matchesSource t.2 = .ok true) :
    ∃ file ∈ files, IsFileOf parse platform t.1 t.2 file := by
  induction h with
  | nil => cases ht
  | skip hskip _ ih =>
    rcases List.mem_cons.mp ht with rfl | ht
    · rw [hskip] at hmatches
      cases hmatches
    · exact ih ht
  | take hof _ ih =>
    rcases List.mem_cons.mp ht with rfl | ht
    · exact ⟨_, List.mem_cons_self, hof⟩
    · obtain ⟨file, hfile, hof⟩ := ih ht
      exact ⟨file, List.mem_cons_of_mem _ hfile, hof⟩

end BuiltFrom

end Files

/-! ## Packages -/

/-- **What comes of a directory**: no package, a reported conflict, or the package of all its files.
-/
theorem buildPackage_cases (m : Module) (dir : OsString) (batch : List ParsedFile) :
    (buildFiles 0 batch).files = [] ∧
        buildPackage m dir batch = (none, (buildFiles 0 batch).problems) ∨
      (∃ a ∈ (buildFiles 0 batch).files, ∃ b ∈ (buildFiles 0 batch).files,
        a.package ≠ b.package) ∧ (∃ cause, buildPackage m dir batch =
          (none, (buildFiles 0 batch).problems ++ [⟨dir, cause⟩])) ∨
      ∃ name, (buildFiles 0 batch).files ≠ [] ∧
        (∀ file ∈ (buildFiles 0 batch).files, file.package = name) ∧
        buildPackage m dir batch =
          (some { name, path := m.importPath dir, dir, files := (buildFiles 0 batch).files },
            (buildFiles 0 batch).problems) := by
  cases hfiles : (buildFiles 0 batch).files with
  | nil => exact .inl ⟨rfl, by simp [buildPackage, hfiles]⟩
  | cons first rest =>
    right
    cases hother : rest.find? fun file => file.package ≠ first.package with
    | some other =>
      have hne : other.package ≠ first.package := by simpa using List.find?_some hother
      refine .inl ⟨⟨first, List.mem_cons_self, other,
        List.mem_cons_of_mem _ (List.mem_of_find?_eq_some hother), hne.symm⟩, ?_⟩
      exact ⟨.mixedPackages first.package (Text.lossy (Path.fileName first.path)) other.package
        (Text.lossy (Path.fileName other.path)), by rw [buildPackage]; simp only [hfiles, hother]⟩
    | none =>
      refine .inr ⟨first.package, List.cons_ne_nil _ _, fun file hfile => ?_, ?_⟩
      · rcases List.mem_cons.mp hfile with rfl | hfile
        · rfl
        · simpa using List.find?_eq_none.mp hother file hfile
      · rw [buildPackage]
        simp only [hfiles, hother]

/-- A package is that of a directory whose files have the given texts. -/
structure PackageOf (parse : String → Option ParseTree) (platform : Platform) (m : Module)
    (dir : OsString) (texts : List (OsString × String)) (p : Package) : Prop where
  dir_eq : p.dir = dir
  path_eq : p.path = m.importPath dir
  files : BuiltFrom parse platform texts p.files
  nonempty : p.files ≠ []
  named : ∀ file ∈ p.files, file.package = p.name

section Directory

variable {parse : String → Option ParseTree} {platform : Platform} {m : Module} {dir : OsString}
  {texts : List (OsString × String)}

theorem PackageOf.annotate {p : Package} (h : PackageOf parse platform m dir texts p)
    (index : Index) : PackageOf parse platform m dir texts (index.annotate p) :=
  ⟨h.dir_eq, h.path_eq, h.files, h.nonempty, h.named⟩

/-- What comes of a directory whose files have the given texts. -/
def buildTexts (parse : String → Option ParseTree) (platform : Platform) (m : Module)
    (t : OsString × List (OsString × String)) : Option Package × List Problem :=
  buildPackage m t.1 (batchOf parse platform t.2)

theorem dir_of_buildTexts {t : OsString × List (OsString × String)} {p : Package}
    (h : (buildTexts parse platform m t).1 = some p) : p.dir = t.1 ∧ p.path = m.importPath t.1 := by
  rw [buildTexts] at h
  obtain ⟨-, hbuild⟩ | ⟨-, cause, hbuild⟩ | ⟨name, -, -, hbuild⟩ :=
    buildPackage_cases m t.1 (batchOf parse platform t.2)
  · simp [hbuild] at h
  · simp [hbuild] at h
  · rw [hbuild] at h
    obtain rfl := Option.some.inj h
    exact ⟨rfl, rfl⟩

theorem buildTexts_problems_eq_nil_iff :
    (buildTexts parse platform m (dir, texts)).2 = [] ↔
      (∀ t ∈ texts, ¬ Offends parse platform t.2) ∧
      ∀ a ∈ (buildFiles 0 (batchOf parse platform texts)).files,
        ∀ b ∈ (buildFiles 0 (batchOf parse platform texts)).files, a.package = b.package := by
  rw [← buildFiles_problems_eq_nil_iff 0, buildTexts]
  obtain ⟨hnil, hbuild⟩ | ⟨⟨a, ha, b, hb, hne⟩, cause, hbuild⟩ | ⟨name, -, hnamed, hbuild⟩ :=
    buildPackage_cases m dir (batchOf parse platform texts)
  · simp [hbuild, hnil]
  · rw [hbuild]
    simp only [List.append_eq_nil_iff, List.cons_ne_nil, and_false, false_iff, not_and]
    exact fun _ hagree => hne (hagree a ha b hb)
  · rw [hbuild]
    refine (and_iff_left fun a ha b hb => ?_).symm
    rw [hnamed a ha, hnamed b hb]

theorem buildTexts_of_problems_eq_nil (h : (buildTexts parse platform m (dir, texts)).2 = []) :
    BuiltFrom parse platform texts [] ∧ (buildTexts parse platform m (dir, texts)).1 = none ∨
      ∃ p, PackageOf parse platform m dir texts p ∧
        (buildTexts parse platform m (dir, texts)).1 = some p := by
  have hbuilt := (buildFiles_builtFrom 0 (buildTexts_problems_eq_nil_iff.mp h).1).1
  rw [buildTexts] at h ⊢
  obtain ⟨hnil, hbuild⟩ | ⟨-, cause, hbuild⟩ | ⟨name, hne, hnamed, hbuild⟩ :=
    buildPackage_cases m dir (batchOf parse platform texts)
  · exact .inl ⟨hnil ▸ hbuilt, by rw [hbuild]⟩
  · simp [hbuild] at h
  · exact .inr ⟨_, ⟨rfl, rfl, hbuilt, hne, hnamed⟩, by rw [hbuild]⟩

end Directory

/-! ## Projects -/

/-- The packages that come of directories with texts. -/
def packagesOf (parse : String → Option ParseTree) (platform : Platform) (m : Module)
    (texts : DirTexts) : List Package :=
  texts.filterMap fun t => (buildTexts parse platform m t).1

/-- What is reported of directories with texts. -/
def problemsOf (parse : String → Option ParseTree) (disk : Disk) (platform : Platform) (m : Module)
    (texts : DirTexts) : List Problem :=
  (texts.flatMap fun t => (buildTexts parse platform m t).2) ++
    missingImports disk m (packagesOf parse platform m texts)

section Packages

variable {parse : String → Option ParseTree} {platform : Platform} {m : Module} {texts : DirTexts}

theorem packageOf_of_mem (hnone : ∀ t ∈ texts, (buildTexts parse platform m t).2 = [])
    {p : Package} (hp : p ∈ packagesOf parse platform m texts) :
    ∃ t ∈ texts, PackageOf parse platform m t.1 t.2 p := by
  obtain ⟨t, ht, hbuild⟩ := List.mem_filterMap.mp hp
  obtain ⟨-, hnot⟩ | ⟨q, hq, hbuild'⟩ := buildTexts_of_problems_eq_nil (hnone t ht)
  · rw [hbuild] at hnot
    cases hnot
  · obtain rfl : q = p := Option.some.inj (hbuild'.symm.trans hbuild)
    exact ⟨t, ht, hq⟩

/-- A directory with a file in the build has a package. -/
theorem exists_packageOf (hnone : ∀ t ∈ texts, (buildTexts parse platform m t).2 = [])
    {t : OsString × List (OsString × String)} (ht : t ∈ texts) {f : OsString × String}
    (hf : f ∈ t.2) (hmatches : platform.matchesSource f.2 = .ok true) :
    ∃ p ∈ packagesOf parse platform m texts, PackageOf parse platform m t.1 t.2 p := by
  obtain ⟨hbuilt, -⟩ | ⟨p, hp, hbuild⟩ := buildTexts_of_problems_eq_nil (hnone t ht)
  · obtain ⟨file, hfile, -⟩ := hbuilt.exists_file hf hmatches
    cases hfile
  · exact ⟨p, List.mem_filterMap.mpr ⟨t, ht, hbuild⟩, hp⟩

/-- The files are in the order of their texts. -/
theorem packagesOf_sublist (hnone : ∀ t ∈ texts, (buildTexts parse platform m t).2 = []) :
    ((packagesOf parse platform m texts).flatMap fun p => p.files.map (·.path)).Sublist
      ((texts.flatMap Prod.snd).map Prod.fst) := by
  induction texts with
  | nil => exact .slnil
  | cons t texts ih =>
    obtain ⟨ht, htexts⟩ := List.forall_mem_cons.mp hnone
    rw [packagesOf, List.filterMap_cons, List.flatMap_cons, List.map_append, ← packagesOf]
    obtain ⟨-, hbuild⟩ | ⟨p, hp, hbuild⟩ := buildTexts_of_problems_eq_nil ht
    · rw [hbuild]
      exact (ih htexts).trans (List.sublist_append_right _ _)
    · rw [hbuild, List.flatMap_cons]
      exact hp.files.sublist.append (ih htexts)

end Packages

section Project

variable {parse : String → Option ParseTree} {disk : Disk} {platform : Platform}
  {roots : OsString → Roots} {root : OsString} {m : Module}

/-- **The flat list agrees with the directories.** -/
theorem deal_dirTexts (parse : String → Option ParseTree) (disk : Disk) (platform : Platform)
    (m : Module) (dirs : List SourceDir) :
    ((deal dirs ((dirs.flatMap (·.files)).map fun path =>
        parsedText? parse platform path (fileText disk path))).map fun d => buildPackage m d.1 d.2) =
      (dirTexts disk dirs).map (buildTexts parse platform m) := by
  rw [deal_flatMap, dirTexts, List.map_map, List.map_map]
  refine List.map_congr_left fun d _ => ?_
  simp only [Function.comp_apply, buildTexts, batchOf, List.filterMap_map]

theorem parsePackages_of_readable {dirs : List SourceDir}
    (hdirs : sourceDirs disk platform root = .ok dirs)
    (hread : ∀ path ∈ dirs.flatMap (·.files), IsReadable disk path) :
    parsePackages parse disk platform m root =
      if problemsOf parse disk platform m (dirTexts disk dirs) = [] then
        .ok (packagesOf parse platform m (dirTexts disk dirs))
      else .error (.problems (problemsOf parse disk platform m (dirTexts disk dirs))) := by
  have hparsed : (dirs.flatMap (·.files)).mapM (parseFile parse disk platform) =
      .ok ((dirs.flatMap (·.files)).map fun path =>
        parsedText? parse platform path (fileText disk path)) :=
    (mapM_ok_iff parseFile_ok_iff).mpr ⟨hread, rfl⟩
  have hpackages : ((dirTexts disk dirs).map (buildTexts parse platform m)).filterMap Prod.fst =
      packagesOf parse platform m (dirTexts disk dirs) := List.filterMap_map
  have hproblems : ((dirTexts disk dirs).map (buildTexts parse platform m)).flatMap Prod.snd ++
      missingImports disk m (packagesOf parse platform m (dirTexts disk dirs)) =
        problemsOf parse disk platform m (dirTexts disk dirs) := by
    rw [problemsOf, List.flatMap_map]
  rw [parsePackages, hdirs]
  simp only [bind, Except.bind, hparsed, deal_dirTexts, hpackages, hproblems]
  cases problemsOf parse disk platform m (dirTexts disk dirs) <;> rfl

/-- Some packages are the given ones with their tables, by ascending import paths. -/
structure IsLoaded (built packages : List Package) : Prop where
  annotated : ∃ index : Index, packages.Perm (built.map index.annotate)
  ascend : packages.Pairwise fun p q => p.path ≤ q.path

theorem mergeSort_path_pairwise (packages : List Package) :
    (packages.mergeSort fun a b => a.path ≤ b.path).Pairwise fun p q => p.path ≤ q.path := by
  have hsorted : (packages.mergeSort fun a b => a.path ≤ b.path).Pairwise
      fun p q => decide (p.path ≤ q.path) = true := by
    refine List.pairwise_mergeSort (fun a b c hab hbc => ?_) (fun a b => ?_) packages
    · exact decide_eq_true (String.le_trans (of_decide_eq_true hab) (of_decide_eq_true hbc))
    · simpa using String.le_total a.path b.path
  exact hsorted.imp of_decide_eq_true

theorem loadPackages_of_module (hmodule : findModule disk root = .ok m) :
    ∃ finish : List Package → List Package, (∀ built, IsLoaded built (finish built)) ∧
      loadPackages parse disk platform roots root =
        (parsePackages parse disk platform m root).map finish := by
  refine ⟨fun built => (built.map (Index.ofPackages (built ++
    dependencies parse disk platform (roots m.dir) m built)).annotate).mergeSort
      fun a b => a.path ≤ b.path,
    fun built => ⟨⟨_, List.mergeSort_perm _ _⟩, mergeSort_path_pairwise _⟩, ?_⟩
  have hbind : loadPackages parse disk platform roots root =
      (parsePackages parse disk platform m root).bind fun built =>
        .ok ((built.map (Index.ofPackages (built ++
          dependencies parse disk platform (roots m.dir) m built)).annotate).mergeSort
            fun a b => a.path ≤ b.path) := by
    rw [loadPackages, hmodule]
    rfl
  rw [hbind]
  cases parsePackages parse disk platform m root <;> rfl

/-- **A project that is loaded** has a module, and nothing is reported. -/
theorem loadPackages_ok (htree : disk.IsTree) {packages : List Package}
    (hload : loadPackages parse disk platform roots root = .ok packages) :
    ∃ m place texts, findModule disk root = .ok m ∧ disk.find root = .ok place ∧
      SourceTexts disk platform root place texts ∧ problemsOf parse disk platform m texts = [] ∧
      IsLoaded (packagesOf parse platform m texts) packages := by
  cases hmodule : findModule disk root with
  | error failure => simp [loadPackages, hmodule, bind, Except.bind] at hload
  | ok m =>
    obtain ⟨finish, hfinish, heq⟩ := loadPackages_of_module hmodule
    rw [heq] at hload
    cases hfind : disk.find root with
    | error reason =>
      simp [parsePackages, sourceDirs, hfind, bind, Except.bind, Except.mapError, Except.map]
        at hload
    | ok place =>
      obtain ⟨dirs, hdirs, hlists⟩ := sourceDirs_of_find platform htree hfind
      cases hparsed : (dirs.flatMap (·.files)).mapM (parseFile parse disk platform) with
      | error failure =>
        simp [parsePackages, hdirs, hparsed, bind, Except.bind, Except.map] at hload
      | ok parsed =>
        have hread := ((mapM_ok_iff parseFile_ok_iff).mp hparsed).1
        rw [parsePackages_of_readable hdirs hread] at hload
        split_ifs at hload with hnone
        · obtain rfl := Except.ok.inj hload
          exact ⟨m, place, _, rfl, rfl, sourceTexts_dirTexts htree hfind hlists hread, hnone,
            hfinish _⟩
        · cases hload

end Project

end GoCalls
