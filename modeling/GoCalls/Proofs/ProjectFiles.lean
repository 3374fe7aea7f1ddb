import GoCalls.Project.Load
import GoCalls.Proofs.FileTrees

/-!
# The source files of a project

The source files of a project are those files at or below its root that have the name of a source
file for the platform and lie in no directory, except the root itself, that is left out: one with a
name of certain kinds, or one that holds a module of its own.

* `SourceName`, `InnerDir`: the names of source files, and the directories of a project.
* `IsSource`: some names lead from the place of the root to a source file.
* **`sourceDirs_of_find`**: the listing of a project shows its source files, directory by directory.
-/

namespace GoCalls

/-! ## Source files -/

/-- The name of a source file for the platform, as a text. -/
structure SourceName (platform : Platform) (name : OsString) : Prop where
  suffix : (Text.lossy name).endsWith ".go" = true
  notTest : (Text.lossy name).endsWith "_test.go" = false
  notHidden : (Text.lossy name).startsWith "." = false
  notIgnored : (Text.lossy name).startsWith "_" = false
  fits : platform.matchesFileName (Text.lossy name) = true

/-- The directory `name` in `dir` belongs to the project around it. -/
structure InnerDir (disk : Disk) (dir : Place) (name : OsString) : Prop where
  notHidden : (Text.lossy name).startsWith "." = false
  notIgnored : (Text.lossy name).startsWith "_" = false
  notVendor : Text.lossy name ≠ "vendor"
  notTestdata : Text.lossy name ≠ "testdata"
  noModule : ∀ text, disk.node? (dir ++ [name] ++ [Text.bytes "go.mod"]) ≠ some (.file text)

/-- The given names lead from a place to a source file of the project there. -/
structure IsSource (disk : Disk) (platform : Platform) (place names : Place)
    (text : Option String) : Prop where
  file : disk.node? (place ++ names) = some (.file text)
  named : ∀ dir name, place ++ names = dir ++ [name] → SourceName platform name
  inside : ∀ front dir rest, names = front ++ dir :: rest → rest ≠ [] →
    InnerDir disk (place ++ front) dir

theorem isSourceName_iff {platform : Platform} {name : OsString} :
    isSourceName platform name = true ↔ SourceName platform name := by
  simp only [isSourceName, Bool.and_eq_true, Bool.not_eq_true']
  constructor
  · rintro ⟨⟨⟨⟨h1, h2⟩, h3⟩, h4⟩, h5⟩
    exact ⟨h1, h2, h3, h4, h5⟩
  · rintro ⟨h1, h2, h3, h4, h5⟩
    exact ⟨⟨⟨⟨h1, h2⟩, h3⟩, h4⟩, h5⟩

theorem innerDir_iff {disk : Disk} {dir : Place} {name : OsString} :
    InnerDir disk dir name ↔ isSkippedName name = false ∧
      ∀ text, disk.node? (dir ++ [name] ++ [Text.bytes "go.mod"]) ≠ some (.file text) := by
  simp only [isSkippedName, Bool.or_eq_false_iff, decide_eq_false_iff_not]
  constructor
  · rintro ⟨h1, h2, h3, h4, h5⟩
    exact ⟨⟨⟨⟨h1, h2⟩, h3⟩, h4⟩, h5⟩
  · rintro ⟨⟨⟨⟨h1, h2⟩, h3⟩, h4⟩, h5⟩
    exact ⟨h1, h2, h3, h4, h5⟩

theorem isReachable_cons {disk : Disk} {dir : Place} {name : OsString} {rest : Place} :
    isReachable disk dir (name :: rest) = true ↔
      InnerDir disk dir name ∧ isReachable disk (dir ++ [name]) rest = true := by
  rw [isReachable, innerDir_iff]
  cases hnode : disk.node? (dir ++ [name] ++ [Text.bytes "go.mod"]) with
  | none => simp
  | some node => cases node <;> simp

theorem isReachable_iff {disk : Disk} {dir names : Place} :
    isReachable disk dir names = true ↔ ∀ front name rest, names = front ++ name :: rest →
      InnerDir disk (dir ++ front) name := by
  induction names generalizing dir with
  | nil => simp [isReachable]
  | cons first names ih =>
    rw [isReachable_cons, ih]
    constructor
    · rintro ⟨hfirst, hnames⟩ front name rest h
      cases front with
      | nil =>
        obtain ⟨rfl, rfl⟩ := List.cons.inj h
        simpa using hfirst
      | cons first' front =>
        obtain ⟨rfl, rfl⟩ := List.cons.inj h
        simpa using hnames front name rest rfl
    · intro h
      refine ⟨by simpa using h [] first names rfl, fun front name rest hnames => ?_⟩
      simpa using h (first :: front) name rest (by rw [hnames]; rfl)

theorem mem_sourceNames {disk : Disk} {platform : Platform} {dir : Place} {name : OsString} :
    name ∈ sourceNames disk platform dir ↔
      (∃ text, disk.node? (dir ++ [name]) = some (.file text)) ∧ SourceName platform name := by
  rw [sourceNames, List.mem_filterMap]
  constructor
  · rintro ⟨⟨child, node⟩, hmem, h⟩
    cases node with
    | dir => cases h
    | file text =>
      dsimp only at h
      split_ifs at h with hname
      obtain rfl := Option.some.inj h
      exact ⟨⟨text, Disk.mem_children.mp hmem⟩, isSourceName_iff.mp hname⟩
  · rintro ⟨⟨text, hnode⟩, hname⟩
    exact ⟨_, Disk.mem_children.mpr hnode, by simp [isSourceName_iff.mpr hname]⟩

theorem sourceNames_pairwise (disk : Disk) (platform : Platform) (dir : Place) :
    (sourceNames disk platform dir).Pairwise (· < ·) := by
  refine List.Pairwise.filterMap _ ?_ (Disk.children_pairwise dir)
  rintro ⟨a, m⟩ ⟨b, n⟩ hlt c hc d hd
  cases m with
  | dir => cases hc
  | file text =>
    cases n with
    | dir => cases hd
    | file text' =>
      dsimp only at hc hd
      split_ifs at hc hd
      obtain rfl := Option.some.inj hc
      obtain rfl := Option.some.inj hd
      exact hlt

/-! ## Projects that are directories -/

section Directory

variable {disk : Disk} {platform : Platform} {root : OsString} {place : Place}

/-- The names that lead to the directories of a project from its root. -/
def projectDirs (disk : Disk) (place : Place) : List Place :=
  [] :: (disk.directories place).filter (isReachable disk place)

theorem mem_projectDirs (hplace : disk.node? place = some .dir) {names : Place} :
    names ∈ projectDirs disk place ↔ disk.node? (place ++ names) = some .dir ∧
      isReachable disk place names = true := by
  rw [projectDirs, List.mem_cons, List.mem_filter, Disk.mem_directories]
  by_cases hnames : names = []
  · simp [hnames, hplace, isReachable]
  · simp [hnames]

theorem projectDirs_pairwise (disk : Disk) (place : Place) :
    (projectDirs disk place).Pairwise (· < ·) := by
  rw [projectDirs, List.pairwise_cons]
  refine ⟨fun names hnames => ?_, (Disk.directories_pairwise place).filter _⟩
  obtain ⟨name, rest, rfl⟩ :=
    List.exists_cons_of_ne_nil (Disk.mem_directories.mp (List.mem_filter.mp hnames).1).1
  exact List.nil_lt_cons _ _

theorem sourceDirs_of_dir (hfind : disk.find root = .ok place)
    (hplace : disk.node? place = some .dir) :
    sourceDirs disk platform root = .ok ((projectDirs disk place).map fun names =>
      sourceDir disk platform (names.foldl Path.join root) (place ++ names)) := by
  simp [sourceDirs, hfind, hplace, projectDirs, Except.mapError, bind, Except.bind, pure,
    Except.pure]

/-- A source file below the root is listed in its directory. -/
theorem isSource_concat {names : Place} {name : OsString} {text : Option String} :
    IsSource disk platform place (names ++ [name]) text ↔
      disk.node? (place ++ names ++ [name]) = some (.file text) ∧ SourceName platform name ∧
        isReachable disk place names = true := by
  rw [isReachable_iff]
  constructor
  · rintro ⟨hfile, hnamed, hinside⟩
    refine ⟨by simpa using hfile, hnamed (place ++ names) name (by simp), ?_⟩
    rintro front dir rest rfl
    exact hinside front dir (rest ++ [name]) (by simp) (by simp)
  · rintro ⟨hfile, hname, hreach⟩
    refine ⟨by simpa using hfile, ?_, ?_⟩
    · intro dir other h
      rw [← List.append_assoc] at h
      obtain ⟨-, rfl⟩ := List.append_inj' h rfl |>.imp_right List.singleton_inj.mp
      exact hname
    · intro front dir rest h hrest
      rw [← List.dropLast_append_getLast hrest, ← List.cons_append, ← List.append_assoc] at h
      exact hreach front dir rest.dropLast (List.append_inj_left' h rfl)

theorem components_below (htree : disk.IsTree) {names : Place} {node : Node}
    (h : disk.node? (place ++ names) = some node) :
    Path.components (names.foldl Path.join root) = Path.components root ++ names :=
  Path.components_foldl_join (fun name hname => (htree.isEntryName h name hname).toIsName) root

theorem parent?_source (htree : disk.IsTree) (hfind : disk.find root = .ok place) {names : Place}
    {name : OsString} {node : Node} (h : disk.node? (place ++ names ++ [name]) = some node) :
    Path.parent? (Path.join (names.foldl Path.join root) name) =
      some (Path.trimEnd (names.foldl Path.join root)) := by
  obtain ⟨hname, hdir⟩ := htree.entry h
  exact Path.parent?_join (Disk.ne_empty_of_find (Disk.find_foldl_join htree hfind hdir))
    hname.toIsName

end Directory

/-! ## The listing of a project -/

/-- Some directories list the source files of the project `root`, in ascending order. -/
structure ListsSources (disk : Disk) (platform : Platform) (root : OsString) (place : Place)
    (dirs : List SourceDir) : Prop where
  mem : ∀ dir path, (∃ d ∈ dirs, d.dir = dir ∧ path ∈ d.files) ↔
    ∃ names text, IsSource disk platform place names text ∧ path = names.foldl Path.join root ∧
      Path.parent? path = some dir
  dirsAscend : dirs.Pairwise fun d e => Path.components d.dir < Path.components e.dir
  filesAscend : ∀ d ∈ dirs, d.files.Pairwise fun a b => Path.components a < Path.components b

section Listing

variable {disk : Disk} {root : OsString} {place : Place} (platform : Platform)

theorem listsSources_of_dir (htree : disk.IsTree) (hfind : disk.find root = .ok place)
    (hplace : disk.node? place = some .dir) :
    ListsSources disk platform root place ((projectDirs disk place).map fun names =>
      sourceDir disk platform (names.foldl Path.join root) (place ++ names)) where
  mem dir path := by
    simp only [List.mem_map, exists_exists_and_eq_and, sourceDir, mem_projectDirs hplace,
      mem_sourceNames]
    constructor
    · rintro ⟨names, ⟨-, hreach⟩, rfl, name, ⟨⟨text, hfile⟩, hname⟩, rfl⟩
      refine ⟨names ++ [name], text, isSource_concat.mpr ⟨hfile, hname, hreach⟩, ?_, ?_⟩
      · rw [List.foldl_append]
        rfl
      · exact parent?_source htree hfind hfile
    · rintro ⟨names, text, hsource, rfl, hdir⟩
      cases names using List.reverseRecOn with
      | nil => simpa [hplace] using hsource.file
      | append_singleton names name =>
        obtain ⟨hfile, hname, hreach⟩ := isSource_concat.mp hsource
        have hpath : (names ++ [name]).foldl Path.join root =
            Path.join (names.foldl Path.join root) name := List.foldl_append
        rw [hpath, parent?_source htree hfind hfile, Option.some.injEq] at hdir
        exact ⟨names, ⟨(htree.entry hfile).2, hreach⟩, hdir, name, ⟨⟨text, hfile⟩, hname⟩,
          hpath.symm⟩
  dirsAscend := by
    rw [List.pairwise_map]
    refine (projectDirs_pairwise disk place).imp_of_mem fun {a b} ha hb hlt => ?_
    have hcomponents : ∀ names ∈ projectDirs disk place,
        Path.components (Path.trimEnd (names.foldl Path.join root)) =
          Path.components root ++ names := by
      intro names hnames
      have hdir := ((mem_projectDirs hplace).mp hnames).1
      rw [Path.components_trimEnd (Disk.ne_empty_of_find (Disk.find_foldl_join htree hfind hdir)),
        components_below htree hdir]
    simp only [sourceDir, hcomponents a ha, hcomponents b hb]
    exact Disk.append_lt_append_iff.mpr hlt
  filesAscend d hd := by
    obtain ⟨names, -, rfl⟩ := List.mem_map.mp hd
    rw [sourceDir, List.pairwise_map]
    have hascend := sourceNames_pairwise disk platform (place ++ names)
    refine hascend.imp_of_mem fun {a b} ha hb hlt => ?_
    have hname : ∀ name ∈ sourceNames disk platform (place ++ names), Path.IsName name := by
      intro name hname
      obtain ⟨⟨text, hfile⟩, -⟩ := mem_sourceNames.mp hname
      exact (htree.entry hfile).1.toIsName
    rw [Path.components_join _ (hname a ha), Path.components_join _ (hname b hb),
      Disk.append_lt_append_iff]
    exact List.cons_lt_cons_iff.mpr (.inl hlt)

theorem sourceDirs_of_file (htree : disk.IsTree) (hfind : disk.find root = .ok place)
    {text : Option String} (hfile : disk.node? place = some (.file text)) :
    ∃ dirs, sourceDirs disk platform root = .ok dirs ∧
      ListsSources disk platform root place dirs := by
  obtain ⟨⟨dir, hplace⟩, up, hup⟩ := htree.fileName hfind hfile
  -- There is nothing below a file.
  have hnames : ∀ names text', IsSource disk platform place names text' → names = [] := by
    intro names text' hsource
    by_contra hne
    simp [htree.dir hne hsource.file] at hfile
  have hsource : (∃ text', IsSource disk platform place [] text') ↔
      SourceName platform (Path.fileName root) := by
    constructor
    · rintro ⟨text', hsource⟩
      exact hsource.named dir _ (by simpa using hplace)
    · intro hname
      refine ⟨text, by simpa using hfile, fun other name h => ?_, fun front name rest h => ?_⟩
      · rw [List.append_nil, hplace] at h
        obtain ⟨-, rfl⟩ := List.append_inj' h rfl |>.imp_right List.singleton_inj.mp
        exact hname
      · simp at h
  have hmem : ∀ dir path, (∃ names text', IsSource disk platform place names text' ∧
      path = names.foldl Path.join root ∧ Path.parent? path = some dir) ↔
        SourceName platform (Path.fileName root) ∧ path = root ∧ up = dir := by
    intro dir path
    rw [← hsource]
    constructor
    · rintro ⟨names, text', hs, rfl, hdir⟩
      obtain rfl := hnames names text' hs
      exact ⟨⟨text', hs⟩, rfl, Option.some.inj (hup.symm.trans hdir)⟩
    · rintro ⟨⟨text', hs⟩, rfl, rfl⟩
      exact ⟨[], text', hs, rfl, hup⟩
  rw [sourceDirs, hfind]
  by_cases hname : isSourceName platform (Path.fileName root)
  · refine ⟨[⟨up, [root]⟩], by simp [Except.mapError, bind, Except.bind, hfile, hname, hup, pure,
      Except.pure], ⟨fun dir path => ?_, by simp, by simp⟩⟩
    rw [hmem, ← isSourceName_iff]
    simp [hname, and_comm]
  · refine ⟨[], by simp [Except.mapError, bind, Except.bind, hfile, hname, pure, Except.pure],
      ⟨fun dir path => ?_, by simp, by simp⟩⟩
    rw [hmem, ← isSourceName_iff]
    simp [hname]

/-- **The listing of a project** shows its source files. -/
theorem sourceDirs_of_find (htree : disk.IsTree) (hfind : disk.find root = .ok place) :
    ∃ dirs, sourceDirs disk platform root = .ok dirs ∧
      ListsSources disk platform root place dirs := by
  obtain ⟨node, hnode⟩ := htree.exists_node hfind
  cases node with
  | dir => exact ⟨_, sourceDirs_of_dir hfind hnode, listsSources_of_dir platform htree hfind hnode⟩
  | file text => exact sourceDirs_of_file platform htree hfind hnode

end Listing

end GoCalls
