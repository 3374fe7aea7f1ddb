import GoCalls.Files.Disk
import GoCalls.Proofs.Paths
import Mathlib.Data.List.Lex
import Mathlib.Data.String.Basic

/-!
# File trees

On a disk that is a tree, all that stands somewhere stands in a directory, under a proper name. So
the path that is put together from the names below a directory leads to what they name, and the
listings of a directory show just what is there.

* `Disk.IsTree`: a disk is a file tree.
* **`Disk.mem_children`**, **`Disk.mem_directories`**: the listings of a directory, which are in
  ascending order.
* **`Disk.find_foldl_join`**: the path to a place below a directory.
* `Disk.find_cases`, `Disk.IsTree.fileName`: where the last piece of a path leads, and the name of a
  file in a path to it.
* **`Disk.isDir_of_components`**: whether a path leads to a directory is a matter of its components.
-/

namespace GoCalls

/-! ## Names and trees -/

/-- A name that an entry of a directory can have. -/
structure Path.IsEntryName (name : OsString) : Prop extends Path.IsName name where
  notUp : name ≠ [Path.dot, Path.dot]

instance (name : OsString) : Decidable (Path.IsEntryName name) :=
  decidable_of_iff (Path.slash ∉ name ∧ Path.isEmptyPiece name = false ∧ name ≠ [Path.dot, Path.dot])
    ⟨fun h => ⟨⟨h.1, h.2.1⟩, h.2.2⟩, fun h => ⟨h.noSlash, h.named, h.notUp⟩⟩

namespace Disk

/-- A disk is a file tree: each entry has a proper name and stands in a directory. -/
def IsTree (disk : Disk) : Prop :=
  ∀ entry ∈ disk.nodes.toList, ∀ name ∈ entry.1.getLast?,
    Path.IsEntryName name ∧ disk.node? entry.1.dropLast = some .dir

instance (disk : Disk) : Decidable disk.IsTree :=
  inferInstanceAs (Decidable (∀ entry ∈ disk.nodes.toList, ∀ name ∈ entry.1.getLast?, _))

variable {disk : Disk}

theorem mem_nodes {place : Place} (h : place ≠ []) {node : Node} :
    (place, node) ∈ disk.nodes.toList ↔ disk.node? place = some node := by
  rw [Std.TreeMap.mem_toList_iff_getElem?_eq_some, node?, if_neg (by simpa using h)]

theorem IsTree.entry (htree : disk.IsTree) {dir : Place} {name : OsString} {node : Node}
    (h : disk.node? (dir ++ [name]) = some node) :
    Path.IsEntryName name ∧ disk.node? dir = some .dir := by
  have hmem := (mem_nodes (by simp)).mpr h
  simpa using htree _ hmem name (by simp)

/-- What lies above a place is a directory. -/
theorem IsTree.dir (htree : disk.IsTree) {front names : Place} (hne : names ≠ []) {node : Node}
    (h : disk.node? (front ++ names) = some node) : disk.node? front = some .dir := by
  induction names using List.reverseRecOn generalizing node with
  | nil => exact absurd rfl hne
  | append_singleton names name ih =>
    rw [← List.append_assoc] at h
    have hdir := (htree.entry h).2
    by_cases hnames : names = []
    · simpa [hnames] using hdir
    · exact ih hnames hdir

theorem IsTree.isEntryName (htree : disk.IsTree) {front names : Place} {node : Node}
    (h : disk.node? (front ++ names) = some node) : ∀ name ∈ names, Path.IsEntryName name := by
  induction names using List.reverseRecOn generalizing node with
  | nil => simp
  | append_singleton names last ih =>
    rw [← List.append_assoc] at h
    obtain ⟨hlast, hdir⟩ := htree.entry h
    intro name hname
    rcases List.mem_append.mp hname with hname | hname
    · exact ih hdir name hname
    · obtain rfl := List.mem_singleton.mp hname
      exact hlast

/-! ## Listings -/

theorem mem_children {dir : Place} {name : OsString} {node : Node} :
    (name, node) ∈ disk.children dir ↔ disk.node? (dir ++ [name]) = some node := by
  rw [← mem_nodes (by simp), children, List.mem_filterMap]
  constructor
  · rintro ⟨⟨place, n⟩, hmem, h⟩
    dsimp only at h
    split at h
    · rename_i hrest
      cases h
      rwa [← Path.isPrefixOf?_eq_some.mp hrest]
    · cases h
  · intro hmem
    refine ⟨_, hmem, ?_⟩
    have hrest : dir.isPrefixOf? (dir ++ [name]) = some [name] := Path.isPrefixOf?_eq_some.mpr rfl
    simp [hrest]

theorem mem_directories {dir names : Place} :
    names ∈ disk.directories dir ↔ names ≠ [] ∧ disk.node? (dir ++ names) = some .dir := by
  rw [directories, List.mem_filterMap]
  constructor
  · rintro ⟨⟨place, node⟩, hmem, h⟩
    dsimp only at h
    split at h
    · rename_i name rest hrest
      cases h
      have hplace := Path.isPrefixOf?_eq_some.mp hrest
      refine ⟨by simp, ?_⟩
      rw [← hplace, ← mem_nodes (by simp [hplace])]
      exact hmem
    · cases h
  · rintro ⟨hne, h⟩
    obtain ⟨name, rest, rfl⟩ := List.exists_cons_of_ne_nil hne
    refine ⟨_, (mem_nodes (by simp)).mpr h, ?_⟩
    have hrest : dir.isPrefixOf? (dir ++ name :: rest) = some (name :: rest) :=
      Path.isPrefixOf?_eq_some.mpr rfl
    simp [hrest]

theorem compare_list_lt_iff {α : Type} [Ord α] [Std.LawfulEqOrd α] [LT α]
    (h : ∀ a b : α, compare a b = .lt ↔ a < b) {as bs : List α} :
    compare as bs = .lt ↔ as < bs := by
  rw [List.compare_eq_compareLex]
  induction as generalizing bs with
  | nil =>
    cases bs with
    | nil => simp [List.compareLex_nil_nil]
    | cons b bs => simp [List.compareLex_nil_cons]
  | cons a as ih =>
    cases bs with
    | nil => simp [List.compareLex_cons_nil]
    | cons b bs =>
      rw [List.compareLex_cons_cons, Ordering.then_eq_lt, h, Std.compare_eq_iff_eq, ih,
        List.cons_lt_cons_iff]

/-- Names are compared byte by byte. -/
theorem compare_lt_iff {p q : Place} : compare p q = .lt ↔ p < q :=
  compare_list_lt_iff fun _ _ => compare_list_lt_iff fun _ _ => compareOfLessAndEq_eq_lt

theorem append_lt_append_iff {front as bs : List OsString} : front ++ as < front ++ bs ↔ as < bs := by
  induction front with
  | nil => rfl
  | cons name front ih => simp [ih]

theorem nodes_pairwise : disk.nodes.toList.Pairwise fun a b => a.1 < b.1 :=
  Std.TreeMap.ordered_keys_toList.imp compare_lt_iff.mp

theorem children_pairwise (dir : Place) :
    (disk.children dir).Pairwise fun a b => a.1 < b.1 := by
  refine List.Pairwise.filterMap _ ?_ nodes_pairwise
  rintro ⟨p, m⟩ ⟨q, n⟩ hlt a ha b hb
  dsimp only at ha hb
  split at ha <;> cases ha
  split at hb <;> cases hb
  rename_i hp _ _ hq
  rw [Path.isPrefixOf?_eq_some.mp hp, Path.isPrefixOf?_eq_some.mp hq, append_lt_append_iff] at hlt
  simpa [List.cons_lt_cons_iff] using hlt

/-- The directories below a directory are listed in ascending order. -/
theorem directories_pairwise (dir : Place) : (disk.directories dir).Pairwise (· < ·) := by
  refine List.Pairwise.filterMap _ ?_ nodes_pairwise
  rintro ⟨p, m⟩ ⟨q, n⟩ hlt a ha b hb
  dsimp only at ha hb
  split at ha <;> cases ha
  split at hb <;> cases hb
  rename_i hp _ _ _ _ hq
  rwa [Path.isPrefixOf?_eq_some.mp hp, Path.isPrefixOf?_eq_some.mp hq, append_lt_append_iff] at hlt

/-! ## Following paths -/

theorem follow_append (place : Place) (ps qs : List OsString) :
    disk.follow place (ps ++ qs) = (disk.follow place ps).bind fun p => disk.follow p qs := by
  fun_induction disk.follow place ps with
  | case1 place => rfl
  | case2 place piece rest hdir hempty ih => simp [follow, hdir, hempty, ih]
  | case3 place rest hdir hempty ih => simp [follow, hdir, hempty, ih]
  | case4 place piece rest hdir hempty hup hsome ih => simp [follow, hdir, hempty, hup, hsome, ih]
  | case5 place piece rest hdir hempty hup hnone =>
    simp [follow, hdir, hempty, hup, hnone, Except.bind]
  | case6 place piece rest text hfile => simp [follow, hfile, Except.bind]
  | case7 place piece rest hnone => simp [follow, hnone, Except.bind]

theorem follow_name {place : Place} {name : OsString} (hname : Path.IsEntryName name)
    (hdir : disk.node? place = some .dir) (h : (disk.node? (place ++ [name])).isSome) :
    disk.follow place [name] = .ok (place ++ [name]) := by
  simp [follow, hdir, hname.named, hname.notUp, h]

/-- The place from which the pieces of a path are followed. -/
def start (disk : Disk) (path : OsString) : Place :=
  if Path.isAbsolute path then [] else disk.current

theorem find_eq {path : OsString} (h : path ≠ []) :
    disk.find path = disk.follow (disk.start path) (Path.pieces path) := by
  rw [find, if_neg h, start]

theorem ne_empty_of_find {path : OsString} {place : Place} (h : disk.find path = .ok place) :
    path ≠ [] := by
  rintro rfl
  simp [find] at h

theorem follow_front {path : OsString} {front : List OsString} {place : Place}
    (hfind : disk.find path = .ok place)
    (hpieces : Path.pieces path = front ∨ Path.pieces path = front ++ [[]]) :
    disk.follow (disk.start path) front = .ok place := by
  rw [find_eq (ne_empty_of_find hfind)] at hfind
  rcases hpieces with hpieces | hpieces
  · rwa [← hpieces]
  · rw [hpieces, follow_append] at hfind
    cases hf : disk.follow (disk.start path) front with
    | error reason => simp [hf, Except.bind] at hfind
    | ok p =>
      rw [hf] at hfind
      simp only [Except.bind, follow] at hfind
      split at hfind
      · simpa [Path.isEmptyPiece] using hfind
      · cases hfind
      · cases hfind

theorem start_join {dir name : OsString} (hne : dir ≠ []) (hname : Path.IsName name) :
    disk.start (Path.join dir name) = disk.start dir := by
  rw [start, start, Path.isAbsolute_join hne hname]

/-- The path to an entry of a directory. -/
theorem find_join {dir name : OsString} {place : Place} (hfind : disk.find dir = .ok place)
    (hname : Path.IsEntryName name) (hdir : disk.node? place = some .dir)
    (h : (disk.node? (place ++ [name])).isSome) :
    disk.find (Path.join dir name) = .ok (place ++ [name]) := by
  have hne := ne_empty_of_find hfind
  obtain ⟨front, -, hjoin, hpieces⟩ := Path.pieces_join hne hname.toIsName
  rw [find_eq (Path.join_ne_empty dir hname.toIsName), start_join hne hname.toIsName, hjoin,
    follow_append, follow_front hfind hpieces]
  exact follow_name hname hdir h

/-- **The path to a place below a directory.** -/
theorem find_foldl_join (htree : disk.IsTree) {dir : OsString} {place names : Place} {node : Node}
    (hfind : disk.find dir = .ok place) (h : disk.node? (place ++ names) = some node) :
    disk.find (names.foldl Path.join dir) = .ok (place ++ names) := by
  induction names generalizing dir place with
  | nil => simpa using hfind
  | cons name names ih =>
    have hnames := htree.isEntryName h
    have hdir := htree.dir (List.cons_ne_nil name names) h
    rw [← List.singleton_append, ← List.append_assoc] at h
    have hsome : (disk.node? (place ++ [name])).isSome := by
      by_cases hrest : names = []
      · simp [hrest] at h
        simp [h]
      · simp [htree.dir hrest h]
    have hstep := find_join hfind (hnames name List.mem_cons_self) hdir hsome
    simpa using ih hstep h

theorem IsTree.node?_dropLast (htree : disk.IsTree) {place : Place}
    (h : disk.node? place = some .dir) : disk.node? place.dropLast = some .dir := by
  cases place using List.reverseRecOn with
  | nil => exact h
  | append_singleton place name => simpa using (htree.entry h).2

/-- The last piece of a path stays, goes up, or names an entry. -/
theorem find_cases {path last : OsString} {front : List OsString} {place : Place}
    (hp : Path.pieces path = front ++ [last]) (hfind : disk.find path = .ok place) :
    ∃ dir, disk.follow (disk.start path) front = .ok dir ∧ disk.node? dir = some .dir ∧
      (place = dir ∨ place = dir.dropLast ∨ Path.isEmptyPiece last = false ∧ last ≠ [Path.dot, Path.dot] ∧
        place = dir ++ [last] ∧ (disk.node? place).isSome) := by
  rw [find_eq (ne_empty_of_find hfind), hp, follow_append] at hfind
  cases hf : disk.follow (disk.start path) front with
  | error reason => simp [hf, Except.bind] at hfind
  | ok dir =>
    rw [hf] at hfind
    simp only [Except.bind, follow] at hfind
    split at hfind
    · rename_i hdir
      refine ⟨dir, rfl, hdir, ?_⟩
      split_ifs at hfind with hempty hup hsome
      · exact .inl (Except.ok.inj hfind).symm
      · exact .inr (.inl (Except.ok.inj hfind).symm)
      · obtain rfl := Except.ok.inj hfind
        exact .inr (.inr ⟨by simpa using hempty, hup, rfl, hsome⟩)
    · cases hfind
    · cases hfind

theorem node?_of_find_join {dir name : OsString} {place q : Place} (hname : Path.IsName name)
    (hfind : disk.find dir = .ok place) (h : disk.find (Path.join dir name) = .ok q) :
    disk.node? place = some .dir := by
  have hne := ne_empty_of_find hfind
  obtain ⟨front, -, hjoin, hpieces⟩ := Path.pieces_join hne hname
  obtain ⟨d, hfront, hdir, -⟩ := find_cases hjoin h
  rw [start_join hne hname, follow_front hfind hpieces] at hfront
  rwa [Except.ok.inj hfront]

theorem exists_last_piece (path : OsString) : ∃ front last, Path.pieces path = front ++ [last] :=
  ⟨_, _, (List.dropLast_append_getLast (Path.pieces_ne_nil path)).symm⟩

theorem IsTree.exists_node (htree : disk.IsTree) {path : OsString} {place : Place}
    (hfind : disk.find path = .ok place) : ∃ node, disk.node? place = some node := by
  obtain ⟨front, last, hp⟩ := exists_last_piece path
  obtain ⟨dir, -, hdir, rfl | rfl | ⟨-, -, -, hsome⟩⟩ := find_cases hp hfind
  · exact ⟨_, hdir⟩
  · exact ⟨_, htree.node?_dropLast hdir⟩
  · exact Option.isSome_iff_exists.mp hsome

theorem IsTree.fileName (htree : disk.IsTree) {path : OsString} {place : Place} {text : Option String}
    (hfind : disk.find path = .ok place) (hfile : disk.node? place = some (.file text)) :
    (∃ dir, place = dir ++ [Path.fileName path]) ∧ ∃ up, Path.parent? path = some up := by
  obtain ⟨front, last, hp⟩ := exists_last_piece path
  obtain ⟨dir, -, hdir, rfl | rfl | ⟨hlast, hup, rfl, -⟩⟩ := find_cases hp hfind
  · simp [hdir] at hfile
  · simp [htree.node?_dropLast hdir] at hfile
  · rw [Path.fileName_of_pieces hp hlast hup]
    exact ⟨⟨dir, rfl⟩, Path.exists_parent hp hlast⟩

/-! ## Directories by components -/

theorem node?_of_follow {place q : Place} {ps : List OsString} (h : disk.follow place ps = .ok q)
    (hq : disk.node? q = some .dir) : disk.node? place = some .dir := by
  cases ps with
  | nil =>
    obtain rfl : place = q := by simpa [follow] using h
    exact hq
  | cons piece rest =>
    rw [follow] at h
    split at h
    · assumption
    · cases h
    · cases h

/-- Pieces that name nothing do not matter. -/
theorem follow_filter {place q : Place} {ps : List OsString} (hq : disk.node? q = some .dir) :
    disk.follow place (ps.filter fun piece => !Path.isEmptyPiece piece) = .ok q ↔
      disk.follow place ps = .ok q := by
  induction ps generalizing place with
  | nil => rfl
  | cons piece rest ih =>
    by_cases hempty : Path.isEmptyPiece piece
    · rw [List.filter_cons_of_neg (by simp [hempty]), ih, follow]
      constructor
      · intro h
        simp [node?_of_follow h hq, hempty, h]
      · intro h
        split at h
        · simpa [hempty] using h
        · cases h
        · cases h
    · rw [List.filter_cons_of_pos (by simp [hempty]), follow, follow]
      cases disk.node? place with
      | none => rfl
      | some node =>
        cases node with
        | file text => rfl
        | dir =>
          simp only [hempty, Bool.false_eq_true, if_false]
          split_ifs
          · exact ih
          · exact ih
          · rfl

theorem isDir_iff {path : OsString} : disk.isDir path = true ↔ ∃ q,
    disk.find path = .ok q ∧ disk.node? q = some .dir := by
  unfold isDir at?
  cases h : disk.find path <;> simp

/-- The components of a path that are followed from its start on. -/
def stepsOf (components : List OsString) : List OsString :=
  components.filter fun c => !Path.isEmptyPiece c && c ≠ [Path.slash]

/-- Components tell the start and the names to follow. -/
theorem start_and_stepsOf (disk : Disk) {path : OsString} (hne : path ≠ []) :
    disk.start path = (if (Path.components path).head? = some [Path.slash] then [] else disk.current) ∧
      (Path.pieces path).filter (fun piece => !Path.isEmptyPiece piece) =
        stepsOf (Path.components path) := by
  obtain ⟨first, rest, hp⟩ := Path.exists_pieces path
  have hslash : ∀ piece ∈ first :: rest, piece ≠ [Path.slash] := by
    rintro piece hpiece rfl
    exact Path.notMem_of_mem_pieces (hp ▸ hpiece) (by simp)
  have hrest : stepsOf (rest.filter fun c => !Path.isEmptyPiece c) =
      rest.filter fun c => !Path.isEmptyPiece c := by
    rw [stepsOf, List.filter_filter]
    refine List.filter_congr fun c hc => ?_
    simp [hslash c (List.mem_cons_of_mem _ hc)]
  have habs := Path.isAbsolute_iff hne hp
  rw [Path.components_eq hne hp, hp, start]
  by_cases hfirst : first = []
  · subst hfirst
    refine ⟨by simp [habs.mpr rfl, Path.firstName], ?_⟩
    conv_lhs => rw [List.filter_cons_of_neg (by decide), ← hrest]
    rw [stepsOf, stepsOf, List.filter_cons_of_neg (by decide)]
  · have hne' := hslash first List.mem_cons_self
    refine ⟨by simp [habs, hfirst, Path.firstName, hne'], ?_⟩
    rw [Path.firstName, if_neg hfirst, stepsOf, List.filter_cons, List.filter_cons, ← stepsOf,
      hrest]
    simp [hne']

/-- **Whether a path leads to a directory** is a matter of its components. -/
theorem isDir_of_components {a b : OsString} (h : Path.components a = Path.components b) :
    disk.isDir a = disk.isDir b := by
  by_cases ha : a = []
  · have hb : b = [] := Path.components_eq_nil_iff.mp (h ▸ Path.components_eq_nil_iff.mpr ha)
    rw [ha, hb]
  · have hb : b ≠ [] := fun hb =>
      ha (Path.components_eq_nil_iff.mp (h.trans (Path.components_eq_nil_iff.mpr hb)))
    obtain ⟨hstart, hsteps⟩ := start_and_stepsOf disk ha
    obtain ⟨hstart', hsteps'⟩ := start_and_stepsOf disk hb
    rw [Bool.eq_iff_iff, isDir_iff, isDir_iff]
    refine exists_congr fun q => and_congr_left fun hq => ?_
    rw [find_eq ha, find_eq hb, ← follow_filter hq, hsteps, hstart, h, ← hstart', ← hsteps',
      follow_filter hq]

end Disk

end GoCalls
