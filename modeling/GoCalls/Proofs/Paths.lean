import GoCalls.Files.Path
import Mathlib.Data.List.DropRight
import Mathlib.Data.List.Infix

/-!
# Paths and their components

A path is told by its components: joining a name to it adds one, and going up drops one. What a path
is written like, with slashes at its end or pieces that name nothing, does not matter.

* `Path.IsName`: a name that can stand between slashes and names something.
* **`Path.components_join`**: the components of a path inside a directory.
* **`Path.parent?_join`**: the directory of a path inside it.
* **`Path.components_of_mem_ancestors`**: a directory above a path has its first components.
* **`Path.relative_eq`**: how a path goes on from another.
-/

namespace GoCalls

/-! ## Pieces -/

section Cut

variable {α : Type}

theorem Text.cutFrom_eq (p : α → Bool) (part : List α) (parts : List (List α)) (s : List α) :
    Text.cutFrom p part parts s = parts.reverse ++ s.splitOnPPrepend p part := by
  induction s generalizing part parts with
  | nil => simp [Text.cutFrom]
  | cons c s ih =>
    rw [Text.cutFrom, List.splitOnPPrepend_cons_eq_if]
    split_ifs
    · simp [ih]
    · exact ih _ _

theorem Text.cut_eq (p : α → Bool) (s : List α) : Text.cut p s = s.splitOnP p :=
  Text.cutFrom_eq p [] [] s

theorem notMem_of_mem_splitOn [BEq α] [LawfulBEq α] {x : α} {s part : List α}
    (h : part ∈ s.splitOn x) : x ∉ part := by
  induction s generalizing part with
  | nil => simp_all
  | cons c s ih =>
    rw [List.splitOn_cons_eq_if_modifyHead] at h
    split_ifs at h with hc
    · rcases List.mem_cons.mp h with rfl | h
      · simp
      · exact ih h
    · cases hs : s.splitOn x with
      | nil => exact absurd hs (List.splitOn_ne_nil _ _)
      | cons first rest =>
        rw [hs, List.modifyHead_cons] at h
        rcases List.mem_cons.mp h with rfl | h
        · have hfirst : x ∉ first := ih (hs ▸ List.mem_cons_self)
          have hne : x ≠ c := fun he => hc (beq_iff_eq.mpr he.symm)
          simp [hfirst, hne]
        · exact ih (hs ▸ List.mem_cons_of_mem _ h)

end Cut

namespace Path

theorem pieces_eq (path : OsString) : pieces path = path.splitOn slash := by
  rw [pieces, Text.cut_eq, List.splitOn_eq_splitOnP]
  rfl

theorem pieces_ne_nil (path : OsString) : pieces path ≠ [] := by
  rw [pieces_eq]
  exact List.splitOn_ne_nil _ _

theorem pieces_empty : pieces [] = [[]] := rfl

theorem pieces_slash (a b : OsString) : pieces (a ++ slash :: b) = pieces a ++ pieces b := by
  rw [pieces_eq, pieces_eq, pieces_eq, List.splitOn_append_cons_self]

theorem pieces_of_notMem {name : OsString} (h : slash ∉ name) : pieces name = [name] := by
  rw [pieces_eq, List.splitOn_eq_singleton h]

theorem intercalate_pieces (path : OsString) : List.intercalate [slash] (pieces path) = path := by
  rw [pieces_eq]
  exact List.intercalate_splitOn slash

theorem pieces_intercalate {names : List OsString} (hne : names ≠ [])
    (h : ∀ name ∈ names, slash ∉ name) : pieces (List.intercalate [slash] names) = names := by
  rw [pieces_eq]
  exact List.splitOn_intercalate slash h hne

theorem notMem_of_mem_pieces {path piece : OsString} (h : piece ∈ pieces path) : slash ∉ piece := by
  rw [pieces_eq] at h
  exact notMem_of_mem_splitOn h

/-! ## Components -/

/-- A name can stand between slashes, and it names something. -/
structure IsName (name : OsString) : Prop where
  noSlash : slash ∉ name
  named : isEmptyPiece name = false

theorem IsName.ne_empty {name : OsString} (h : IsName name) : name ≠ [] := by
  rintro rfl
  exact absurd h.named (by decide)

theorem IsName.not_isAbsolute {name : OsString} (h : IsName name) : isAbsolute name = false := by
  have hhead : name.head? ≠ some slash := fun he => h.noSlash (List.mem_of_head? he)
  simpa [isAbsolute] using hhead

/-- The first component of a path that begins with the given piece. -/
def firstName (piece : OsString) : OsString := if piece = [] then [slash] else piece

/-- A path is absolute if its first piece is empty. -/
theorem isAbsolute_iff {path first : OsString} {rest : List OsString} (hne : path ≠ [])
    (h : pieces path = first :: rest) : isAbsolute path = true ↔ first = [] := by
  constructor
  · intro habs
    obtain ⟨cs, hcs⟩ := List.head?_eq_some_iff.mp (of_decide_eq_true habs)
    have hpath : path = [] ++ slash :: cs := hcs
    rw [hpath, pieces_slash, pieces_empty] at h
    exact (List.cons.inj h).1.symm
  · rintro rfl
    have hpath := intercalate_pieces path
    rw [h] at hpath
    cases rest with
    | nil => exact absurd (by simpa using hpath.symm) hne
    | cons piece rest =>
      rw [← hpath, List.intercalate_cons_cons]
      simp [isAbsolute]

/-- The components of a path, from its pieces. -/
theorem components_eq {path : OsString} {first : OsString} {rest : List OsString} (hne : path ≠ [])
    (h : pieces path = first :: rest) :
    components path = firstName first :: rest.filter fun piece => !isEmptyPiece piece := by
  rw [components, h]
  dsimp only
  by_cases hfirst : first = []
  · simp [hfirst, (isAbsolute_iff hne h).mpr hfirst, firstName]
  · simp [hfirst, firstName]

theorem components_empty : components [] = [] := rfl

theorem exists_pieces (path : OsString) : ∃ first rest, pieces path = first :: rest :=
  List.exists_cons_of_ne_nil (pieces_ne_nil path)

theorem components_eq_nil_iff {path : OsString} : components path = [] ↔ path = [] := by
  constructor
  · intro hnil
    by_contra hne
    obtain ⟨first, rest, hp⟩ := exists_pieces path
    simp [components_eq hne hp] at hnil
  · rintro rfl
    exact components_empty

theorem isName_of_mem_filter {path : OsString} {first name : OsString} {rest : List OsString}
    (h : pieces path = first :: rest)
    (hname : name ∈ rest.filter fun piece => !isEmptyPiece piece) : IsName name := by
  obtain ⟨hmem, hnamed⟩ := List.mem_filter.mp hname
  exact ⟨notMem_of_mem_pieces (h ▸ List.mem_cons_of_mem _ hmem), by simpa using hnamed⟩

theorem isName_of_mem_tail {path name : OsString} (h : name ∈ (components path).tail) :
    IsName name := by
  by_cases hne : path = []
  · subst hne
    simp [components_empty] at h
  · obtain ⟨first, rest, hp⟩ := exists_pieces path
    rw [components_eq hne hp] at h
    exact isName_of_mem_filter hp h

theorem isName_of_components {base path : OsString} {names : List OsString} (hne : base ≠ [])
    (h : components path = components base ++ names) : ∀ name ∈ names, IsName name := by
  intro name hname
  have hbase : components base ≠ [] := fun hnil => hne (components_eq_nil_iff.mp hnil)
  have htail : name ∈ (components path).tail := by
    rw [h, List.tail_append_of_ne_nil hbase]
    exact List.mem_append_right _ hname
  exact isName_of_mem_tail htail

/-! ## Joining -/

theorem isAbsolute_append {a : OsString} (ha : a ≠ []) (b : OsString) :
    isAbsolute (a ++ b) = isAbsolute a := by
  obtain ⟨c, cs, rfl⟩ := List.exists_cons_of_ne_nil ha
  rfl

theorem join_cases (dir : OsString) {path : OsString} (h : isAbsolute path = false) :
    (dir = [] ∨ dir.getLast? = some slash) ∧ join dir path = dir ++ path ∨
      dir ≠ [] ∧ join dir path = dir ++ slash :: path := by
  rw [join, if_neg (by simp [h])]
  by_cases hend : dir = [] ∨ dir.getLast? = some slash
  · exact .inl ⟨hend, if_pos (by simpa using hend)⟩
  · exact .inr ⟨fun he => hend (.inl he), if_neg (by simpa using hend)⟩

/-- The pieces of a path inside a directory. -/
theorem pieces_join {dir name : OsString} (hd : dir ≠ []) (h : IsName name) :
    ∃ front, front ≠ [] ∧ pieces (join dir name) = front ++ [name] ∧
      (pieces dir = front ∨ pieces dir = front ++ [[]]) := by
  rcases join_cases dir h.not_isAbsolute with ⟨hend, hjoin⟩ | ⟨-, hjoin⟩
  · -- The directory ends in a slash, after which its last piece is empty.
    obtain ⟨front, hfront⟩ := List.getLast?_eq_some_iff.mp (hend.resolve_left hd)
    refine ⟨pieces front, pieces_ne_nil _, ?_, .inr ?_⟩
    · rw [hjoin, hfront, List.append_assoc, List.singleton_append, pieces_slash,
        pieces_of_notMem h.noSlash]
    · rw [hfront, pieces_slash, pieces_empty]
  · exact ⟨pieces dir, pieces_ne_nil _, by rw [hjoin, pieces_slash, pieces_of_notMem h.noSlash],
      .inl rfl⟩

theorem join_ne_empty (dir : OsString) {name : OsString} (h : IsName name) : join dir name ≠ [] := by
  intro he
  rcases join_cases dir h.not_isAbsolute with ⟨-, hjoin⟩ | ⟨-, hjoin⟩
  · exact h.ne_empty (by simpa [hjoin] using he : dir = [] ∧ name = []).2
  · simp [hjoin] at he

theorem isAbsolute_join {dir name : OsString} (hd : dir ≠ []) (h : IsName name) :
    isAbsolute (join dir name) = isAbsolute dir := by
  rcases join_cases dir h.not_isAbsolute with ⟨-, hjoin⟩ | ⟨-, hjoin⟩
  · rw [hjoin, isAbsolute_append hd]
  · rw [hjoin, isAbsolute_append hd]

/-- **The components of a path inside a directory.** -/
theorem components_join (dir : OsString) {name : OsString} (h : IsName name) :
    components (join dir name) = components dir ++ [name] := by
  by_cases hd : dir = []
  · subst hd
    have hjoin : join [] name = name := by simp [join, h.not_isAbsolute]
    rw [hjoin, components_eq h.ne_empty (pieces_of_notMem h.noSlash)]
    simp [firstName, h.ne_empty, components_empty]
  · obtain ⟨front, hfront, hjoin, hdir⟩ := pieces_join hd h
    obtain ⟨first, rest, rfl⟩ := List.exists_cons_of_ne_nil hfront
    rw [List.cons_append] at hjoin hdir
    rw [components_eq (join_ne_empty dir h) hjoin]
    have hcomponents : components dir =
        firstName first :: rest.filter fun piece => !isEmptyPiece piece := by
      rcases hdir with hdir | hdir
      · exact components_eq hd hdir
      · rw [components_eq hd hdir, List.filter_append]
        simp [isEmptyPiece]
    rw [hcomponents, List.filter_append]
    simp [h.named]

theorem components_foldl_join {names : List OsString} (h : ∀ name ∈ names, IsName name)
    (dir : OsString) : components (names.foldl join dir) = components dir ++ names := by
  induction names generalizing dir with
  | nil => simp
  | cons name names ih =>
    rw [List.foldl_cons, ih (fun n hn => h n (List.mem_cons_of_mem _ hn)),
      components_join dir (h name List.mem_cons_self)]
    simp

theorem components_join_empty (dir : OsString) : components (join dir []) = components dir := by
  rcases join_cases dir (rfl : isAbsolute [] = false) with ⟨-, hjoin⟩ | ⟨hne, hjoin⟩
  · rw [hjoin, List.append_nil]
  · obtain ⟨first, rest, hp⟩ := exists_pieces dir
    have hpieces : pieces (dir ++ [slash]) = first :: (rest ++ [[]]) := by
      rw [pieces_slash, hp, pieces_empty]
      rfl
    have hslash : dir ++ [slash] ≠ [] := by simp
    rw [hjoin, components_eq hslash hpieces, components_eq hne hp, List.filter_append]
    simp [isEmptyPiece]

/-! ## Going up -/

theorem trimPieces_cons (first : OsString) (rest : List OsString) :
    trimPieces (first :: rest) = first :: rest.rdropWhile isEmptyPiece := rfl

theorem trimPieces_concat {front : List OsString} {last : OsString} (h : isEmptyPiece last = false) :
    trimPieces (front ++ [last]) = front ++ [last] := by
  cases front with
  | nil => rfl
  | cons first rest =>
    rw [List.cons_append, trimPieces_cons, List.rdropWhile_concat_neg _ _ _ (by simp [h])]

theorem filter_rdropWhile (rest : List OsString) :
    (rest.rdropWhile isEmptyPiece).filter (fun piece => !isEmptyPiece piece) =
      rest.filter fun piece => !isEmptyPiece piece := by
  induction rest using List.reverseRecOn with
  | nil => rfl
  | append_singleton rest piece ih =>
    by_cases h : isEmptyPiece piece
    · rw [List.rdropWhile_concat_pos _ _ _ h, ih, List.filter_append]
      simp [h]
    · rw [List.rdropWhile_concat_neg _ _ _ h]

/-- Empty pieces at the end do not matter. -/
theorem components_ofPieces {first : OsString} {rest : List OsString}
    (h : ∀ piece ∈ first :: rest, slash ∉ piece) :
    components (ofPieces (trimPieces (first :: rest))) =
      firstName first :: rest.filter fun piece => !isEmptyPiece piece := by
  rw [trimPieces_cons, ← filter_rdropWhile]
  have hslash : ∀ piece ∈ first :: rest.rdropWhile isEmptyPiece, slash ∉ piece := by
    intro piece hp
    rcases List.mem_cons.mp hp with rfl | hp
    · exact h piece List.mem_cons_self
    · exact h piece (List.mem_cons_of_mem _ ((List.rdropWhile_prefix _ _).subset hp))
  generalize rest.rdropWhile isEmptyPiece = trimmed at hslash ⊢
  by_cases hroot : first = [] ∧ trimmed = []
  · obtain ⟨rfl, rfl⟩ := hroot
    decide
  · have hof : ofPieces (first :: trimmed) = List.intercalate [slash] (first :: trimmed) := by
      unfold ofPieces
      split
      · simp_all
      · rfl
    have hpieces := pieces_intercalate (List.cons_ne_nil first trimmed) hslash
    have hne : List.intercalate [slash] (first :: trimmed) ≠ [] := by
      intro he
      rw [he, pieces_empty] at hpieces
      simp_all
    rw [hof, components_eq hne hpieces]

theorem components_trimEnd {path : OsString} (hne : path ≠ []) :
    components (trimEnd path) = components path := by
  obtain ⟨first, rest, hp⟩ := exists_pieces path
  rw [trimEnd, hp, components_eq hne hp, components_ofPieces]
  exact fun piece hpiece => notMem_of_mem_pieces (hp ▸ hpiece)

theorem parent?_of_pieces {path first second : OsString} {rest : List OsString}
    (h : trimPieces (pieces path) = first :: second :: rest) :
    parent? path = some (ofPieces (trimPieces (first :: second :: rest).dropLast)) := by
  rw [parent?, h]

/-- **The directory of a path inside it.** -/
theorem parent?_join {dir name : OsString} (hd : dir ≠ []) (h : IsName name) :
    parent? (join dir name) = some (trimEnd dir) := by
  obtain ⟨front, hfront, hjoin, hdir⟩ := pieces_join hd h
  have hfrontDir : trimPieces (pieces dir) = trimPieces front := by
    rcases hdir with hdir | hdir
    · rw [hdir]
    · obtain ⟨first, rest, rfl⟩ := List.exists_cons_of_ne_nil hfront
      rw [hdir, List.cons_append, trimPieces_cons, trimPieces_cons,
        List.rdropWhile_concat_pos _ _ _ rfl]
  have htrim : trimPieces (pieces (join dir name)) = front ++ [name] := by
    rw [hjoin, trimPieces_concat h.named]
  obtain ⟨first, rest, hcons⟩ := List.exists_cons_of_ne_nil hfront
  obtain ⟨second, more, hmore⟩ := List.exists_cons_of_ne_nil (by simp : rest ++ [name] ≠ [])
  rw [hcons, List.cons_append, hmore] at htrim
  rw [parent?_of_pieces htrim, ← hmore, ← List.cons_append, List.dropLast_concat, ← hcons, trimEnd,
    hfrontDir]

theorem exists_parent {path last : OsString} {front : List OsString} (h : pieces path = front ++ [last])
    (hlast : isEmptyPiece last = false) : ∃ dir, parent? path = some dir := by
  have htrim : trimPieces (pieces path) = front ++ [last] := by rw [h, trimPieces_concat hlast]
  cases front with
  | nil =>
    have hne : last ≠ [] := by
      rintro rfl
      exact absurd hlast (by decide)
    exact ⟨[], by rw [parent?, htrim]; simp [hne]⟩
  | cons first rest =>
    obtain ⟨second, more, hmore⟩ := List.exists_cons_of_ne_nil (by simp : rest ++ [last] ≠ [])
    rw [List.cons_append, hmore] at htrim
    exact ⟨_, parent?_of_pieces htrim⟩

theorem fileName_of_pieces {path last : OsString} {front : List OsString}
    (h : pieces path = front ++ [last]) (hlast : isEmptyPiece last = false) (hup : last ≠ [dot, dot]) :
    fileName path = last := by
  rw [fileName, h, trimPieces_concat hlast, List.getLast?_concat]
  exact if_neg hup

/-- Going up drops the last component. -/
theorem components_parent? {path dir : OsString} (h : parent? path = some dir) :
    components dir = (components path).dropLast := by
  obtain ⟨first, rest, hp⟩ := exists_pieces path
  have hslash : ∀ piece ∈ first :: rest, slash ∉ piece :=
    fun piece hpiece => notMem_of_mem_pieces (hp ▸ hpiece)
  have hne : path ≠ [] := by
    rintro rfl
    simp [parent?, pieces_empty, trimPieces_cons] at h
  rw [components_eq hne hp, ← filter_rdropWhile]
  cases htrim : rest.rdropWhile isEmptyPiece using List.reverseRecOn with
  | nil =>
    rw [parent?, hp, trimPieces_cons, htrim] at h
    dsimp only at h
    split_ifs at h
    obtain rfl := Option.some.inj h
    rfl
  | append_singleton more last =>
    have hlast : isEmptyPiece last = false := by
      have hlast := List.rdropWhile_last_not isEmptyPiece rest (by simp [htrim])
      simpa [htrim] using hlast
    have hmore : ∀ piece ∈ first :: more, slash ∉ piece := by
      intro piece hpiece
      refine hslash piece ?_
      rcases List.mem_cons.mp hpiece with rfl | hpiece
      · exact List.mem_cons_self
      · refine List.mem_cons_of_mem _ ((List.rdropWhile_prefix isEmptyPiece rest).subset ?_)
        rw [htrim]
        exact List.mem_append_left _ hpiece
    have hdir : dir = ofPieces (trimPieces (first :: more)) := by
      obtain ⟨second, tail, htail⟩ := List.exists_cons_of_ne_nil (by simp : more ++ [last] ≠ [])
      have hpieces : trimPieces (pieces path) = first :: second :: tail := by
        rw [hp, trimPieces_cons, htrim, htail]
      rw [parent?_of_pieces hpieces, ← htail, ← List.cons_append, List.dropLast_concat] at h
      exact (Option.some.inj h).symm
    rw [hdir, components_ofPieces hmore, List.filter_append]
    simp [hlast, List.dropLast_cons_of_ne_nil]

theorem components_of_mem_ancestorsWithin {count : Nat} {path dir : OsString}
    (h : dir ∈ ancestorsWithin count path) : components dir <+: components path := by
  induction count generalizing path with
  | zero => simp [ancestorsWithin] at h
  | succ count ih =>
    rw [ancestorsWithin] at h
    rcases List.mem_cons.mp h with rfl | h
    · exact List.prefix_refl _
    · cases hp : parent? path with
      | none => simp [hp] at h
      | some up =>
        rw [hp] at h
        refine (ih h).trans ?_
        rw [components_parent? hp]
        exact List.dropLast_prefix _

/-- **A directory above a path** has the first components of the path. -/
theorem components_of_mem_ancestors {path dir : OsString} (h : dir ∈ ancestors path) :
    components dir <+: components path :=
  components_of_mem_ancestorsWithin h

theorem mem_ancestors_cases {path dir : OsString} (h : dir ∈ ancestors path) :
    dir = path ∨ components dir <+: (components path).dropLast := by
  rw [ancestors, ancestorsWithin] at h
  rcases List.mem_cons.mp h with rfl | h
  · exact .inl rfl
  · cases hp : parent? path with
    | none => simp [hp] at h
    | some up =>
      rw [hp] at h
      exact .inr (components_parent? hp ▸ components_of_mem_ancestorsWithin h)

/-! ## Relative paths -/

theorem isPrefixOf?_eq_some {as bs rest : List OsString} :
    as.isPrefixOf? bs = some rest ↔ bs = as ++ rest := by
  induction as generalizing bs with
  | nil => simp [List.isPrefixOf?]
  | cons a as ih =>
    cases bs with
    | nil => simp [List.isPrefixOf?]
    | cons b bs =>
      simp only [List.isPrefixOf?, List.cons_append, List.cons.injEq]
      split_ifs with hab
      · rw [ih]
        simp [eq_of_beq hab]
      · have hne : b ≠ a := fun he => hab (by simp [he])
        simp [hne]

/-- **How a path goes on** from one with its first components. -/
theorem relative_eq {base path : OsString} {names : List OsString}
    (h : components path = components base ++ names) : relative base path = names := by
  rw [relative, isPrefixOf?_eq_some.mpr h]
  rfl

end Path

end GoCalls
