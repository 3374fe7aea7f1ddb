import GoCalls.Proofs.PackageBuilds
import GoCalls.Source.Grammar.Stmts
import Mathlib.Data.List.Flatten

/-!
# Numbers are used once

Numbers are drawn in many places: for names, for receivers and parameters, twice for a selector. Loop
bodies draw theirs before the header, some of what is numbered is dropped, and a file that is nested
too deeply is refused after it drew some. Still no number is used twice.

* `Drawn`: marks have numbers from one interval, each once.
* `lowerFile_drawn`, `lowerEach_drawn`, `buildFiles_drawn`, `declarationFiles_drawn`: files that are
  lowered one after the other.
* **`uniqueIds_of_trees`**: all identifiers and selectors of these files have different numbers.
-/

namespace GoCalls

open scoped List

open Syntactic

/-- The numbers of marks lie from `first` on and before `last`, and each stands there once. -/
structure Drawn (first last : Nat) (marks : List Mark) : Prop where
  le : first ≤ last
  ids : Mark.ids marks <+~ List.Ico first last

namespace Drawn

variable {first next last : Nat} {marks more : List Mark}

theorem nil (h : first ≤ last) : Drawn first last [] := ⟨h, List.nil_subperm⟩

theorem append (h : Drawn first next marks) (h' : Drawn next last more) :
    Drawn first last (marks ++ more) := by
  refine ⟨h.le.trans h'.le, ?_⟩
  rw [Mark.ids_append, ← List.Ico.append_consecutive h.le h'.le]
  exact ((List.subperm_append_left _).mpr h'.ids).trans ((List.subperm_append_right _).mpr h.ids)

theorem sublist (h : Drawn first last marks) (hs : more.Sublist marks) : Drawn first last more :=
  ⟨h.le, (hs.map _).subperm.trans h.ids⟩

theorem uniqueIds (h : Drawn first last marks) : UniqueIds marks := by
  obtain ⟨drawn, hperm, hsublist⟩ := h.ids
  exact hperm.nodup_iff.mp (hsublist.nodup (List.Ico.nodup first last))

theorem bounds (h : Drawn first last marks) {mark : Mark} (hmark : mark ∈ marks) :
    first ≤ mark.id ∧ mark.id < last :=
  List.Ico.mem.mp (h.ids.subset (List.mem_map_of_mem hmark))

/-- `2 ^ 32` numbers in a row differ as words of 32 bits. -/
theorem words (h : Drawn first last marks) (hfew : last ≤ first + 2 ^ 32) :
    (marks.map fun mark => UInt32.ofNat mark.id).Nodup := by
  have hids : (marks.map (·.id)).Nodup := h.uniqueIds
  have hwords : ((marks.map (·.id)).map UInt32.ofNat).Nodup := by
    refine hids.map_on fun i hi j hj hij => ?_
    obtain ⟨hle, hlt⟩ := List.Ico.mem.mp (h.ids.subset hi)
    obtain ⟨hle', hlt'⟩ := List.Ico.mem.mp (h.ids.subset hj)
    have hmod := congrArg UInt32.toNat hij
    rw [UInt32.toNat_ofNat', UInt32.toNat_ofNat'] at hmod
    omega
  rwa [List.map_map] at hwords

end Drawn

/-! ## Files one after the other -/

theorem drawn_of_lowerFile {path : OsString} {tree : ParseTree} {next next' : Nat}
    {file : SourceFile} (h : lowerFile path tree next = (.ok file, next')) :
    Drawn next next' file.marks := by
  have hfile := isLowered False nofun h
  exact ⟨hfile.le, ids_file file ▸ hfile.drawn⟩

theorem le_of_lowerFile {path : OsString} {tree : ParseTree} {next next' : Nat}
    {lowered : Except Spot SourceFile} (h : lowerFile path tree next = (lowered, next')) :
    next ≤ next' := by
  have hle : next ≤ (lowerFile path tree next).2 := le_lowerFile
  rwa [h] at hle

/-- **A tree that is lowered** has the numbers that are drawn for it. -/
theorem lowerFile_drawn (path : OsString) (tree : ParseTree) (next : Nat) :
    Drawn next (lowerFile path tree next).2
      ((lowerFile path tree next).1.toOption.toList.flatMap SourceFile.marks) := by
  cases h : lowerFile path tree next with
  | mk lowered next' =>
    cases lowered with
    | error spot => exact .nil (le_of_lowerFile h)
    | ok file => simpa [Except.toOption] using drawn_of_lowerFile h

/-- Lower trees one after the other: the files that come of them, and the first number that is not
used. -/
def lowerEach (next : Nat) : List (OsString × ParseTree) → List SourceFile × Nat
  | [] => ([], next)
  | (path, tree) :: rest =>
    let (lowered, next) := lowerFile path tree next
    let (files, last) := lowerEach next rest
    (lowered.toOption.toList ++ files, last)

theorem lowerEach_drawn (next : Nat) (trees : List (OsString × ParseTree)) :
    Drawn next (lowerEach next trees).2 ((lowerEach next trees).1.flatMap SourceFile.marks) := by
  induction trees generalizing next with
  | nil => exact .nil (Nat.le_refl next)
  | cons t rest ih =>
    rw [lowerEach, List.flatMap_append]
    exact (lowerFile_drawn t.1 t.2 next).append (ih _)

theorem buildFile_drawn (next : Nat) (parsed : ParsedFile) :
    Drawn next (buildFile next parsed).2
      ((buildFile next parsed).1.files.flatMap SourceFile.marks) := by
  rw [buildFile]
  cases parsed.tree with
  | none => exact .nil (Nat.le_refl next)
  | some tree =>
    cases h : lowerFile parsed.path tree next with
    | mk lowered next' =>
      cases lowered with
      | error spot => simpa [h] using Drawn.nil (le_of_lowerFile h)
      | ok file =>
        by_cases hpackage : file.package = ""
        · simpa [h, hpackage] using Drawn.nil (le_of_lowerFile h)
        · simpa [h, hpackage] using drawn_of_lowerFile h

theorem buildFiles_drawn (next : Nat) (batch : List ParsedFile) :
    ∃ last, Drawn next last ((buildFiles next batch).files.flatMap SourceFile.marks) := by
  induction batch generalizing next with
  | nil => exact ⟨next, .nil (Nat.le_refl next)⟩
  | cons parsed rest ih =>
    obtain ⟨last, hrest⟩ := ih (buildFile next parsed).2
    refine ⟨last, ?_⟩
    rw [buildFiles_cons, List.flatMap_append]
    exact (buildFile_drawn next parsed).append hrest

theorem Decl.dropBody_marks_sublist (decl : Decl) : decl.dropBody.marks.Sublist decl.marks := by
  cases decl with
  | func d =>
    simp only [Decl.dropBody, Decl.marks, FuncDecl.marks, Option.getD_none, stmtsMarks,
      List.append_nil]
    exact List.sublist_append_left _ _
  | _ => exact List.Sublist.refl _

theorem SourceFile.dropBodies_sublist (file : SourceFile) :
    ({ file with decls := file.decls.map Decl.dropBody } : SourceFile).marks.Sublist file.marks := by
  rw [SourceFile.marks, List.flatMap_map]
  exact List.Sublist.flatMap_right _ fun decl _ => decl.dropBody_marks_sublist

section Declarations

variable (parse : String → Option ParseTree) (disk : Disk) (platform : Platform)

theorem declarationFile?_drawn (next : Nat) (path : OsString) :
    Drawn next (declarationFile? parse disk platform next path).2
      ((declarationFile? parse disk platform next path).1.toList.flatMap SourceFile.marks) := by
  unfold declarationFile?
  extract_lets tree?
  cases tree? with
  | none => exact .nil (Nat.le_refl next)
  | some tree =>
    cases h : lowerFile path tree next with
    | mk lowered next' =>
      cases lowered with
      | error spot => simpa [h] using Drawn.nil (le_of_lowerFile h)
      | ok file => simpa [h] using (drawn_of_lowerFile h).sublist file.dropBodies_sublist

theorem declarationFiles_drawn (next : Nat) (paths : List OsString) :
    ∃ last, Drawn next last
      ((declarationFiles parse disk platform next paths).flatMap SourceFile.marks) := by
  induction paths generalizing next with
  | nil => exact ⟨next, .nil (Nat.le_refl next)⟩
  | cons path rest ih =>
    obtain ⟨last, hrest⟩ := ih (declarationFile? parse disk platform next path).2
    refine ⟨last, ?_⟩
    rw [declarationFiles, List.flatMap_append]
    exact (declarationFile?_drawn parse disk platform next path).append hrest

end Declarations

/-! ## Packages -/

theorem buildPackage_uniqueIds {m : Module} {dir : OsString} {batch : List ParsedFile}
    {package : Package} (h : (buildPackage m dir batch).1 = some package) : package.UniqueIds := by
  obtain ⟨-, hbuild⟩ | ⟨-, cause, hbuild⟩ | ⟨name, -, -, hbuild⟩ := buildPackage_cases m dir batch
  · simp [hbuild] at h
  · simp [hbuild] at h
  · rw [hbuild] at h
    obtain rfl := Option.some.inj h
    obtain ⟨last, hdrawn⟩ := buildFiles_drawn 0 batch
    exact hdrawn.uniqueIds

theorem declarationPackage?_uniqueIds {parse : String → Option ParseTree} {disk : Disk}
    {platform : Platform} {path : String} {dir : OsString} {package : Package}
    (h : declarationPackage? parse disk platform path dir = some package) : package.UniqueIds := by
  rw [declarationPackage?, Option.bind_eq_bind, Option.bind_eq_some_iff] at h
  obtain ⟨place, -, h⟩ := h
  rw [Option.bind_eq_bind, Option.bind_eq_some_iff] at h
  obtain ⟨name, -, h⟩ := h
  cases h
  obtain ⟨last, hdrawn⟩ := declarationFiles_drawn parse disk platform 0
    ((sourceNames disk platform place).map (Path.join dir))
  exact (hdrawn.sublist (List.filter_sublist.flatMap _)).uniqueIds

/-- **All identifiers and selectors have different numbers**, also as words of 32 bits while no more
than `2 ^ 32` are drawn. -/
theorem uniqueIds_of_trees (first : Nat) (trees : List (OsString × ParseTree)) :
    UniqueIds ((lowerEach first trees).1.flatMap SourceFile.marks) ∧
      (∀ mark ∈ (lowerEach first trees).1.flatMap SourceFile.marks,
        first ≤ mark.id ∧ mark.id < (lowerEach first trees).2) ∧
      ((lowerEach first trees).2 ≤ first + 2 ^ 32 →
        (((lowerEach first trees).1.flatMap SourceFile.marks).map
          fun mark => UInt32.ofNat mark.id).Nodup) ∧
      (∀ (m : Module) (dir : OsString) (batch : List ParsedFile) (package : Package),
        (buildPackage m dir batch).1 = some package → package.UniqueIds) ∧
      ∀ (parse : String → Option ParseTree) (disk : Disk) (platform : Platform) (path : String)
        (dir : OsString) (package : Package),
        declarationPackage? parse disk platform path dir = some package → package.UniqueIds := by
  have hdrawn := lowerEach_drawn first trees
  exact ⟨hdrawn.uniqueIds, fun _ => hdrawn.bounds, hdrawn.words,
    fun _ _ _ _ => buildPackage_uniqueIds, fun _ _ _ _ _ _ => declarationPackage?_uniqueIds⟩

/-- A name in brackets. -/
def bracketed : Nat → ParseTree
  | 0 => .leaf .identifier {} "x"
  | n + 1 => .branch .parenthesizedExpression {} [bracketed n]

/-- The tree of a file that sets a variable to a name in brackets. -/
def bracketedFile (n : Nat) (more : List ParseTree) : ParseTree :=
  let names := (ParseTree.leaf .identifier {} "v").as .name
  let values := (ParseTree.branch .expressionList {} [bracketed n]).as .value
  .branch .sourceFile {} (.branch .packageClause {} [.leaf .packageIdentifier {} "a"] ::
    .branch .varDeclaration {} [.branch .varSpec {} [names, values]] :: more)

/-- Two trees with names, of which the second has an error, and one between them that is nested too
deeply. -/
def interruptedTrees : List (OsString × ParseTree) :=
  [("a.go", parseSource "package a\nfunc f() \x7b g.h(x) \x7d\n"),
    ("deep.go", bracketedFile maxNesting []), ("b.go", bracketedFile 1 [.branch .error {} []])]

/-- A file between them is nested too deeply. -/
theorem uniqueIds_of_trees_interrupted :
    (lowerEach 0 interruptedTrees).1.map (·.path) = ["a.go", "b.go"] ∧
      (lowerEach 0 interruptedTrees).1.map (fun file => file.marks.map (·.id)) =
        [[0, 2, 1, 3, 4], [6, 7]] ∧
      UniqueIds ((lowerEach 0 interruptedTrees).1.flatMap SourceFile.marks) ∧
      (((lowerEach 0 interruptedTrees).1.flatMap SourceFile.marks).map
        fun mark => UInt32.ofNat mark.id).Nodup := by
  have hlast : (lowerEach 0 interruptedTrees).2 = 8 := by decide +kernel
  obtain ⟨hunique, -, hwords, -⟩ := uniqueIds_of_trees 0 interruptedTrees
  refine ⟨by decide +kernel, by decide +kernel, hunique, hwords ?_⟩
  rw [hlast]
  decide

end GoCalls
