import GoCalls.Module.GoMod
import GoCalls.Proofs.WordRows

/-!
# Requirements in module files

A module file has directives and blocks. Requirements are read from it line by line, and the only
thing that is kept in mind is whether a block of requirements has begun. So the entries of other
blocks are looked at like directives, and a directive is told by the letters it begins with. An
entry whose first word begins with these letters can be taken for a requirement that the file does
not state.

* `takenFor?`: what a line outside blocks of requirements is taken for.
* **`requirementsIn_row`**: what one line of words gives, and `Rows.requirementsIn_eq` for a run of
  them.
* `ModuleClause`, `IsModuleText`: the clauses of a module file, and its texts.
* **`requirementsIn_clauses`**: what the lines of a module file give.
* **`requirements_exact_iff`**: when exactly the stated requirements are read.
-/

namespace GoCalls

open Text

variable {row : List (List Char)} {line s t word : List Char}

/-! ## Steps -/

/-- A word of a module file. -/
structure IsModuleWord (word : List Char) : Prop extends IsRowWord word where
  plain : '"' ∉ word ∧ '(' ∉ word ∧ ')' ∉ word

instance (word : List Char) : Decidable (IsModuleWord word) :=
  decidable_of_iff (IsRowWord word ∧ '"' ∉ word ∧ '(' ∉ word ∧ ')' ∉ word)
    ⟨fun h => ⟨h.1, h.2⟩, fun h => ⟨h.toIsRowWord, h.plain⟩⟩

/-- The requirement that the first two words of a row state. -/
def pair? : List (List Char) → Option Requirement
  | path :: version :: _ => some ⟨String.ofList path, String.ofList version⟩
  | _ => none

/-- A row whose first word has been taken off up to `rest`. -/
def rowAfter (rest : List Char) (row : List (List Char)) : List (List Char) :=
  if rest = [] then row else rest :: row

/-- The requirement for which a row outside blocks of requirements is taken. -/
def takenFor? : List (List Char) → Option Requirement
  | [] => none
  | word :: row => (after? "require".toList word).bind fun rest => pair? (rowAfter rest row)

theorem IsModuleWord.notMem {row : List (List Char)} (hrow : ∀ word ∈ row, IsModuleWord word)
    {c : Char} (hc : c = '(' ∨ c = ')') : [c] ∉ row := by
  intro hmem
  obtain ⟨-, hleft, hright⟩ := (hrow _ hmem).plain
  rcases hc with rfl | rfl
  · exact hleft List.mem_cons_self
  · exact hright List.mem_cons_self

theorem IsModuleWord.of_append {front rest : List Char} (h : IsModuleWord (front ++ rest))
    (hne : rest ≠ []) : IsModuleWord rest where
  ne_nil := hne
  solid := fun c hc => h.solid c (List.mem_append_right front hc)
  noComment := fun hslashes => h.noComment (hslashes.trans (List.suffix_append front rest).isInfix)
  plain := by
    have hmem : ∀ {c}, c ∉ front ++ rest → c ∉ rest := mt (List.mem_append_right front)
    exact ⟨hmem h.plain.1, hmem h.plain.2.1, hmem h.plain.2.2⟩

section Steps

variable {rest : List (List Char)}

theorem Spaced.words_eq_of_module (h : Spaced row s) (hrow : ∀ word ∈ row, IsModuleWord word) :
    words s = row :=
  h.words_eq (fun w hw => (hrow w hw).toIsRowWord) (IsModuleWord.notMem hrow (.inl rfl))

theorem Spaced.requirement?_eq (h : Spaced row s) (hrow : ∀ word ∈ row, IsModuleWord word) :
    requirement? s = pair? row := by
  rw [requirement?, h.words_eq_of_module hrow]
  match row, hrow with
  | [], _ => rfl
  | [_], _ => rfl
  | path :: version :: _, hrow =>
    have hquotes : ∀ c ∈ path, decide (c = '"') = false := fun c hc =>
      decide_eq_false fun he => (hrow path List.mem_cons_self).plain.1 (he ▸ hc)
    simp only [pair?, strip_eq_self hquotes]

theorem Spaced.ne_paren (h : Spaced row s) (hrow : ∀ word ∈ row, IsModuleWord word) {c : Char}
    (hc : c = '(' ∨ c = ')') : s ≠ [c] := by
  rintro rfl
  have hone : words [c] = [[c]] := by
    rcases hc with rfl | rfl
    · rfl
    · rfl
  refine IsModuleWord.notMem hrow hc ?_
  rw [← h.words_eq_of_module hrow, hone]
  exact List.mem_singleton_self _

theorem IsRow.exists_code (h : IsRow row line) (hrow : ∀ word ∈ row, IsRowWord word) :
    ∃ code, Spaced row code ∧ directive line = trim code := by
  obtain ⟨code, note, hcode, hnote, rfl, -⟩ := h
  exact ⟨code, hcode, by rw [directive, hcode.before_eq hrow hnote]⟩

theorem requirementsIn_inside : requirementsIn true (line :: rest) =
    if directive line = [')'] then requirementsIn false rest
    else (requirement? (directive line)).toList ++ requirementsIn true rest := rfl

theorem requirementsIn_outside : requirementsIn false (line :: rest) =
    match after? "require".toList (directive line) with
    | some spec =>
      if trim spec = ['('] then requirementsIn true rest
      else (requirement? spec).toList ++ requirementsIn false rest
    | none => requirementsIn false rest := rfl

theorem IsRow.exists_after? (h : IsRow (word :: row) line)
    (hrow : ∀ w ∈ word :: row, IsRowWord w) : ∃ t, Spaced row t ∧
      (row.head? ≠ some ['('] → ∀ c ∈ t.head?, isBlank c) ∧
      after? "require".toList (directive line) = (after? "require".toList word).map (· ++ t) := by
  obtain ⟨code, hcode, hline⟩ := h.exists_code hrow
  obtain ⟨t, htrim, ht, hapart⟩ := hcode.exists_tail hrow
  have hletters : "require".toList.any (fun c => isBlank c || c = '(') = false := rfl
  refine ⟨t, ht, hapart, ?_⟩
  rw [hline, htrim, after?_word fun c hc hmem => List.any_eq_false.mp hletters c hmem ?_]
  simpa using ht.head_cases hapart c hc

/-- Other lines are passed by. -/
theorem requirementsIn_of_none (h : IsRow (word :: row) line)
    (hrow : ∀ w ∈ word :: row, IsRowWord w) (hword : after? "require".toList word = none) :
    requirementsIn false (line :: rest) = requirementsIn false rest := by
  obtain ⟨t, -, -, hafter⟩ := h.exists_after? hrow
  rw [requirementsIn_outside, hafter, hword]
  rfl

theorem requirementsIn_open (h : IsRow ["require".toList, ['(']] line) :
    requirementsIn false (line :: rest) = requirementsIn true rest := by
  obtain ⟨t, ht, -, hafter⟩ := h.exists_after? (by decide)
  have hspec : after? "require".toList (directive line) = some t := hafter
  rw [requirementsIn_outside, hspec]
  exact if_pos (ht.trim_singleton (by decide))

theorem requirementsIn_close (h : IsRow [[')']] line) :
    requirementsIn true (line :: rest) = requirementsIn false rest := by
  obtain ⟨code, hcode, hline⟩ := h.exists_code (by decide)
  rw [requirementsIn_inside, hline, hcode.trim_singleton (by decide), if_pos rfl]

/-- What a row of words is read as, inside or outside a block of requirements. -/
def readRow? (inside : Bool) (row : List (List Char)) : Option Requirement :=
  if inside then pair? row else takenFor? row

theorem Spaced.rowAfter {spec : List Char} (h : Spaced row t)
    (hapart : row.head? ≠ some ['('] → ∀ c ∈ t.head?, isBlank c) :
    Spaced (rowAfter spec row) (spec ++ t) := by
  unfold GoCalls.rowAfter
  split_ifs with hspec
  · rw [hspec]
    exact h
  · exact .cons (List.forall_mem_nil _) h hapart

/-- **One line of words** gives what its row is read as. -/
theorem requirementsIn_row (h : IsRow row line) (hrow : ∀ word ∈ row, IsModuleWord word)
    (inside : Bool) : requirementsIn inside (line :: rest) =
      (readRow? inside row).toList ++ requirementsIn inside rest := by
  have hrow' : ∀ word ∈ row, IsRowWord word := fun w hw => (hrow w hw).toIsRowWord
  cases inside with
  | true =>
    obtain ⟨code, hcode, hline⟩ := h.exists_code hrow'
    have hspaced := hcode.trim hrow'
    rw [requirementsIn_inside, hline, if_neg (hspaced.ne_paren hrow (.inr rfl)),
      hspaced.requirement?_eq hrow]
    rfl
  | false =>
    cases row with
    | nil =>
      obtain ⟨code, hcode, hline⟩ := h.exists_code hrow'
      cases hcode with
      | nil blank =>
        rw [requirementsIn_outside, hline, trim_eq_nil_iff.mpr blank]
        rfl
    | cons word row =>
      obtain ⟨hword, hrow⟩ := List.forall_mem_cons.mp hrow
      obtain ⟨t, ht, hapart, hafter⟩ := h.exists_after? hrow'
      change _ = (takenFor? (word :: row)).toList ++ _
      rw [requirementsIn_outside, hafter, takenFor?]
      cases hstart : after? "require".toList word with
      | none => rfl
      | some spec =>
        have hspec : ∀ w ∈ rowAfter spec row, IsModuleWord w := by
          unfold rowAfter
          split_ifs with hne
          · exact hrow
          · rw [after?_eq_some.mp hstart] at hword
            exact List.forall_mem_cons.mpr ⟨hword.of_append hne, hrow⟩
        have hspaced : Spaced (rowAfter spec row) (spec ++ t) := ht.rowAfter hapart
        have hparen : trim (spec ++ t) ≠ ['('] :=
          (hspaced.trim fun w hw => (hspec w hw).toIsRowWord).ne_paren hspec (.inl rfl)
        change (if trim (spec ++ t) = ['('] then _ else _) = _
        rw [if_neg hparen, hspaced.requirement?_eq hspec]
        rfl

end Steps

/-! ## Runs of lines -/

namespace Rows

variable {rows : List (List (List Char))} {ls rest : List (List Char)}

/-- **Rows of words** give what they are read as. -/
theorem requirementsIn_eq (h : Rows rows ls)
    (hrows : ∀ row ∈ rows, ∀ word ∈ row, IsModuleWord word) (inside : Bool) :
    requirementsIn inside (ls ++ rest) =
      rows.filterMap (readRow? inside) ++ requirementsIn inside rest := by
  induction h with
  | nil => rfl
  | note head _ ih =>
    have hnone : readRow? inside [] = none := by cases inside <;> rfl
    rw [List.cons_append, requirementsIn_row head (List.forall_mem_nil _), ih hrows, hnone]
    rfl
  | @row row rows _ _ head _ ih =>
    obtain ⟨hrow, hrows⟩ := List.forall_mem_cons.mp hrows
    rw [List.cons_append, requirementsIn_row head hrow, ih hrows, List.filterMap_eq_flatMap_toList,
      List.filterMap_eq_flatMap_toList, List.flatMap_cons, List.append_assoc]

theorem requirementsIn_single (h : Rows [row] ls) {a b : Bool}
    (hstep : ∀ line rest, IsRow row line →
      requirementsIn a (line :: rest) = requirementsIn b rest) :
    requirementsIn a (ls ++ rest) = requirementsIn b rest := by
  generalize hrows : [row] = rows at h
  induction h with
  | nil => cases hrows
  | note head _ ih =>
    have hnone : readRow? a [] = none := by cases a <;> rfl
    rw [List.cons_append, requirementsIn_row head (List.forall_mem_nil _), hnone]
    exact ih hrows
  | row head tail _ =>
    obtain ⟨rfl, rfl⟩ := List.cons.inj hrows
    rw [List.cons_append, hstep _ _ head]
    exact tail.requirementsIn_eq (List.forall_mem_nil _) b

end Rows

/-! ## Module files -/

/-- A word of a module file. -/
abbrev ModuleWord := { word : List Char // IsModuleWord word }

/-- An entry of a block, which has at least one word. -/
structure ModuleEntry where
  first : ModuleWord
  more : List ModuleWord

def ModuleEntry.words (entry : ModuleEntry) : List (List Char) :=
  entry.first.1 :: entry.more.map Subtype.val

/-- The words of a directive on one line. -/
def directiveRow (keyword : String) (words : List ModuleWord) : List (List Char) :=
  keyword.toList :: words.map Subtype.val

/-- The blocks that state no requirements. -/
inductive OtherBlock
  | exclude
  | replace
  | retract

def OtherBlock.keyword : OtherBlock → String
  | .exclude => "exclude"
  | .replace => "replace"
  | .retract => "retract"

/-- A directive or a block of a module file. -/
inductive ModuleClause
  | name (path : ModuleWord)
  | goVersion (version : ModuleWord)
  | require (path version : ModuleWord)
  | requires (entries : List (ModuleWord × ModuleWord))
  | others (kind : OtherBlock) (entries : List ModuleEntry)

/-- The rows of a block. -/
def blockRows (keyword : String) (entries : List (List (List Char))) : List (List (List Char)) :=
  [[keyword.toList, ['(']]] ++ (entries ++ [[[')']]])

namespace ModuleClause

/-- The words of a clause, line by line. -/
def rows : ModuleClause → List (List (List Char))
  | .name path => [directiveRow "module" [path]]
  | .goVersion version => [directiveRow "go" [version]]
  | .require path version => [directiveRow "require" [path, version]]
  | .requires entries => blockRows "require" (entries.map fun e => [e.1.1, e.2.1])
  | .others kind entries => blockRows kind.keyword (entries.map ModuleEntry.words)

/-- The requirements that a clause states. -/
def stated : ModuleClause → List Requirement
  | .require path version => [⟨String.ofList path.1, String.ofList version.1⟩]
  | .requires entries => entries.map fun e => ⟨String.ofList e.1.1, String.ofList e.2.1⟩
  | _ => []

/-- The entries of a clause that state no requirements. -/
def otherEntries : ModuleClause → List ModuleEntry
  | .others _ entries => entries
  | _ => []

/-- The requirements of a clause, and the entries of other blocks that are taken for some. -/
def read (clause : ModuleClause) : List Requirement :=
  clause.stated ++ clause.otherEntries.filterMap fun entry => takenFor? entry.words

end ModuleClause

/-- A text is a module file with some clauses: its lines hold their rows. -/
def IsModuleText (clauses : List ModuleClause) (text : String) : Prop :=
  ∃ ls, ls ≠ [] ∧ Rows (clauses.flatMap ModuleClause.rows) ls ∧
    text.toList = ['\n'].intercalate ls

/-! ## Reading module files -/

theorem directive_dropReturn (line : List Char) : directive (dropReturn line) = directive line := by
  unfold dropReturn
  split_ifs with hlast
  · obtain ⟨front, rfl⟩ := List.getLast?_eq_some_iff.mp hlast
    rw [List.dropLast_concat, directive, directive]
    rcases before_concat (by decide : '\r' ≠ '/') front with h | h
    · rw [h]
    · rw [h, trim_concat_of_blank (by decide)]
  · rfl

theorem requirementsIn_congr {a b : List Char} {as bs : List (List Char)}
    (h : directive a = directive b)
    (hrest : ∀ inside, requirementsIn inside as = requirementsIn inside bs) (inside : Bool) :
    requirementsIn inside (a :: as) = requirementsIn inside (b :: bs) := by
  cases inside with
  | true => rw [requirementsIn_inside, requirementsIn_inside, h, hrest, hrest]
  | false => rw [requirementsIn_outside, requirementsIn_outside, h, hrest, hrest]

/-- The ends of lines do not count. -/
theorem requirementsIn_closeLines (ls : List (List Char)) (inside : Bool) :
    requirementsIn inside (closeLines ls) = requirementsIn inside ls := by
  induction ls generalizing inside with
  | nil => rfl
  | cons line ls ih =>
    cases ls with
    | nil =>
      rw [closeLines]
      split_ifs with hempty
      · rw [List.isEmpty_iff.mp hempty]
        cases inside <;> rfl
      · rfl
    | cons next ls => exact requirementsIn_congr (directive_dropReturn line) ih inside

theorem requirements_of_lines {text : String} {ls : List (List Char)} (hne : ls ≠ [])
    (hls : ∀ line ∈ ls, '\n' ∉ line) (htext : text.toList = ['\n'].intercalate ls) :
    requirements text = requirementsIn false ls := by
  have hcut : cut (· == '\n') text.toList = ls := by
    rw [htext]
    refine cut_intercalate (by decide) hne fun line hline c hc => ?_
    exact beq_eq_false_iff_ne.mpr fun he => hls line hline (he ▸ hc)
  rw [requirements, lines, hcut, requirementsIn_closeLines]

section Blocks

variable {keyword : String} {entries : List (List (List Char))} {ls rest : List (List Char)}

/-- The lines of a block are read inside it. -/
theorem Rows.requirementsIn_block (h : Rows (blockRows keyword entries) ls)
    (hentries : ∀ row ∈ entries, ∀ word ∈ row, IsModuleWord word) {inside : Bool}
    (hopen : ∀ line rest, IsRow [keyword.toList, ['(']] line →
      requirementsIn false (line :: rest) = requirementsIn inside rest)
    (hclose : ∀ line rest, IsRow [[')']] line →
      requirementsIn inside (line :: rest) = requirementsIn false rest) :
    requirementsIn false (ls ++ rest) =
      entries.filterMap (readRow? inside) ++ requirementsIn false rest := by
  obtain ⟨first, _, rfl, hfirst, h⟩ := h.exists_split
  obtain ⟨middle, last, rfl, hmiddle, hlast⟩ := h.exists_split
  rw [List.append_assoc, hfirst.requirementsIn_single hopen, List.append_assoc,
    hmiddle.requirementsIn_eq hentries, hlast.requirementsIn_single hclose]

theorem isModuleWord_of_mem (first : ModuleWord) (more : List ModuleWord) :
    ∀ word ∈ first.1 :: more.map Subtype.val, IsModuleWord word :=
  List.forall_mem_cons.mpr ⟨first.2, List.forall_mem_map.mpr fun word _ => word.2⟩

theorem OtherBlock.isRowWord (kind : OtherBlock) :
    ∀ word ∈ [kind.keyword.toList, ['(']], IsRowWord word := by
  cases kind <;> decide

theorem OtherBlock.after?_keyword (kind : OtherBlock) :
    after? "require".toList kind.keyword.toList = none := by
  cases kind <;> rfl

theorem Rows.requirementsIn_directive {words : List ModuleWord}
    (h : Rows [directiveRow keyword words] ls) (hkeyword : IsModuleWord keyword.toList) :
    requirementsIn false (ls ++ rest) =
      (takenFor? (directiveRow keyword words)).toList ++ requirementsIn false rest := by
  have hrow := isModuleWord_of_mem ⟨keyword.toList, hkeyword⟩ words
  rw [h.requirementsIn_eq (List.forall_mem_singleton.mpr hrow) false,
    List.filterMap_eq_flatMap_toList, List.flatMap_singleton]
  rfl

/-- **The lines of a clause** give what is read from it. -/
theorem ModuleClause.requirementsIn_rows (clause : ModuleClause) (h : Rows clause.rows ls) :
    requirementsIn false (ls ++ rest) = clause.read ++ requirementsIn false rest := by
  cases clause with
  | name path => exact h.requirementsIn_directive (by decide)
  | goVersion version => exact h.requirementsIn_directive (by decide)
  | require path version => exact h.requirementsIn_directive (by decide)
  | requires entries =>
    have hentries : ∀ row ∈ entries.map fun e => [e.1.1, e.2.1], ∀ word ∈ row, IsModuleWord word :=
      List.forall_mem_map.mpr fun e _ => isModuleWord_of_mem e.1 [e.2]
    rw [h.requirementsIn_block hentries (fun _ _ => requirementsIn_open)
      fun _ _ => requirementsIn_close, List.filterMap_map]
    congr 1
    exact (congrFun List.filterMap_eq_map entries).trans (List.append_nil _).symm
  | others kind entries =>
    have hentries : ∀ row ∈ entries.map ModuleEntry.words, ∀ word ∈ row, IsModuleWord word :=
      List.forall_mem_map.mpr fun e _ => isModuleWord_of_mem e.first e.more
    rw [h.requirementsIn_block hentries
      (fun _ _ hline => requirementsIn_of_none hline kind.isRowWord kind.after?_keyword)
      fun _ _ hline => requirementsIn_of_none hline (by decide) rfl, List.filterMap_map]
    rfl

/-- **The lines of a module file** give what is read from its clauses. -/
theorem requirementsIn_clauses {clauses : List ModuleClause}
    (h : Rows (clauses.flatMap ModuleClause.rows) ls) :
    requirementsIn false ls = clauses.flatMap ModuleClause.read := by
  induction clauses generalizing ls with
  | nil =>
    have hnone : requirementsIn false (ls ++ []) = [] :=
      h.requirementsIn_eq (List.forall_mem_nil _) false
    rwa [List.append_nil] at hnone
  | cons clause clauses ih =>
    rw [List.flatMap_cons] at h
    obtain ⟨front, back, rfl, hfront, hback⟩ := h.exists_split
    rw [clause.requirementsIn_rows hfront, ih hback, List.flatMap_cons]

end Blocks

/-! ## Plain texts of module files -/

theorem isRowWord_of_mem (first : ModuleWord) (more : List ModuleWord) :
    first.1 :: more.map Subtype.val ≠ [] ∧
      ∀ word ∈ first.1 :: more.map Subtype.val, IsRowWord word :=
  ⟨List.cons_ne_nil _ _, fun word hword => (isModuleWord_of_mem first more word hword).toIsRowWord⟩

theorem isRowWord_blockRows {keyword : String} {entries : List (List (List Char))}
    (hkeyword : ∀ word ∈ [keyword.toList, ['(']], IsRowWord word)
    (hentries : ∀ row ∈ entries, row ≠ [] ∧ ∀ word ∈ row, IsRowWord word) :
    ∀ row ∈ blockRows keyword entries, row ≠ [] ∧ ∀ word ∈ row, IsRowWord word := by
  have hclose : [[')']] ≠ [] ∧ ∀ word ∈ [[')']], IsRowWord word := by decide
  refine List.forall_mem_append.mpr ⟨?_, List.forall_mem_append.mpr ⟨hentries, ?_⟩⟩
  · exact List.forall_mem_singleton.mpr ⟨List.cons_ne_nil _ _, hkeyword⟩
  · exact List.forall_mem_singleton.mpr hclose

/-- The words of a clause can stand in rows. -/
theorem ModuleClause.isRowWord (clause : ModuleClause) :
    ∀ row ∈ clause.rows, row ≠ [] ∧ ∀ word ∈ row, IsRowWord word := by
  cases clause with
  | name path =>
    exact List.forall_mem_singleton.mpr (isRowWord_of_mem ⟨"module".toList, by decide⟩ [path])
  | goVersion version =>
    exact List.forall_mem_singleton.mpr (isRowWord_of_mem ⟨"go".toList, by decide⟩ [version])
  | require path version =>
    exact List.forall_mem_singleton.mpr
      (isRowWord_of_mem ⟨"require".toList, by decide⟩ [path, version])
  | requires entries =>
    exact isRowWord_blockRows (by decide)
      (List.forall_mem_map.mpr fun e _ => isRowWord_of_mem e.1 [e.2])
  | others kind entries =>
    exact isRowWord_blockRows kind.isRowWord
      (List.forall_mem_map.mpr fun e _ => isRowWord_of_mem e.first e.more)

/-- **Every list of clauses has a text.** -/
theorem isModuleText_plain {clauses : List ModuleClause} {note : List Char} {text : String}
    (hnote : IsRow [] note) (htext : text.toList = ['\n'].intercalate
      (note :: (clauses.flatMap ModuleClause.rows).map [' '].intercalate)) :
    IsModuleText clauses text := by
  refine ⟨_, List.cons_ne_nil _ _, .note hnote (rows_plain fun row hrow => ?_), htext⟩
  obtain ⟨clause, -, hrow⟩ := List.mem_flatMap.mp hrow
  exact clause.isRowWord row hrow

theorem isRow_note : IsRow [] "// Notes.".toList :=
  ⟨[], "// Notes.".toList, .nil (List.forall_mem_nil _), .inr ⟨by decide, by decide⟩, rfl,
    by decide⟩

/-! ## Entries that are taken for requirements -/

/-- An entry begins like a directive, and two words remain after that. -/
def ModuleEntry.IsMistaken (entry : ModuleEntry) : Prop :=
  ∃ rest, entry.first.1 = "require".toList ++ rest ∧
    (rest ≠ [] ∧ entry.more ≠ [] ∨ rest = [] ∧ 2 ≤ entry.more.length)

theorem pair?_eq_none {row : List (List Char)} : pair? row = none ↔ row.length < 2 := by
  match row with
  | [] | [_] => simp [pair?]
  | _ :: _ :: _ => simp [pair?]

theorem ModuleEntry.takenFor?_eq_none (entry : ModuleEntry) :
    takenFor? entry.words = none ↔ ¬ entry.IsMistaken := by
  have hshort : ∀ rest, pair? (rowAfter rest (entry.more.map Subtype.val)) = none ↔
      ¬ (rest ≠ [] ∧ entry.more ≠ [] ∨ rest = [] ∧ 2 ≤ entry.more.length) := by
    intro rest
    rw [pair?_eq_none, rowAfter]
    by_cases hrest : rest = []
    · simp [hrest]
    · cases entry.more <;> simp [hrest]
  change (after? "require".toList entry.first.1).bind _ = none ↔ _
  rw [Option.bind_eq_none_iff, IsMistaken, not_exists]
  refine forall_congr' fun rest => ?_
  rw [after?_eq_some, hshort, not_and]

theorem ModuleClause.read_eq_stated (clause : ModuleClause) :
    clause.read = clause.stated ↔ ∀ entry ∈ clause.otherEntries, ¬ entry.IsMistaken := by
  rw [read, List.append_right_eq_self, List.filterMap_eq_nil_iff]
  exact forall₂_congr fun entry _ => entry.takenFor?_eq_none

/-- Nothing is lost: what is read can only be more. -/
theorem flatMap_read_eq {clauses : List ModuleClause} :
    clauses.flatMap ModuleClause.read = clauses.flatMap ModuleClause.stated ↔
      ∀ clause ∈ clauses, clause.read = clause.stated := by
  have hlength : ∀ clause : ModuleClause, clause.stated.length ≤ clause.read.length := fun clause =>
    (List.sublist_append_left _ _).length_le
  have hlengths : ∀ clauses : List ModuleClause, (clauses.flatMap ModuleClause.stated).length ≤
      (clauses.flatMap ModuleClause.read).length := by
    intro clauses
    induction clauses with
    | nil => exact Nat.le_refl 0
    | cons clause clauses ih =>
      rw [List.flatMap_cons, List.flatMap_cons, List.length_append, List.length_append]
      exact Nat.add_le_add (hlength clause) ih
  induction clauses with
  | nil => simp
  | cons clause clauses ih =>
    rw [List.flatMap_cons, List.flatMap_cons, List.forall_mem_cons]
    constructor
    · intro h
      have hsame : clause.read.length = clause.stated.length := by
        have hboth := congrArg List.length h
        rw [List.length_append, List.length_append] at hboth
        have hclause := hlength clause
        have hclauses := hlengths clauses
        omega
      obtain ⟨hclause, hclauses⟩ := List.append_inj h hsame
      exact ⟨hclause, ih.mp hclauses⟩
    · rintro ⟨hclause, hclauses⟩
      rw [hclause, ih.mpr hclauses]

/-- **Requirements are read from module files** exactly, unless an entry of another block begins
like a directive and has two words left. -/
theorem requirements_exact_iff {clauses : List ModuleClause} {text : String}
    (h : IsModuleText clauses text) :
    requirements text = clauses.flatMap ModuleClause.read ∧
      (requirements text = clauses.flatMap ModuleClause.stated ↔
        ∀ clause ∈ clauses, ∀ entry ∈ clause.otherEntries, ¬ entry.IsMistaken) := by
  obtain ⟨ls, hne, hrows, htext⟩ := h
  have hread : requirements text = clauses.flatMap ModuleClause.read := by
    rw [requirements_of_lines hne hrows.oneLine htext, requirementsIn_clauses hrows]
  refine ⟨hread, ?_⟩
  rw [hread, flatMap_read_eq]
  exact forall₂_congr fun clause _ => clause.read_eq_stated

/-- A module with a block of requirements and one more requirement, and a replaced module. -/
def replacingFile : List ModuleClause :=
  [.name ⟨"a.b/m".toList, by decide⟩, .goVersion ⟨"1.21".toList, by decide⟩,
    .requires [(⟨"c.d/e".toList, by decide⟩, ⟨"v1".toList, by decide⟩)],
    .others .replace
      [⟨⟨"c.d/e".toList, by decide⟩, [⟨"=>".toList, by decide⟩, ⟨"../e".toList, by decide⟩]⟩],
    .require ⟨"f.g/h".toList, by decide⟩ ⟨"v2".toList, by decide⟩]

theorem requirements_exact_iff_replacing :
    let text := "// Notes.\nmodule a.b/m\ngo 1.21\nrequire (\nc.d/e v1\n)\n" ++
      "replace (\nc.d/e => ../e\n)\nrequire f.g/h v2"
    IsModuleText replacingFile text ∧ requirements text = [⟨"c.d/e", "v1"⟩, ⟨"f.g/h", "v2"⟩] := by
  intro text
  have htext : IsModuleText replacingFile text := isModuleText_plain isRow_note (by decide +kernel)
  have htaken : ∀ clause ∈ replacingFile, ∀ entry ∈ clause.otherEntries,
      takenFor? entry.words = none := by decide
  refine ⟨htext, (requirements_exact_iff htext).2.mpr fun clause hclause entry hentry => ?_⟩
  exact entry.takenFor?_eq_none.mp (htaken clause hclause entry hentry)

/-- A module that excludes a version of a module whose path begins like a directive. -/
def excludingFile : List ModuleClause :=
  [.others .exclude [⟨⟨"requirements.io/kit".toList, by decide⟩, [⟨"v1".toList, by decide⟩]⟩],
    .require ⟨"c.d/e".toList, by decide⟩ ⟨"v1".toList, by decide⟩]

/-- The excluded module is taken for a requirement. -/
theorem requirements_of_exclusion :
    let text := "// Notes.\nexclude (\nrequirements.io/kit v1\n)\nrequire c.d/e v1"
    IsModuleText excludingFile text ∧
      excludingFile.flatMap ModuleClause.stated = [⟨"c.d/e", "v1"⟩] ∧
      requirements text = [⟨"ments.io/kit", "v1"⟩, ⟨"c.d/e", "v1"⟩] :=
  ⟨isModuleText_plain isRow_note (by decide +kernel), rfl, by decide +kernel⟩

end GoCalls
