import GoCalls.Build.Header
import GoCalls.Proofs.Paths
import GoCalls.Proofs.Readers

/-!
# Scanning a header

A header is scanned line by line. Between two lines the scan stands outside block comments, inside
one, or past the header, and this is all that it keeps in mind: what the lines after it give depends
on nothing else. Past the header no line gives anything. So whatever follows the first line of code
has no influence on the constraints of a file.

* `HeaderScan`: where a scan stands, with `HeaderScan.given`, what the next line gives, and
  `HeaderScan.next`, where the scan stands after it.
* **`HeaderScan.lines_append`**: a scan goes on from where it stands.
* `Text.lines_joinLines_append`: the lines of a text that is put together from lines.
* **`code_ends_header`**: two texts with the same lines up to a line of code have one value.
-/

namespace GoCalls

open Text

namespace Text

/-! ## The ends of a text -/

variable {c : Char} {s : List Char}

theorem dropEndWhile_append_cons (hc : isBlank c = false) (front back : List Char) :
    dropEndWhile isBlank (front ++ c :: back) = front ++ c :: dropEndWhile isBlank back := by
  have hsolid : ¬ isBlank c = true := by simp [hc]
  unfold dropEndWhile
  rw [List.reverse_append, List.reverse_cons, List.append_assoc, List.singleton_append,
    List.dropWhile_append]
  split_ifs with hback
  · rw [List.dropWhile_cons_of_neg hsolid, List.isEmpty_iff.mp hback]
    simp
  · simp

theorem trimStart_append_cons (hc : isBlank c = false) (front back : List Char) :
    trimStart (front ++ c :: back) = trimStart front ++ c :: back := by
  have hsolid : ¬ isBlank c = true := by simp [hc]
  unfold trimStart
  rw [List.dropWhile_append]
  split_ifs with hfront
  · rw [List.dropWhile_cons_of_neg hsolid, List.isEmpty_iff.mp hfront, List.nil_append]
  · rfl

theorem trim_append_cons (hc : isBlank c = false) (front back : List Char) :
    trim (front ++ c :: back) = trimStart front ++ c :: dropEndWhile isBlank back := by
  rw [trim, trimStart_append_cons hc, dropEndWhile_append_cons hc]

theorem trimStart_of_blank (h : ∀ c ∈ s, isBlank c) : trimStart s = [] :=
  List.dropWhile_eq_nil_iff.mpr h

theorem trim_eq_nil_iff : trim s = [] ↔ ∀ c ∈ s, isBlank c := by
  constructor
  · intro h c hc
    by_contra hblank
    obtain ⟨front, back, rfl⟩ := List.append_of_mem hc
    rw [trim_append_cons (by simpa using hblank)] at h
    simp at h
  · intro h
    rw [trim, trimStart_of_blank h]
    rfl

theorem trim_concat_of_blank (hc : isBlank c) (s : List Char) : trim (s ++ [c]) = trim s := by
  unfold trim trimStart
  rw [List.dropWhile_append]
  split_ifs with hs
  · rw [List.isEmpty_iff.mp hs, List.dropWhile_cons_of_pos hc]
    rfl
  · exact List.rdropWhile_concat_pos _ _ _ hc

theorem trim_dropReturn (line : List Char) : trim (dropReturn line) = trim line := by
  unfold dropReturn
  split_ifs with hlast
  · obtain ⟨front, rfl⟩ := List.getLast?_eq_some_iff.mp hlast
    rw [List.dropLast_concat, trim_concat_of_blank (by decide)]
  · rfl

theorem after?_eq_none {start : List Char} (h : ¬ start <+: s) : after? start s = none := by
  cases hs : after? start s with
  | none => rfl
  | some rest => exact absurd ⟨rest, (after?_eq_some.mp hs).symm⟩ h

/-! ## Lines of a text -/

theorem lines_line_append {line : List Char} (h : '\n' ∉ line) (rest : List Char) :
    lines (line ++ '\n' :: rest) = dropReturn line :: lines rest := by
  have hline : ∀ c ∈ line, (c == '\n') = false := fun c hc =>
    beq_eq_false_iff_ne.mpr fun he => h (he ▸ hc)
  obtain ⟨first, others, hrest⟩ :=
    List.exists_cons_of_ne_nil (List.splitOnP_ne_nil (· == '\n') rest)
  unfold lines
  rw [cut_eq, cut_eq, List.splitOnP_append_cons_of_forall_mem hline '\n' rfl, hrest]
  rfl

theorem lines_of_notMem {line : List Char} (h : '\n' ∉ line) (hne : line ≠ []) :
    lines line = [line] := by
  have hline : ∀ c ∈ line, (c == '\n') = false := fun c hc =>
    beq_eq_false_iff_ne.mpr fun he => h (he ▸ hc)
  unfold lines
  rw [cut_eq, List.splitOnP_eq_singleton hline, closeLines, if_neg (by simpa using hne)]

/-- Some lines, each with its line feed. -/
def joinLines (ls : List (List Char)) : List Char := ls.flatMap (· ++ ['\n'])

theorem lines_joinLines_append {ls : List (List Char)} (h : ∀ line ∈ ls, '\n' ∉ line)
    (rest : List Char) : lines (joinLines ls ++ rest) = ls.map dropReturn ++ lines rest := by
  induction ls with
  | nil => rfl
  | cons line ls ih =>
    obtain ⟨hline, hls⟩ := List.forall_mem_cons.mp h
    have hsplit : joinLines (line :: ls) ++ rest = line ++ '\n' :: (joinLines ls ++ rest) := by
      simp [joinLines]
    rw [hsplit, lines_line_append hline, ih hls, List.map_cons, List.cons_append]

/-- What can follow a whole line: nothing, or a line feed with all that comes after it. -/
def EndsLine (rest : List Char) : Prop := rest.head?.getD '\n' = '\n'

instance (rest : List Char) : Decidable (EndsLine rest) :=
  inferInstanceAs (Decidable (rest.head?.getD '\n' = '\n'))

/-- The first line is found before all that can follow. -/
theorem exists_lines_of_endsLine {line rest : List Char} (h : '\n' ∉ line) (hne : line ≠ [])
    (hrest : EndsLine rest) : ∃ first others, lines (line ++ rest) = first :: others ∧
      trim first = trim line := by
  cases rest with
  | nil => exact ⟨line, [], by rw [List.append_nil, lines_of_notMem h hne], rfl⟩
  | cons c rest =>
    obtain rfl : c = '\n' := hrest
    exact ⟨_, _, lines_line_append h rest, trim_dropReturn line⟩

end Text

/-! ## Where a scan stands -/

/-- Where the scan of a header stands between two lines. -/
inductive HeaderScan
  /-- In the header, outside block comments. -/
  | outside
  /-- In a block comment of the header. -/
  | inside
  /-- Past the header. -/
  | past
  deriving DecidableEq

namespace HeaderScan

/-- Where the scan stands after a line that ends with `text`, which begins in a block comment. -/
def ofComment (text : List Char) : HeaderScan :=
  match beyond? "*/".toList text with
  | some after => if trim after = [] then .outside else .past
  | none => .inside

/-- Where the scan stands after one more line. -/
def next : HeaderScan → List Char → HeaderScan
  | .past, _ => .past
  | .inside, line => ofComment (trim line)
  | .outside, line =>
    match after? "//".toList (trim line), after? "/*".toList (trim line) with
    | some _, _ => .outside
    | none, some text => ofComment text
    | none, none => if trim line = [] then .outside else .past

/-- What one more line gives to the header. -/
def given : HeaderScan → List Char → List HeaderLine
  | .outside, line =>
    if trim line = [] then [.blank]
    else ((after? "//".toList (trim line)).map commentLine).toList
  | _, _ => []

/-- What all lines that follow give to the header. -/
def lines : HeaderScan → List (List Char) → List HeaderLine
  | .outside, rest => headerLines false rest
  | .inside, rest => headerLines true rest
  | .past, _ => []

/-- Where the scan stands after some lines. -/
def after (scan : HeaderScan) (ls : List (List Char)) : HeaderScan := ls.foldl next scan

variable {line other : List Char} (scan : HeaderScan) (rest : List (List Char))

theorem next_congr (h : trim other = trim line) : scan.next other = scan.next line := by
  cases scan <;> simp only [next, h]

theorem lines_nil : scan.lines [] = [] := by
  cases scan <;> simp [lines, headerLines]

/-- **One line of a header.** -/
theorem lines_cons :
    scan.lines (line :: rest) = scan.given line ++ (scan.next line).lines rest := by
  have hclose (text : List Char) : (match beyond? "*/".toList text with
      | some after => if trim after = [] then headerLines false rest else []
      | none => headerLines true rest) = (ofComment text).lines rest := by
    unfold ofComment
    split
    · split_ifs
      · rfl
      · rfl
    · rfl
  cases scan with
  | past => rfl
  | inside =>
    rw [lines, headerLines]
    exact hclose (trim line)
  | outside =>
    rw [lines, headerLines]
    simp only [Bool.false_eq_true, ↓reduceIte, given, next]
    split_ifs with hline
    · simp [hline, after?, lines]
    · cases after? "//".toList (trim line) with
      | some comment => rfl
      | none =>
        cases after? "/*".toList (trim line) with
        | some text => exact hclose text
        | none => rfl

/-- **A scan goes on from where it stands**, whatever the lines before it were. -/
theorem lines_append (ls : List (List Char)) :
    scan.lines (ls ++ rest) = scan.lines ls ++ (scan.after ls).lines rest := by
  induction ls generalizing scan with
  | nil =>
    rw [lines_nil]
    rfl
  | cons line ls ih =>
    rw [List.cons_append, lines_cons, lines_cons, ih, List.append_assoc]
    rfl

theorem after_map_dropReturn (ls : List (List Char)) :
    scan.after (ls.map dropReturn) = scan.after ls := by
  unfold after
  rw [List.foldl_map]
  exact List.foldl_ext _ _ _ fun scan line _ => scan.next_congr (trim_dropReturn line)

end HeaderScan

/-! ## Lines of code -/

/-- A line of code: it is not blank, and does not begin with a comment. -/
structure IsCode (line : List Char) : Prop where
  ne_nil : trim line ≠ []
  not_line : ¬ "//".toList <+: trim line
  not_block : ¬ "/*".toList <+: trim line

namespace IsCode

variable {line other : List Char}

theorem congr (h : IsCode line) (he : trim other = trim line) : IsCode other where
  ne_nil := he ▸ h.ne_nil
  not_line := he ▸ h.not_line
  not_block := he ▸ h.not_block

/-- A line of code ends the header. -/
theorem lines_eq_nil (h : IsCode line) {scan : HeaderScan} (hscan : scan ≠ .inside)
    (rest : List (List Char)) : scan.lines (line :: rest) = [] := by
  rw [HeaderScan.lines_cons]
  cases scan with
  | inside => exact absurd rfl hscan
  | past => rfl
  | outside =>
    simp only [HeaderScan.given, HeaderScan.next, after?_eq_none h.not_line,
      after?_eq_none h.not_block, if_neg h.ne_nil]
    rfl

end IsCode

/-! ## Texts -/

/-- The byte order mark that a text can start with. -/
def byteOrderMark : List Char := ['\uFEFF']

/-- A byte order mark is left out. -/
theorem header_mark_append {mark text : List Char}
    (h : mark = byteOrderMark ∨ mark = [] ∧ ¬ byteOrderMark <+: text) :
    header (mark ++ text) = HeaderScan.outside.lines (lines text) := by
  unfold header
  rcases h with rfl | ⟨rfl, hnone⟩
  · have hafter : after? ['\uFEFF'] (byteOrderMark ++ text) = some text := after?_eq_some.mpr rfl
    rw [hafter]
    rfl
  · have hafter : after? ['\uFEFF'] text = none := after?_eq_none hnone
    rw [List.nil_append, hafter]
    rfl

theorem not_mark_isPrefix_append {text : List Char} (hne : text ≠ [])
    (h : ¬ byteOrderMark <+: text) (rest : List Char) : ¬ byteOrderMark <+: text ++ rest := by
  obtain ⟨c, text, rfl⟩ := List.exists_cons_of_ne_nil hne
  simpa [byteOrderMark] using h

/-- **Code ends the header**: nothing after a line of code outside block comments has an influence
on the constraints of a text. -/
theorem code_ends_header (platform : Platform) {mark code : List Char} {ls : List (List Char)}
    (hmark : mark = byteOrderMark ∨ mark = [] ∧ ¬ byteOrderMark <+: joinLines ls ++ code)
    (hls : ∀ line ∈ ls, '\n' ∉ line) (hout : HeaderScan.outside.after ls ≠ .inside)
    (hline : '\n' ∉ code) (hcode : IsCode code) {rest rest' : List Char} (hrest : EndsLine rest)
    (hrest' : EndsLine rest') :
    platform.matchesSource (String.ofList (mark ++ (joinLines ls ++ code ++ rest))) =
      platform.matchesSource (String.ofList (mark ++ (joinLines ls ++ code ++ rest'))) := by
  have hne : code ≠ [] := by
    rintro rfl
    exact hcode.ne_nil rfl
  have hheader {rest : List Char} (hrest : EndsLine rest) :
      header (mark ++ (joinLines ls ++ code ++ rest)) =
        HeaderScan.outside.lines (ls.map dropReturn) := by
    obtain ⟨first, others, hfirst, htrim⟩ := exists_lines_of_endsLine hline hne hrest
    have hmark' : mark = byteOrderMark ∨ mark = [] ∧
        ¬ byteOrderMark <+: joinLines ls ++ code ++ rest :=
      hmark.imp_right fun h => ⟨h.1, not_mark_isPrefix_append (by simp [hne]) h.2 rest⟩
    rw [header_mark_append hmark', List.append_assoc, lines_joinLines_append hls, hfirst,
      HeaderScan.lines_append, HeaderScan.after_map_dropReturn,
      (hcode.congr htrim).lines_eq_nil hout, List.append_nil]
  unfold Platform.matchesSource
  rw [String.toList_ofList, String.toList_ofList, hheader hrest, hheader hrest']

/-- The lines of a header: a constraint inside a block comment, and one that counts. -/
def noteLines : List (List Char) :=
  ["/* Notes".toList, "//go:build darwin".toList, "*/".toList, "// +build linux".toList, []]

/-- After the package clause comes a comment that is not closed. -/
theorem code_ends_header_unclosed :
    let text := "/* Notes\n//go:build darwin\n*/\n// +build linux\n\npackage p"
    HeaderScan.outside.after noteLines ≠ .inside ∧ IsCode "package p".toList ∧
      String.ofList (joinLines noteLines ++ "package p".toList) = text ∧
      Platform.matchesSource {} (text ++ "\n//go:build ignore\n/* More") =
        Platform.matchesSource {} text := by
  intro text
  have hout : HeaderScan.outside.after noteLines ≠ .inside := by decide
  have hcode : IsCode "package p".toList := ⟨by decide, by decide, by decide⟩
  have hmark : ([] : List Char) = byteOrderMark ∨ ([] : List Char) = [] ∧
      ¬ byteOrderMark <+: joinLines noteLines ++ "package p".toList := .inr ⟨rfl, by decide⟩
  have hrest : EndsLine "\n//go:build ignore\n/* More".toList := by decide
  have hend : EndsLine [] := by decide
  have htext : String.ofList (joinLines noteLines ++ "package p".toList) = text := by decide
  have hsame := code_ends_header {} hmark (by decide) hout (by decide) hcode hrest hend
  rw [List.nil_append, List.nil_append, List.append_nil, String.ofList_append, htext,
    String.ofList_toList] at hsame
  exact ⟨hout, hcode, htext, hsame⟩

/-- A comment after the byte order mark is no code, though the mark is no white space. -/
theorem marked_comment_ends_no_header :
    ¬ ∀ (platform : Platform) (ls : List (List Char)) (code rest rest' : List Char),
      (∀ line ∈ ls, '\n' ∉ line) → HeaderScan.outside.after ls ≠ .inside → '\n' ∉ code →
      IsCode code → EndsLine rest → EndsLine rest' →
      platform.matchesSource (String.ofList (joinLines ls ++ code ++ rest)) =
        platform.matchesSource (String.ofList (joinLines ls ++ code ++ rest')) := by
  intro h
  have hsame := h {} [] "\uFEFF// Notes.".toList "\n//go:build ignore\n".toList [] (by decide)
    (by decide) (by decide) ⟨by decide, by decide, by decide⟩ (by decide) (by decide)
  have hignored : Except.ok false = (Except.ok true : Except HeaderError Bool) := hsame
  cases hignored

end GoCalls
