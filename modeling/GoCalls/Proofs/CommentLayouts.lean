import GoCalls.Proofs.ConstraintForms
import GoCalls.Proofs.HeaderScan

/-!
# Layouts of comments

Before the package clause of a file there is white space, and there are comments: line comments, and
block comments that may go over several lines. In a layout they stand in any order, also several of
them on one line. The header is scanned line by line, and a line that goes on after the end of a
block comment is taken for code, whatever follows there. So a constraint below a line with a comment
after the end of a block comment is not found.

* `HeaderPiece`, `HeaderPiece.textOf`: a layout as a list of pieces, and its text.
* `buildLines`: the constraints on lines that are a `//go:build` comment outside block comments.
* `scannedPart`: the part of a layout above the first comment after the end of a block comment.
* **`header_layout`**: the header of a file with a layout of comments before its package clause.
* **`build_line_counts_iff`**: when the only constraint of a layout decides about the file.
-/

namespace GoCalls

open Text

/-! ## Marks in a text -/

namespace Text

variable {mark s : List Char}

theorem beyond?_eq_none (hne : mark ≠ []) (h : ¬ mark <:+: s) : beyond? mark s = none := by
  induction s with
  | nil => simp [beyond?, hne]
  | cons c s ih =>
    have hafter : after? mark (c :: s) = none :=
      after?_eq_none fun hp => h hp.isInfix
    rw [beyond?, hafter]
    exact ih fun hs => h (hs.trans (List.suffix_cons c s).isInfix)

theorem beyond?_close (h : ¬ "*/".toList <:+: s) (rest : List Char) :
    beyond? "*/".toList (s ++ ("*/".toList ++ rest)) = some rest := by
  induction s with
  | nil => rfl
  | cons c s ih =>
    have hs : ¬ "*/".toList <:+: s := fun hs => h (hs.trans (List.suffix_cons c s).isInfix)
    have hafter : after? "*/".toList (c :: s ++ ("*/".toList ++ rest)) = none := by
      refine after?_eq_none fun hp => ?_
      cases s with
      | nil =>
        obtain ⟨back, hback⟩ := hp
        injection hback with _ hback
        injection hback with hslash
        exact absurd hslash (by decide)
      | cons d s =>
        obtain ⟨back, hback⟩ := hp
        injection hback with hstar hback
        injection hback with hslash
        exact h ⟨[], s, by rw [← hstar, ← hslash]; rfl⟩
    rw [List.cons_append] at hafter ⊢
    rw [beyond?, hafter]
    exact ih hs

theorem trim_dropEndWhile_eq_nil_iff : trim (dropEndWhile isBlank s) = [] ↔ trim s = [] := by
  constructor
  · intro h
    rw [trim_eq_nil_iff]
    intro c hc
    by_contra hblank
    obtain ⟨front, back, rfl⟩ := List.append_of_mem hc
    rw [dropEndWhile_append_cons (by simpa using hblank), trim_eq_nil_iff] at h
    exact hblank (h c (by simp))
  · intro h
    have hempty : dropEndWhile isBlank s = [] :=
      List.rdropWhile_eq_nil_iff.mpr (trim_eq_nil_iff.mp h)
    rw [hempty]
    rfl

theorem dropEndWhile_isInfix (s : List Char) : dropEndWhile isBlank s <:+: s :=
  (List.rdropWhile_prefix isBlank s).isInfix

theorem dropEndWhile_close (s more : List Char) :
    dropEndWhile isBlank (s ++ ("*/".toList ++ more)) =
      s ++ ("*/".toList ++ dropEndWhile isBlank more) := by
  have hslash : dropEndWhile isBlank ('/' :: more) = '/' :: dropEndWhile isBlank more :=
    dropEndWhile_append_cons (by decide) [] more
  change dropEndWhile isBlank (s ++ '*' :: '/' :: more) = _
  rw [dropEndWhile_append_cons (by decide), hslash]
  rfl

theorem trim_isInfix (s : List Char) : trim s <:+: s :=
  (dropEndWhile_isInfix _).trans (List.dropWhile_suffix isBlank).isInfix

/-- The first line of a text, without its line feed. -/
theorem exists_first_line (text : List Char) :
    ∃ line rest, text = line ++ rest ∧ '\n' ∉ line ∧ EndsLine rest := by
  refine ⟨text.takeWhile (· ≠ '\n'), text.dropWhile (· ≠ '\n'), ?_, ?_, ?_⟩
  · exact List.takeWhile_append_dropWhile.symm
  · intro hmem
    simpa using List.mem_takeWhile_imp hmem
  · have hstop := List.head?_dropWhile_not (· ≠ '\n') text
    unfold EndsLine
    cases hhead : (text.dropWhile (· ≠ '\n')).head? with
    | none => rfl
    | some c =>
      rw [hhead] at hstop
      simpa using hstop

end Text

/-! ## Layouts -/

/-- What can stand before the code of a file. -/
inductive HeaderPiece
  /-- A white-space character. -/
  | blank (c : Char) (white : isBlank c)
  /-- A line comment with the line feed after it. -/
  | line (text : List Char) (oneLine : '\n' ∉ text)
  /-- A block comment, which may go over several lines. -/
  | block (text : List Char) (inner : ¬ "*/".toList <:+: text)

/-- What stands before a place on its line. -/
inductive Margin
  /-- White space, from the start of a line outside block comments. -/
  | fresh
  /-- The end of a block comment, and white space after it. -/
  | closed
  deriving DecidableEq

namespace HeaderPiece

def text : HeaderPiece → List Char
  | .blank c _ => [c]
  | .line t _ => "//".toList ++ (t ++ ['\n'])
  | .block t _ => "/*".toList ++ (t ++ "*/".toList)

/-- The text of a layout. -/
def textOf (pieces : List HeaderPiece) : List Char := pieces.flatMap text

def isComment : HeaderPiece → Bool
  | .blank _ _ => false
  | _ => true

end HeaderPiece

namespace Margin

/-- The margin after one more piece. -/
def next (margin : Margin) : HeaderPiece → Margin
  | .blank c _ => if c = '\n' then .fresh else margin
  | .line _ _ => .fresh
  | .block _ _ => .closed

/-- The margin after some pieces. -/
def after (margin : Margin) (pieces : List HeaderPiece) : Margin := pieces.foldl next margin

end Margin

/-- The constraint on a line that is a `//go:build` comment from its start. -/
def buildLine? (margin : Margin) : HeaderPiece → Option (List Char)
  | .line t _ => if margin = .fresh then buildExpr? (dropEndWhile isBlank t) else none
  | _ => none

/-- The constraints on the lines of a layout outside block comments. -/
def buildLines (margin : Margin) : List HeaderPiece → List (List Char)
  | [] => []
  | p :: ps => (buildLine? margin p).toList ++ buildLines (margin.next p) ps

/-- A comment follows the end of a block comment on its line. -/
def Margin.Crowded (margin : Margin) (piece : HeaderPiece) : Prop :=
  margin = .closed ∧ piece.isComment

instance (margin : Margin) (piece : HeaderPiece) : Decidable (margin.Crowded piece) :=
  inferInstanceAs (Decidable (margin = .closed ∧ piece.isComment))

/-- The pieces above the first comment that follows the end of a block comment on its line. -/
def scannedPart (margin : Margin) : List HeaderPiece → List HeaderPiece
  | [] => []
  | p :: ps => if margin.Crowded p then [] else p :: scannedPart (margin.next p) ps

/-- What a piece gives to the header. -/
def HeaderPiece.given (margin : Margin) : HeaderPiece → List HeaderLine
  | .blank c _ => if margin = .fresh ∧ c = '\n' then [.blank] else []
  | .line t _ => [commentLine (dropEndWhile isBlank t)]
  | .block _ _ => []

/-- The header that a layout gives. -/
def layoutHeader (margin : Margin) : List HeaderPiece → List HeaderLine
  | [] => []
  | p :: ps => if margin.Crowded p then [] else p.given margin ++ layoutHeader (margin.next p) ps

theorem buildLines_append (margin : Margin) (ps qs : List HeaderPiece) :
    buildLines margin (ps ++ qs) = buildLines margin ps ++ buildLines (margin.after ps) qs := by
  induction ps generalizing margin with
  | nil => rfl
  | cons p ps ih =>
    rw [List.cons_append, buildLines, buildLines, ih, List.append_assoc]
    rfl

theorem layoutHeader_scannedPart (margin : Margin) (ps : List HeaderPiece) :
    layoutHeader margin (scannedPart margin ps) = layoutHeader margin ps := by
  induction ps generalizing margin with
  | nil => rfl
  | cons p ps ih =>
    rw [scannedPart, layoutHeader]
    split_ifs with hp
    · rfl
    · rw [layoutHeader, if_neg hp, ih]

theorem buildExprs_append (a b : List HeaderLine) :
    buildExprs (a ++ b) = buildExprs a ++ buildExprs b := List.filterMap_append

theorem buildExprs_commentLine (comment : List Char) :
    buildExprs [commentLine comment] = (buildExpr? comment).toList := by
  unfold commentLine
  split
  · rename_i expr hexpr
    rw [hexpr]
    rfl
  · rename_i hnone
    rw [hnone]
    split
    · split_ifs <;> rfl
    · rfl

/-- The constraints of the header are those above the first crowded comment. -/
theorem buildExprs_layoutHeader (margin : Margin) (ps : List HeaderPiece) :
    buildExprs (layoutHeader margin ps) = buildLines margin (scannedPart margin ps) := by
  induction ps generalizing margin with
  | nil => rfl
  | cons p ps ih =>
    rw [layoutHeader, scannedPart]
    split_ifs with hp
    · rfl
    · have hgiven : buildExprs (p.given margin) = (buildLine? margin p).toList := by
        cases p with
        | blank c _ =>
          rw [HeaderPiece.given]
          split_ifs <;> rfl
        | line t _ =>
          have hmargin : margin = .fresh := by
            cases margin with
            | fresh => rfl
            | closed => exact absurd ⟨rfl, rfl⟩ hp
          rw [buildLine?, if_pos hmargin]
          exact buildExprs_commentLine _
        | block t _ => rfl
      rw [buildExprs_append, ih, buildLines, hgiven]

/-! ## Lines of a layout -/

namespace HeaderScan

variable {line rest : List Char}

theorem given_congr {other : List Char} (scan : HeaderScan) (h : trim other = trim line) :
    scan.given other = scan.given line := by
  cases scan <;> simp only [given, h]

theorem lines_first_line (scan : HeaderScan) (h : '\n' ∉ line) (rest : List Char) :
    scan.lines (Text.lines (line ++ '\n' :: rest)) =
      scan.given line ++ (scan.next line).lines (Text.lines rest) := by
  have htrim := trim_dropReturn line
  rw [lines_line_append h, lines_cons, scan.given_congr htrim, scan.next_congr htrim]

/-- On a line, a block comment has ended: what follows must be white space. -/
structure Closes (scan : HeaderScan) (line : List Char) : Prop where
  oneLine : '\n' ∉ line
  given (more : List Char) : scan.given (line ++ more) = []
  next (more : List Char) : scan.next (line ++ more) = if trim more = [] then .outside else .past

theorem Closes.concat {scan : HeaderScan} (h : scan.Closes line) {c : Char} (hc : isBlank c)
    (hfeed : c ≠ '\n') : scan.Closes (line ++ [c]) where
  oneLine := by simpa [h.oneLine] using hfeed.symm
  given more := by
    rw [List.append_assoc]
    exact h.given _
  next more := by
    have hmore : trim ([c] ++ more) = [] ↔ trim more = [] := by
      rw [trim_eq_nil_iff, trim_eq_nil_iff]
      simp [hc]
    rw [List.append_assoc, h.next]
    exact if_congr hmore rfl rfl

/-- Code after a block comment ends the header. -/
theorem Closes.lines_eq_nil {scan : HeaderScan} (h : scan.Closes line) {c : Char}
    (hc : isBlank c = false) (text : List Char) :
    scan.lines (Text.lines (line ++ c :: text)) = [] := by
  have hfeed : c ≠ '\n' := by
    rintro rfl
    exact absurd hc (by decide)
  obtain ⟨more, rest, rfl, hmore, hrest⟩ := exists_first_line text
  have hline : '\n' ∉ line ++ c :: more := by simp [h.oneLine, hmore, hfeed.symm]
  obtain ⟨first, others, hlines, htrim⟩ :=
    exists_lines_of_endsLine hline (List.append_ne_nil_of_right_ne_nil _ (by simp)) hrest
  have hsolid : trim (c :: more) ≠ [] := by
    rw [Ne, trim_eq_nil_iff]
    simp [hc]
  have htext : line ++ c :: (more ++ rest) = line ++ c :: more ++ rest := by simp
  rw [htext, hlines, lines_cons, scan.given_congr htrim, scan.next_congr htrim, h.given, h.next,
    if_neg hsolid]
  rfl

theorem ofComment_of_not_isInfix {s : List Char} (h : ¬ "*/".toList <:+: s) :
    ofComment s = .inside := by
  unfold ofComment
  rw [beyond?_eq_none (by decide) h]

theorem ofComment_close {s : List Char} (h : ¬ "*/".toList <:+: s) (more : List Char) :
    ofComment (s ++ ("*/".toList ++ dropEndWhile isBlank more)) =
      if trim more = [] then .outside else .past := by
  unfold ofComment
  rw [beyond?_close h]
  simp only [trim_dropEndWhile_eq_nil_iff]

theorem closes_inside {t : List Char} (hline : '\n' ∉ t) (h : ¬ "*/".toList <:+: t) :
    inside.Closes (t ++ "*/".toList) where
  oneLine := by simpa using hline
  given _ := rfl
  next more := by
    have hfront : trimStart (t ++ ("*/".toList ++ more)) = trimStart t ++ ("*/".toList ++ more) :=
      trimStart_append_cons (by decide) t _
    have hstart : ¬ "*/".toList <:+: trimStart t := fun hi =>
      h (hi.trans (List.dropWhile_suffix isBlank).isInfix)
    rw [HeaderScan.next, List.append_assoc, trim, hfront, dropEndWhile_close]
    exact ofComment_close hstart more

section Outside

variable {blanks : List Char} (hblanks : ∀ c ∈ blanks, isBlank c)

include hblanks

theorem trim_comment (second : Char) (hsecond : isBlank second = false) (more : List Char) :
    trim (blanks ++ '/' :: second :: more) = '/' :: second :: dropEndWhile isBlank more := by
  have hmore : dropEndWhile isBlank (second :: more) = second :: dropEndWhile isBlank more :=
    dropEndWhile_append_cons hsecond [] more
  rw [trim_append_cons (by decide), trimStart_of_blank hblanks, hmore, List.nil_append]

theorem given_line (t : List Char) :
    outside.given (blanks ++ ("//".toList ++ t)) = [commentLine (dropEndWhile isBlank t)] := by
  have htrim : trim (blanks ++ ("//".toList ++ t)) = '/' :: '/' :: dropEndWhile isBlank t :=
    trim_comment hblanks '/' (by decide) t
  rw [given, htrim, if_neg (by simp)]
  rfl

theorem next_line (t : List Char) : outside.next (blanks ++ ("//".toList ++ t)) = .outside := by
  have htrim : trim (blanks ++ ("//".toList ++ t)) = '/' :: '/' :: dropEndWhile isBlank t :=
    trim_comment hblanks '/' (by decide) t
  rw [next, htrim]
  rfl

theorem given_block (t : List Char) : outside.given (blanks ++ ("/*".toList ++ t)) = [] := by
  have htrim : trim (blanks ++ ("/*".toList ++ t)) = '/' :: '*' :: dropEndWhile isBlank t :=
    trim_comment hblanks '*' (by decide) t
  rw [given, htrim, if_neg (by simp)]
  rfl

theorem next_block (t : List Char) :
    outside.next (blanks ++ ("/*".toList ++ t)) = ofComment (dropEndWhile isBlank t) := by
  have htrim : trim (blanks ++ ("/*".toList ++ t)) = '/' :: '*' :: dropEndWhile isBlank t :=
    trim_comment hblanks '*' (by decide) t
  rw [next, htrim]
  rfl

/-- A block comment that begins and ends on one line. -/
theorem closes_outside (hfeed : '\n' ∉ blanks) {t : List Char} (hline : '\n' ∉ t)
    (h : ¬ "*/".toList <:+: t) :
    outside.Closes (blanks ++ ("/*".toList ++ (t ++ "*/".toList))) where
  oneLine := by simp [hfeed, hline]
  given more := by
    rw [List.append_assoc, List.append_assoc]
    exact given_block hblanks _
  next more := by
    rw [List.append_assoc, List.append_assoc, next_block hblanks, List.append_assoc,
      dropEndWhile_close]
    exact ofComment_close h more

end Outside

theorem exists_closes_inside (t : List Char) (h : ¬ "*/".toList <:+: t) :
    ∃ scan line, Closes scan line ∧ ∀ rest,
      inside.lines (Text.lines (t ++ ("*/".toList ++ rest))) =
        scan.lines (Text.lines (line ++ rest)) := by
  by_cases hfeed : '\n' ∈ t
  · obtain ⟨first, others, rfl, hfirst⟩ := List.eq_append_cons_of_mem hfeed
    have hothers : ¬ "*/".toList <:+: others := fun hi =>
      h (hi.trans ((List.suffix_cons '\n' others).trans (List.suffix_append first _)).isInfix)
    have htrim : ¬ "*/".toList <:+: trim first := fun hi =>
      h ((hi.trans (trim_isInfix first)).trans (List.prefix_append first _).isInfix)
    obtain ⟨scan, line, hcloses, hlines⟩ := exists_closes_inside others hothers
    refine ⟨scan, line, hcloses, fun rest => ?_⟩
    have hnext : inside.next first = .inside := ofComment_of_not_isInfix htrim
    rw [List.append_assoc, List.cons_append, lines_first_line _ hfirst, hnext, ← hlines]
    rfl
  · refine ⟨.inside, _, closes_inside hfeed h, fun rest => ?_⟩
    rw [List.append_assoc]
termination_by t.length
decreasing_by
  rename_i heq
  subst heq
  simp
  omega

/-- **A block comment is passed** with all its lines. -/
theorem exists_closes_outside {blanks : List Char} (hblanks : ∀ c ∈ blanks, isBlank c)
    (hfeed : '\n' ∉ blanks) {t : List Char} (h : ¬ "*/".toList <:+: t) :
    ∃ scan line, Closes scan line ∧ ∀ rest,
      outside.lines (Text.lines (blanks ++ ("/*".toList ++ (t ++ "*/".toList)) ++ rest)) =
        scan.lines (Text.lines (line ++ rest)) := by
  by_cases hline : '\n' ∈ t
  · obtain ⟨first, others, rfl, hfirst⟩ := List.eq_append_cons_of_mem hline
    have hothers : ¬ "*/".toList <:+: others := fun hi =>
      h (hi.trans ((List.suffix_cons '\n' others).trans (List.suffix_append first _)).isInfix)
    have hend : ¬ "*/".toList <:+: dropEndWhile isBlank first := fun hi =>
      h ((hi.trans (dropEndWhile_isInfix first)).trans (List.prefix_append first _).isInfix)
    have honeLine : '\n' ∉ blanks ++ ("/*".toList ++ first) := by simp [hfeed, hfirst]
    obtain ⟨scan, line, hcloses, hlines⟩ := exists_closes_inside others hothers
    refine ⟨scan, line, hcloses, fun rest => ?_⟩
    have htext : blanks ++ ("/*".toList ++ (first ++ '\n' :: others ++ "*/".toList)) ++ rest =
        blanks ++ ("/*".toList ++ first) ++ '\n' :: (others ++ ("*/".toList ++ rest)) := by simp
    rw [htext, lines_first_line _ honeLine, given_block hblanks, next_block hblanks,
      ofComment_of_not_isInfix hend, ← hlines]
    rfl
  · exact ⟨.outside, _, closes_outside hblanks hfeed hline h, fun _ => rfl⟩

end HeaderScan

/-! ## The scan of a layout -/

/-- A margin holds for a scan and the start of its next line: the scan has come to this place. -/
def Margin.Holds : Margin → HeaderScan → List Char → Prop
  | .fresh, scan, line => scan = .outside ∧ '\n' ∉ line ∧ ∀ c ∈ line, isBlank c
  | .closed, scan, line => scan.Closes line

namespace Margin.Holds

open HeaderScan

variable {margin : Margin} {scan : HeaderScan} {line : List Char}

theorem blank (h : margin.Holds scan line) {c : Char} (hc : isBlank c) :
    ∃ scan' line', (margin.next (.blank c hc)).Holds scan' line' ∧ ∀ rest,
      scan.lines (Text.lines (line ++ ([c] ++ rest))) =
        HeaderPiece.given margin (.blank c hc) ++ scan'.lines (Text.lines (line' ++ rest)) := by
  by_cases hfeed : c = '\n'
  · subst hfeed
    -- The line ends, and the scan is outside block comments again.
    refine ⟨.outside, [], ⟨rfl, by simp, by simp⟩, fun rest => ?_⟩
    cases margin with
    | fresh =>
      obtain ⟨rfl, honeLine, hblank⟩ := h
      have htrim : trim line = [] := trim_eq_nil_iff.mpr hblank
      have hgiven : outside.given line = [.blank] := by rw [given, if_pos htrim]
      have hnext : outside.next line = .outside := by
        rw [HeaderScan.next, htrim]
        rfl
      rw [List.singleton_append, lines_first_line _ honeLine, hgiven, hnext]
      rfl
    | closed =>
      have hgiven := Closes.given h []
      have hnext := Closes.next h []
      rw [List.append_nil] at hgiven hnext
      rw [List.singleton_append, lines_first_line _ (Closes.oneLine h), hgiven, hnext]
      rfl
  · -- The line goes on.
    have hmargin : margin.next (.blank c hc) = margin := if_neg hfeed
    have hgiven : HeaderPiece.given margin (.blank c hc) = [] := if_neg fun hc => hfeed hc.2
    refine ⟨scan, line ++ [c], ?_, fun rest => ?_⟩
    · rw [hmargin]
      cases margin with
      | fresh =>
        obtain ⟨rfl, honeLine, hblank⟩ := h
        refine ⟨rfl, by simpa [honeLine] using Ne.symm hfeed, fun d hd => ?_⟩
        rcases List.mem_append.mp hd with hd | hd
        · exact hblank d hd
        · exact List.mem_singleton.mp hd ▸ hc
      | closed => exact Closes.concat h hc hfeed
    · rw [hgiven, List.append_assoc, List.nil_append]

/-- **One piece of a layout** gives its lines to the header. -/
theorem step (h : margin.Holds scan line) {piece : HeaderPiece} (hpiece : ¬ margin.Crowded piece) :
    ∃ scan' line', (margin.next piece).Holds scan' line' ∧ ∀ rest,
      scan.lines (Text.lines (line ++ (piece.text ++ rest))) =
        piece.given margin ++ scan'.lines (Text.lines (line' ++ rest)) := by
  cases piece with
  | blank c hc => exact h.blank hc
  | line t ht =>
    cases margin with
    | closed => exact absurd ⟨rfl, rfl⟩ hpiece
    | fresh =>
      obtain ⟨rfl, honeLine, hblank⟩ := h
      refine ⟨.outside, [], ⟨rfl, by simp, by simp⟩, fun rest => ?_⟩
      have hline : '\n' ∉ line ++ ("//".toList ++ t) := by simp [honeLine, ht]
      have htext : line ++ ((HeaderPiece.line t ht).text ++ rest) =
          line ++ ("//".toList ++ t) ++ '\n' :: rest := by simp [HeaderPiece.text]
      rw [htext, lines_first_line _ hline, given_line hblank, next_line hblank]
      rfl
  | block t ht =>
    cases margin with
    | closed => exact absurd ⟨rfl, rfl⟩ hpiece
    | fresh =>
      obtain ⟨rfl, honeLine, hblank⟩ := h
      obtain ⟨scan, line', hcloses, hlines⟩ := exists_closes_outside hblank honeLine ht
      refine ⟨scan, line', hcloses, fun rest => ?_⟩
      rw [← List.append_assoc]
      exact hlines rest

/-- After the end of a block comment, a comment is taken for code. -/
theorem crowded (h : margin.Holds scan line) {piece : HeaderPiece} (hpiece : margin.Crowded piece)
    (rest : List Char) : scan.lines (Text.lines (line ++ (piece.text ++ rest))) = [] := by
  obtain ⟨rfl, hcomment⟩ := hpiece
  cases piece with
  | blank c _ => cases hcomment
  | line t _ => exact Closes.lines_eq_nil h (by decide : isBlank '/' = false) _
  | block t _ => exact Closes.lines_eq_nil h (by decide : isBlank '/' = false) _

/-- The package clause ends the header. -/
theorem clause (h : margin.Holds scan line) (rest : List Char) :
    scan.lines (Text.lines (line ++ ("package".toList ++ rest))) = [] := by
  cases margin with
  | closed => exact Closes.lines_eq_nil h (by decide : isBlank 'p' = false) _
  | fresh =>
    obtain ⟨rfl, honeLine, hblank⟩ := h
    obtain ⟨more, others, rfl, hmore, hothers⟩ := exists_first_line rest
    have htrim : trim (line ++ ("package".toList ++ more)) =
        'p' :: dropEndWhile isBlank ("ackage".toList ++ more) := by
      change trim (line ++ 'p' :: ("ackage".toList ++ more)) = _
      rw [trim_append_cons (by decide), trimStart_of_blank hblank, List.nil_append]
    have hcode : IsCode (line ++ ("package".toList ++ more)) := by
      constructor <;> rw [htrim] <;> simp
    have hline : '\n' ∉ line ++ ("package".toList ++ more) := by simp [honeLine, hmore]
    obtain ⟨first, later, hlines, hfirst⟩ :=
      exists_lines_of_endsLine hline (by simp) hothers
    rw [← List.append_assoc, ← List.append_assoc, List.append_assoc line, hlines]
    exact (hcode.congr hfirst).lines_eq_nil (by decide) later

/-- **The scan of a layout**, from any margin. -/
theorem lines_textOf (h : margin.Holds scan line) (ps : List HeaderPiece) (rest : List Char) :
    scan.lines (Text.lines (line ++ (HeaderPiece.textOf ps ++ ("package".toList ++ rest)))) =
      layoutHeader margin ps := by
  induction ps generalizing margin scan line with
  | nil => exact h.clause rest
  | cons p ps ih =>
    have htext : HeaderPiece.textOf (p :: ps) ++ ("package".toList ++ rest) =
        p.text ++ (HeaderPiece.textOf ps ++ ("package".toList ++ rest)) := by
      simp [HeaderPiece.textOf]
    rw [htext, layoutHeader]
    split_ifs with hp
    · exact h.crowded hp _
    · obtain ⟨scan', line', h', hlines⟩ := h.step hp
      rw [hlines, ih h']

end Margin.Holds

/-- The text of a file: a byte order mark or none, a layout of comments, and the package clause. -/
def layoutText (mark : List Char) (ps : List HeaderPiece) (rest : List Char) : List Char :=
  mark ++ (HeaderPiece.textOf ps ++ ("package".toList ++ rest))

theorem not_mark_isPrefix_textOf (ps : List HeaderPiece) (rest : List Char) :
    ¬ byteOrderMark <+: HeaderPiece.textOf ps ++ ("package".toList ++ rest) := by
  cases ps with
  | nil => simp [HeaderPiece.textOf, byteOrderMark]
  | cons p ps =>
    cases p with
    | blank c hc =>
      have hne : '\uFEFF' ≠ c := by
        rintro rfl
        exact absurd hc (by decide)
      simpa [HeaderPiece.textOf, HeaderPiece.text, byteOrderMark] using hne
    | line t _ => simp [HeaderPiece.textOf, HeaderPiece.text, byteOrderMark]
    | block t _ => simp [HeaderPiece.textOf, HeaderPiece.text, byteOrderMark]

/-- **The header of a file** with a layout of comments before its package clause. -/
theorem header_layout {mark : List Char} (hmark : mark = byteOrderMark ∨ mark = [])
    (ps : List HeaderPiece) (rest : List Char) :
    header (layoutText mark ps rest) = layoutHeader .fresh ps := by
  have hmark' := hmark.imp_right fun h => And.intro h (not_mark_isPrefix_textOf ps rest)
  have hstart : Margin.fresh.Holds .outside [] := ⟨rfl, by simp, by simp⟩
  rw [layoutText, header_mark_append hmark']
  exact hstart.lines_textOf ps rest

/-! ## The constraint of a layout -/

/-- Above the first line `//go:build`, a comment follows the end of a block comment on its line. -/
def CrowdedAbove (ps : List HeaderPiece) : Prop :=
  ∃ front piece back, ps = front ++ piece :: back ∧ (Margin.fresh.after front).Crowded piece ∧
    buildLines .fresh front = []

/-- The scan ends with a layout, or at a crowded comment. -/
theorem scannedPart_cases (margin : Margin) (ps : List HeaderPiece) :
    scannedPart margin ps = ps ∨ ∃ piece back, ps = scannedPart margin ps ++ piece :: back ∧
      (margin.after (scannedPart margin ps)).Crowded piece := by
  induction ps generalizing margin with
  | nil => exact .inl rfl
  | cons p ps ih =>
    rw [scannedPart]
    split_ifs with hp
    · exact .inr ⟨p, ps, rfl, hp⟩
    · rcases ih (margin.next p) with hall | ⟨piece, back, hps, hpiece⟩
      · exact .inl (by rw [hall])
      · exact .inr ⟨piece, back, by rw [List.cons_append, ← hps], hpiece⟩

theorem scannedPart_isPrefix {margin : Margin} {front : List HeaderPiece} {piece : HeaderPiece}
    (h : (margin.after front).Crowded piece) (back : List HeaderPiece) :
    scannedPart margin (front ++ piece :: back) <+: front := by
  induction front generalizing margin with
  | nil =>
    have hpiece : margin.Crowded piece := h
    rw [List.nil_append, scannedPart, if_pos hpiece]
  | cons p front ih =>
    rw [List.cons_append, scannedPart]
    split_ifs with hp
    · exact List.nil_prefix
    · exact List.cons_prefix_cons.mpr ⟨rfl, ih h⟩

theorem buildLines_scannedPart_of_crowded {ps : List HeaderPiece} (h : CrowdedAbove ps) :
    buildLines .fresh (scannedPart .fresh ps) = [] := by
  obtain ⟨front, piece, back, rfl, hpiece, hfront⟩ := h
  obtain ⟨more, hmore⟩ := scannedPart_isPrefix hpiece back
  rw [← hmore, buildLines_append] at hfront
  exact (List.append_eq_nil_iff.mp hfront).1

theorem buildLines_scannedPart_of_clear {ps : List HeaderPiece} {expr : List Char}
    (hone : buildLines .fresh ps = [expr]) (h : ¬ CrowdedAbove ps) :
    buildLines .fresh (scannedPart .fresh ps) = [expr] := by
  rcases scannedPart_cases .fresh ps with hall | ⟨piece, back, hps, hpiece⟩
  · rw [hall, hone]
  · have hfound : buildLines .fresh (scannedPart .fresh ps) ≠ [] := fun hnone =>
      h ⟨_, piece, back, hps, hpiece, hnone⟩
    rw [hps, buildLines_append, List.append_eq_singleton_iff] at hone
    rcases hone with ⟨hnone, _⟩ | ⟨hexpr, _⟩
    · exact absurd hnone hfound
    · exact hexpr

/-- **When the only constraint of a layout counts**: exactly if no comment above it follows the end
of a block comment on its line. -/
theorem build_line_counts_iff {mark : List Char} (hmark : mark = byteOrderMark ∨ mark = [])
    {ps : List HeaderPiece} {expr : List Char} (hone : buildLines .fresh ps = [expr])
    (rest : List Char) :
    let text := String.ofList (layoutText mark ps rest)
    let above := String.ofList (layoutText mark (scannedPart .fresh ps) [])
    (buildExprs (header text.toList) = [expr] ↔ ¬ CrowdedAbove ps) ∧
    (¬ CrowdedAbove ps → ∀ platform : Platform, platform.matchesSource text =
      ((Constraint.parse expr).map (Constraint.eval platform.hasTag)).mapError .malformed) ∧
    (CrowdedAbove ps → buildExprs (header text.toList) = [] ∧
      ∀ platform : Platform, platform.matchesSource text = platform.matchesSource above) := by
  intro text above
  have hheader : header text.toList = layoutHeader .fresh ps := by
    rw [String.toList_ofList, header_layout hmark]
  have hexprs : buildExprs (header text.toList) = buildLines .fresh (scannedPart .fresh ps) := by
    rw [hheader, buildExprs_layoutHeader]
  have hcrowded (h : CrowdedAbove ps) : buildExprs (header text.toList) = [] := by
    rw [hexprs, buildLines_scannedPart_of_crowded h]
  have hclear (h : ¬ CrowdedAbove ps) : buildExprs (header text.toList) = [expr] := by
    rw [hexprs, buildLines_scannedPart_of_clear hone h]
  refine ⟨⟨fun hfound h => ?_, hclear⟩, fun h platform => ?_,
    fun h => ⟨hcrowded h, fun platform => ?_⟩⟩
  · rw [hcrowded h] at hfound
    cases hfound
  · exact platform.matchesSource_of_buildExpr (hclear h)
  · have habove : header above.toList = header text.toList := by
      rw [hheader, String.toList_ofList, header_layout hmark, layoutHeader_scannedPart]
    unfold Platform.matchesSource
    rw [habove]

/-- A constraint between two block comments, of which the first holds another constraint and the
second follows white space. -/
def spreadNotes : List HeaderPiece :=
  [.block " Notes.\n//go:build darwin\n".toList (by decide), .blank '\n' (by decide),
    .line "go:build linux && !cgo".toList (by decide), .blank ' ' (by decide),
    .block " More notes. ".toList (by decide), .blank ' ' (by decide)]

/-- The constraint outside the block comments decides. -/
theorem build_line_counts_spread :
    let text :=
      "/* Notes.\n//go:build darwin\n*/\n//go:build linux && !cgo\n /* More notes. */ package p"
    String.ofList (layoutText [] spreadNotes " p".toList) = text ∧
      buildLines .fresh spreadNotes = [" linux && !cgo".toList] ∧ ¬ CrowdedAbove spreadNotes ∧
      ∀ platform : Platform, platform.matchesSource text =
        ((Constraint.parse " linux && !cgo".toList).map
          (Constraint.eval platform.hasTag)).mapError .malformed := by
  intro text
  have htext : String.ofList (layoutText [] spreadNotes " p".toList) = text := by decide
  have hone : buildLines .fresh spreadNotes = [" linux && !cgo".toList] := by decide
  have hcounts := build_line_counts_iff (.inr rfl) hone " p".toList
  rw [htext] at hcounts
  have hclear : ¬ CrowdedAbove spreadNotes := hcounts.1.mp (by decide +kernel)
  exact ⟨htext, hone, hclear, hcounts.2.1 hclear⟩

/-- A note after the end of a block comment, and a constraint on the next line. -/
def crowdedNotes : List HeaderPiece :=
  [.block " Notes. ".toList (by decide), .blank ' ' (by decide),
    .line " More notes.".toList (by decide), .line "go:build ignore".toList (by decide),
    .blank '\n' (by decide)]

/-- A note after the end of a block comment hides the constraint. -/
theorem build_line_hidden_by_note :
    ¬ ∀ (platform : Platform) (mark : List Char) (ps : List HeaderPiece) (expr rest : List Char),
      mark = byteOrderMark ∨ mark = [] → buildLines .fresh ps = [expr] →
      platform.matchesSource (String.ofList (layoutText mark ps rest)) =
        ((Constraint.parse expr).map (Constraint.eval platform.hasTag)).mapError .malformed := by
  intro h
  have hcounts := h {} [] crowdedNotes " ignore".toList " p\n".toList (.inr rfl) (by decide)
  have hignored : Except.ok true = (Except.ok false : Except HeaderError Bool) := hcounts
  cases hignored

end GoCalls
