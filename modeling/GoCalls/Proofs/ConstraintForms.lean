import GoCalls.Build.Header
import GoCalls.Proofs.ConstraintTexts
import GoCalls.Proofs.Paths

/-!
# The two forms of constraints

Lines `+build` hold where each of them has an option all of whose terms hold. The same condition can
be written as one expression, with parentheses around the lines and the options. The two forms are
taken apart in different ways, at white space and commas or by the grammar of expressions, and have
the same value.

* `PlusTerm`, `PlusOption`, `PlusLine`: the parts of `+build` lines.
* `Platform.matchesSource_of_plusBuilds`: lines `+build` are taken apart into their terms.
* `buildExpr`, `means_buildExpr`: the expression for some lines, and how it is read.
* `header_sourceOf`: the header of a file that starts with comments.
* **`plusBuild_eq_buildExpr`**: both forms have one value.
-/

namespace GoCalls

open Text Constraint

/-! ## Texts from parts -/

theorem forall_mem_intercalate {P : Char → Prop} {sep : List Char} {parts : List (List Char)}
    (hsep : ∀ c ∈ sep, P c) (h : ∀ part ∈ parts, ∀ c ∈ part, P c) :
    ∀ c ∈ sep.intercalate parts, P c := by
  cases parts with
  | nil => simp
  | cons part parts =>
    rw [intercalate_eq_flatMap]
    intro c hc
    rcases List.mem_append.mp hc with hc | hc
    · exact h part List.mem_cons_self c hc
    · obtain ⟨next, hnext, hc⟩ := List.mem_flatMap.mp hc
      rcases List.mem_append.mp hc with hc | hc
      · exact hsep c hc
      · exact h next (List.mem_cons_of_mem _ hnext) c hc

/-- A separator cuts what was put together with it. -/
theorem Text.cut_intercalate {p : Char → Bool} {sep : Char} (hsep : p sep)
    {parts : List (List Char)} (hne : parts ≠ []) (h : ∀ part ∈ parts, ∀ c ∈ part, p c = false) :
    cut p ([sep].intercalate parts) = parts := by
  induction parts with
  | nil => exact absurd rfl hne
  | cons part parts ih =>
    obtain ⟨hpart, hparts⟩ := List.forall_mem_cons.mp h
    cases parts with
    | nil => rw [List.intercalate_singleton, Text.cut_eq, List.splitOnP_eq_singleton hpart]
    | cons next parts =>
      have hrest := ih (by simp) hparts
      rw [Text.cut_eq] at hrest ⊢
      rw [List.intercalate_cons_cons, List.append_assoc, List.singleton_append,
        List.splitOnP_append_cons_of_forall_mem hpart sep hsep, hrest]

theorem Text.words_intercalate {parts : List (List Char)} (hne : parts ≠ [])
    (h : ∀ part ∈ parts, part ≠ [] ∧ ∀ c ∈ part, isBlank c = false) :
    words ([' '].intercalate parts) = parts := by
  unfold words fields
  rw [Text.cut_intercalate (by decide) hne fun part hpart => (h part hpart).2, List.filter_eq_self]
  intro part hpart
  simpa using (h part hpart).1

theorem Text.words_blank {c : Char} (hc : isBlank c) (s : List Char) :
    words (c :: s) = words s := by
  unfold words fields
  rw [Text.cut_eq, Text.cut_eq, List.splitOnP_cons_eq_if_modifyHead, if_pos hc]
  rfl

/-- A text of one line that does not end in white space. -/
structure IsLine (s : List Char) : Prop where
  solid : ∃ front last, s = front ++ [last] ∧ isBlank last = false
  oneLine : '\n' ∉ s

section IsLine

variable {s front : List Char}

theorem IsLine.append (h : IsLine s) (hfront : '\n' ∉ front) : IsLine (front ++ s) := by
  obtain ⟨middle, last, rfl, hlast⟩ := h.solid
  refine ⟨⟨front ++ middle, last, by simp, hlast⟩, ?_⟩
  rw [List.mem_append, not_or]
  exact ⟨hfront, h.oneLine⟩

theorem isLine_of_forall (hne : s ≠ []) (h : ∀ c ∈ s, isBlank c = false) : IsLine s where
  solid := ⟨s.dropLast, s.getLast hne, (List.dropLast_concat_getLast hne).symm,
    h _ (List.getLast_mem hne)⟩
  oneLine hfeed := absurd (h _ hfeed) (by decide)

theorem isLine_intercalate {sep : List Char} (hsep : '\n' ∉ sep) {parts : List (List Char)}
    (hne : parts ≠ []) (h : ∀ part ∈ parts, IsLine part) : IsLine (sep.intercalate parts) := by
  induction parts with
  | nil => exact absurd rfl hne
  | cons part parts ih =>
    obtain ⟨hpart, hparts⟩ := List.forall_mem_cons.mp h
    cases parts with
    | nil =>
      rw [List.intercalate_singleton]
      exact hpart
    | cons next parts =>
      rw [List.intercalate_cons_cons]
      refine (ih (by simp) hparts).append ?_
      rw [List.mem_append, not_or]
      exact ⟨hpart.oneLine, hsep⟩

theorem IsLine.dropReturn (h : IsLine s) : dropReturn s = s := by
  obtain ⟨front, last, rfl, hlast⟩ := h.solid
  have hne : last ≠ '\r' := by
    rintro rfl
    exact absurd hlast (by decide)
  simp [Text.dropReturn, hne]

theorem IsLine.trim {c : Char} (h : IsLine (c :: s)) (hc : isBlank c = false) :
    trim (c :: s) = c :: s := by
  obtain ⟨front, last, hs, hlast⟩ := h.solid
  unfold Text.trim trimStart dropEndWhile
  rw [List.dropWhile_cons_of_neg (by simp [hc]), hs, List.reverse_append, List.reverse_singleton,
    List.singleton_append, List.dropWhile_cons_of_neg (by simp [hlast])]
  simp

end IsLine

/-! ## Lines with options -/

/-- A term of an option: a tag, which must not hold if the term is negated. -/
structure PlusTerm where
  negated : Bool
  tag : List Char
  isTag : Constraint.isTag tag

/-- An option of a line: terms that must all hold. -/
structure PlusOption where
  terms : List PlusTerm
  terms_ne_nil : terms ≠ []

/-- What stands after `+build` on a line: options, one of which must hold. -/
structure PlusLine where
  options : List PlusOption
  options_ne_nil : options ≠ []

def PlusTerm.eval (holds : String → Bool) (t : PlusTerm) : Bool :=
  if t.negated then !holds (String.ofList t.tag) else holds (String.ofList t.tag)

def PlusOption.eval (holds : String → Bool) (o : PlusOption) : Bool := o.terms.all (·.eval holds)

def PlusLine.eval (holds : String → Bool) (l : PlusLine) : Bool := l.options.any (·.eval holds)

/-- The text of a term, which is the same in both forms. -/
def PlusTerm.text (t : PlusTerm) : List Char := if t.negated then '!' :: t.tag else t.tag

def PlusOption.text (o : PlusOption) : List Char := [','].intercalate (o.terms.map PlusTerm.text)

/-- The words of a line after `+build`. -/
def PlusLine.words (l : PlusLine) : List (List Char) := l.options.map PlusOption.text

namespace PlusTerm

variable (t : PlusTerm)

theorem forall_mem_text : ∀ c ∈ t.text, c = '!' ∨ isTagChar c := by
  have hchars := (isTag_iff.mp t.isTag).2
  intro c hc
  unfold text at hc
  split at hc
  · rcases List.mem_cons.mp hc with rfl | hc
    · exact .inl rfl
    · exact .inr (hchars c hc)
  · exact .inr (hchars c hc)

theorem text_ne_nil : t.text ≠ [] := by
  unfold text
  split
  · exact List.cons_ne_nil _ _
  · exact (isTag_iff.mp t.isTag).1

theorem isBlank_eq_false : ∀ c ∈ t.text, isBlank c = false := by
  intro c hc
  by_contra hblank
  rw [Bool.not_eq_false] at hblank
  rcases t.forall_mem_text c hc with rfl | htag
  · exact absurd hblank (by decide)
  · rw [isTagChar_of_isBlank hblank] at htag
    cases htag

theorem ne_comma : ∀ c ∈ t.text, c ≠ ',' := by
  rintro c hc rfl
  rcases t.forall_mem_text _ hc with h | h
  · exact absurd h (by decide)
  · exact absurd h (by decide)

end PlusTerm

namespace PlusOption

variable (o : PlusOption)

theorem isBlank_eq_false : ∀ c ∈ o.text, isBlank c = false :=
  forall_mem_intercalate (List.forall_mem_singleton.mpr (by decide))
    (List.forall_mem_map.mpr fun t _ => t.isBlank_eq_false)

theorem text_ne_nil : o.text ≠ [] := by
  obtain ⟨t, ts, hterms⟩ := List.exists_cons_of_ne_nil o.terms_ne_nil
  rw [text, hterms, List.map_cons, intercalate_eq_flatMap]
  exact List.append_ne_nil_of_left_ne_nil t.text_ne_nil _

end PlusOption

namespace Platform

variable (platform : Platform)

theorem termHolds_text (t : PlusTerm) : platform.termHolds t.text = t.eval platform.hasTag := by
  have htag := t.isTag
  unfold termHolds PlusTerm.text PlusTerm.eval
  cases t.negated with
  | true => simp [after?, htag]
  | false =>
    have hnot : after? ['!'] t.tag = none := by
      have hchars := (isTag_iff.mp htag).2
      cases hs : t.tag with
      | nil => rfl
      | cons c s =>
        have hc : '!' ≠ c := by
          rintro rfl
          exact absurd (hchars '!' (by simp [hs])) (by decide)
        simp [after?, hc]
    simp [hnot, htag]

theorem optionHolds_text (o : PlusOption) :
    platform.optionHolds o.text = o.eval platform.hasTag := by
  unfold optionHolds PlusOption.text PlusOption.eval
  rw [Text.cut_intercalate (by decide) (by simpa using o.terms_ne_nil), List.all_map]
  · exact List.all_congr rfl fun t => platform.termHolds_text t
  · exact List.forall_mem_map.mpr fun t _ c hc => by simpa using t.ne_comma c hc

theorem any_optionHolds (l : PlusLine) :
    l.words.any platform.optionHolds = l.eval platform.hasTag := by
  rw [PlusLine.words, List.any_map]
  exact List.any_congr rfl fun o => platform.optionHolds_text o

theorem matchesSource_of_buildExpr {text : String} {expr : List Char}
    (hexprs : buildExprs (header text.toList) = [expr]) :
    platform.matchesSource text =
      ((Constraint.parse expr).map (Constraint.eval platform.hasTag)).mapError .malformed := by
  simp only [matchesSource, hexprs]

/-- Where no expression stands, the lines `+build` decide. -/
theorem matchesSource_of_plusBuilds {text : String} {lines : List PlusLine}
    (hexprs : buildExprs (header text.toList) = [])
    (hlines : plusBuilds (header text.toList) = lines.map PlusLine.words) :
    platform.matchesSource text = .ok (lines.all (·.eval platform.hasTag)) := by
  simp only [matchesSource, hexprs, hlines, List.all_map]
  exact congrArg Except.ok (List.all_congr rfl fun l => platform.any_optionHolds l)

end Platform

/-! ## The expression for some lines -/

/-- An expression in parentheses. -/
def inParens (s : List Char) : List Char := '(' :: (s ++ [')'])

def PlusOption.expr (o : PlusOption) : List Char :=
  inParens (Connective.and.between.intercalate (o.terms.map PlusTerm.text))

def PlusLine.expr (l : PlusLine) : List Char :=
  inParens (Connective.or.between.intercalate (l.options.map PlusOption.expr))

/-- The expression for lines that must all hold. -/
def buildExpr (lines : List PlusLine) : List Char :=
  Connective.and.between.intercalate (lines.map PlusLine.expr)

theorem isLine_inParens {s : List Char} (h : IsLine s) : IsLine (inParens s) := by
  refine ⟨⟨'(' :: s, ')', rfl, by decide⟩, ?_⟩
  simpa [inParens] using h.oneLine

theorem PlusOption.isLine_expr (o : PlusOption) : IsLine o.expr :=
  isLine_inParens (isLine_intercalate (by decide) (by simpa using o.terms_ne_nil)
    (List.forall_mem_map.mpr fun t _ => isLine_of_forall t.text_ne_nil t.isBlank_eq_false))

theorem PlusLine.isLine_expr (l : PlusLine) : IsLine l.expr :=
  isLine_inParens (isLine_intercalate (by decide) (by simpa using l.options_ne_nil)
    (List.forall_mem_map.mpr fun o _ => o.isLine_expr))

theorem isLine_buildExpr {lines : List PlusLine} (hne : lines ≠ []) : IsLine (buildExpr lines) :=
  isLine_intercalate (by decide) (by simpa using hne)
    (List.forall_mem_map.mpr fun l _ => l.isLine_expr)

section Means

variable (holds : String → Bool)

-- An operator, `!` and parentheses take one level of depth each, however many operands there are.

theorem means_term (t : PlusTerm) : Means holds 1 .not t.text (t.eval holds) := by
  unfold PlusTerm.text PlusTerm.eval
  split
  · exact (Means.tag t.isTag).not
  · exact (Means.tag t.isTag).mono (Nat.zero_le 1)

theorem means_option (o : PlusOption) : Means holds 3 .not o.expr (o.eval holds) := by
  have hterms := Means.joined .and o.terms_ne_nil fun t _ => means_term holds t
  rw [Connective.fold_and] at hterms
  exact (hterms.lower (by decide)).paren

theorem means_line (l : PlusLine) : Means holds 5 .not l.expr (l.eval holds) := by
  have hoption : ∀ o ∈ l.options, Means holds 3 .and o.expr (o.eval holds) :=
    fun o _ => (means_option holds o).lower (by decide)
  have hoptions := Means.joined .or l.options_ne_nil hoption
  rw [Connective.fold_or] at hoptions
  exact hoptions.paren

/-- The expression is read with the value of the lines. -/
theorem means_buildExpr {lines : List PlusLine} (hne : lines ≠ []) :
    Means holds 6 .or (buildExpr lines) (lines.all (·.eval holds)) := by
  have hlines := Means.joined .and hne fun l _ => means_line holds l
  rw [Connective.fold_and] at hlines
  exact hlines.lower (by decide)

end Means

/-! ## Files that start with comments -/

/-- A file that starts with line comments, of which the texts are given, and a blank line. -/
def sourceOf (comments : List (List Char)) : String :=
  String.ofList (['\n'].intercalate
    (comments.map ("//".toList ++ ·) ++ [[], "package p".toList] ++ [[]]))

theorem Text.closeLines_concat (ls : List (List Char)) :
    closeLines (ls ++ [[]]) = ls.map dropReturn := by
  induction ls with
  | nil => rfl
  | cons l ls ih =>
    rw [List.map_cons, ← ih]
    cases ls <;> rfl

theorem Text.lines_intercalate {ls : List (List Char)}
    (h : ∀ l ∈ ls, dropReturn l = l ∧ '\n' ∉ l) : lines (['\n'].intercalate (ls ++ [[]])) = ls := by
  have hfeed : ∀ l ∈ ls ++ [[]], ∀ c ∈ l, (c == '\n') = false := by
    intro l hl c hc
    rw [beq_eq_false_iff_ne]
    rintro rfl
    rcases List.mem_append.mp hl with hl | hl
    · exact (h l hl).2 hc
    · rw [List.mem_singleton.mp hl] at hc
      cases hc
  rw [lines, Text.cut_intercalate (by decide) (by simp) hfeed, Text.closeLines_concat]
  rw [List.map_congr_left fun l hl => (h l hl).1, List.map_id']

variable {comments : List (List Char)}

theorem headerLines_comments (h : ∀ comment ∈ comments, IsLine comment) :
    headerLines false (comments.map ("//".toList ++ ·) ++ [[], "package p".toList]) =
      comments.map commentLine ++ [.blank] := by
  induction comments with
  | nil => rfl
  | cons comment comments ih =>
    obtain ⟨hcomment, hcomments⟩ := List.forall_mem_cons.mp h
    have hline : IsLine ("//".toList ++ comment) := hcomment.append (by decide)
    have htrim : trim ("//".toList ++ comment) = "//".toList ++ comment := hline.trim (by decide)
    rw [List.map_cons, List.cons_append, headerLines, htrim, ih hcomments]
    rfl

/-- **The header of a file that starts with comments**, line by line. -/
theorem header_sourceOf (h : ∀ comment ∈ comments, IsLine comment) :
    header (sourceOf comments).toList = comments.map commentLine ++ [.blank] := by
  have hline : ∀ line ∈ comments.map ("//".toList ++ ·) ++ [[], "package p".toList],
      dropReturn line = line ∧ '\n' ∉ line := by
    refine List.forall_mem_append.mpr ⟨List.forall_mem_map.mpr ?_, by decide⟩
    intro comment hcomment
    have hline : IsLine ("//".toList ++ comment) := (h comment hcomment).append (by decide)
    exact ⟨hline.dropReturn, hline.oneLine⟩
  have hmark : after? ['\uFEFF'] (sourceOf comments).toList = none := by
    rw [sourceOf, String.toList_ofList]
    cases comments with
    | nil => rfl
    | cons comment comments =>
      rw [List.map_cons, List.cons_append, List.cons_append, intercalate_eq_flatMap]
      rfl
  rw [header, hmark, Option.getD_none, sourceOf, String.toList_ofList,
    Text.lines_intercalate hline]
  exact headerLines_comments h

/-! ## Both forms in files -/

/-- The comment with a line `+build`. -/
def PlusLine.comment (l : PlusLine) : List Char :=
  ' ' :: [' '].intercalate ("+build".toList :: l.words)

theorem PlusLine.forall_mem_words (l : PlusLine) : ∀ word ∈ "+build".toList :: l.words,
    word ≠ [] ∧ ∀ c ∈ word, isBlank c = false := by
  have hfirst : "+build".toList.all (fun c => !isBlank c) := by decide
  refine List.forall_mem_cons.mpr ⟨⟨by decide, fun c hc => ?_⟩, List.forall_mem_map.mpr ?_⟩
  · simpa using List.all_eq_true.mp hfirst c hc
  · exact fun o _ => ⟨o.text_ne_nil, o.isBlank_eq_false⟩

theorem PlusLine.isLine_comment (l : PlusLine) : IsLine l.comment := by
  have hwords : IsLine ([' '].intercalate ("+build".toList :: l.words)) := by
    refine isLine_intercalate (by decide) (by simp) fun word hword => ?_
    obtain ⟨hne, hblank⟩ := l.forall_mem_words word hword
    exact isLine_of_forall hne hblank
  exact hwords.append (show '\n' ∉ [' '] by decide)

theorem commentLine_comment (l : PlusLine) : commentLine l.comment = .plusBuild l.words := by
  have hwords : Text.words l.comment = "+build".toList :: l.words := by
    rw [PlusLine.comment, Text.words_blank (by decide),
      Text.words_intercalate (by simp) l.forall_mem_words]
  have hexpr : buildExpr? l.comment = none := rfl
  rw [commentLine, hexpr, hwords]
  rfl

theorem plusBuilds_concat (words : List (List (List Char))) :
    plusBuilds (words.map .plusBuild ++ [.blank]) = words := by
  induction words with
  | nil => rfl
  | cons word words ih => simp [plusBuilds, ih]

theorem buildExprs_plusBuild (words : List (List (List Char))) :
    buildExprs (words.map .plusBuild ++ [.blank]) = [] := by
  simp [buildExprs]

/-- A file with lines `+build`. -/
def plusSource (lines : List PlusLine) : String := sourceOf (lines.map PlusLine.comment)

/-- A file with the expression for some lines. -/
def buildSource (lines : List PlusLine) : String :=
  sourceOf ["go:build ".toList ++ buildExpr lines]

theorem header_plusSource (lines : List PlusLine) :
    header (plusSource lines).toList = (lines.map PlusLine.words).map .plusBuild ++ [.blank] := by
  rw [plusSource, header_sourceOf (List.forall_mem_map.mpr fun l _ => l.isLine_comment),
    List.map_map, List.map_map]
  congr 1
  exact List.map_congr_left fun l _ => commentLine_comment l

theorem header_buildSource {lines : List PlusLine} (hne : lines ≠ []) :
    header (buildSource lines).toList = [.build (' ' :: buildExpr lines), .blank] := by
  have hcomment : IsLine ("go:build ".toList ++ buildExpr lines) :=
    (isLine_buildExpr hne).append (by decide)
  rw [buildSource, header_sourceOf (List.forall_mem_singleton.mpr hcomment)]
  rfl

/-- **The two forms of constraints agree**: the expression for some lines `+build` decides about a
file as the lines do. -/
theorem plusBuild_eq_buildExpr (platform : Platform) {lines : List PlusLine} (hne : lines ≠ []) :
    let value := lines.all fun line => line.options.any fun option => option.terms.all fun term =>
      if term.negated then !platform.hasTag (String.ofList term.tag)
      else platform.hasTag (String.ofList term.tag)
    (Constraint.parse (buildExpr lines)).map (Constraint.eval platform.hasTag) = .ok value ∧
    (∀ text : String, buildExprs (header text.toList) = [] →
      plusBuilds (header text.toList) = lines.map PlusLine.words →
      platform.matchesSource text = .ok value) ∧
    platform.matchesSource (plusSource lines) = .ok value ∧
    platform.matchesSource (buildSource lines) = .ok value := by
  have hexpr := (means_buildExpr platform.hasTag hne).parse (by decide)
  refine ⟨hexpr, ?_, ?_, ?_⟩
  · exact fun text hexprs hlines => platform.matchesSource_of_plusBuilds hexprs hlines
  · apply platform.matchesSource_of_plusBuilds
    · rw [header_plusSource, buildExprs_plusBuild]
    · rw [header_plusSource, plusBuilds_concat]
  · have hexprs : buildExprs (header (buildSource lines).toList) = [' ' :: buildExpr lines] := by
      rw [header_buildSource hne]
      rfl
    rw [platform.matchesSource_of_buildExpr hexprs, parse_blank, hexpr]
    rfl

/-- Two lines, with a negation in an option and one that stands alone. -/
def sampleLines : List PlusLine :=
  [⟨[⟨[⟨false, "linux".toList, by decide⟩, ⟨true, "cgo".toList, by decide⟩], by decide⟩,
      ⟨[⟨false, "darwin".toList, by decide⟩], by decide⟩], by decide⟩,
    ⟨[⟨[⟨true, "windows".toList, by decide⟩], by decide⟩], by decide⟩]

theorem plusBuild_eq_buildExpr_sample :
    sampleLines ≠ [] ∧
      plusSource sampleLines =
        "// +build linux,!cgo darwin\n// +build !windows\n\npackage p\n" ∧
      buildSource sampleLines =
        "//go:build ((linux && !cgo) || (darwin)) && ((!windows))\n\npackage p\n" ∧
      Platform.matchesSource {} (plusSource sampleLines) = .ok true ∧
      Platform.matchesSource {} (buildSource sampleLines) = .ok true ∧
      Platform.matchesSource { os := "windows" } (plusSource sampleLines) = .ok false ∧
      Platform.matchesSource { os := "windows" } (buildSource sampleLines) = .ok false := by
  have hne : sampleLines ≠ [] := by simp [sampleLines]
  obtain ⟨-, -, hplus, hbuild⟩ := plusBuild_eq_buildExpr {} hne
  obtain ⟨-, -, hplus', hbuild'⟩ := plusBuild_eq_buildExpr { os := "windows" } hne
  exact ⟨hne, by decide, by decide, hplus, hbuild, hplus', hbuild'⟩

end GoCalls
