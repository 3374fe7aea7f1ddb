import GoCalls.Proofs.ConstraintForms
import GoCalls.Proofs.HeaderScan

/-!
# Rows of words

A line of a file can hold a row of words, with white space around them and a comment at its end.
What is read from such a line is a matter of its words, however they are laid out.

* `Spaced`, `IsRow`: the layouts of a row, as a text and as a line.
* `Spaced.before_eq`: a comment is taken off.
* **`Spaced.words_eq`**: the words of a layout are those of the row.
* `Rows`: lines with some rows, and with blank lines and comments between them.
* `rows_plain`: there is such a layout, with one blank between words.
-/

namespace GoCalls

open Text

namespace Text

variable {c : Char} {s word gap : List Char}

/-! ## Words of a text -/

theorem words_gap (hgap : ∀ c ∈ gap, isBlank c) (s : List Char) : words (gap ++ s) = words s := by
  induction gap with
  | nil => rfl
  | cons c gap ih =>
    obtain ⟨hc, hgap⟩ := List.forall_mem_cons.mp hgap
    rw [List.cons_append, words_blank hc, ih hgap]

theorem words_word (hne : word ≠ []) (hword : ∀ c ∈ word, isBlank c = false)
    (hs : ∀ c ∈ s.head?, isBlank c) : words (word ++ s) = word :: words s := by
  cases s with
  | nil =>
    unfold words fields
    rw [List.append_nil, cut_eq, cut_eq, List.splitOnP_eq_singleton hword]
    simp [hne]
  | cons c s =>
    have hc : isBlank c := hs c rfl
    rw [words_blank hc]
    unfold words fields
    rw [cut_eq, cut_eq, List.splitOnP_append_cons_of_forall_mem hword c hc]
    simp [hne]

/-! ## The ends of words -/

theorem dropEndWhile_word (hword : ∀ c ∈ word, isBlank c = false) (s : List Char) :
    dropEndWhile isBlank (word ++ s) = word ++ dropEndWhile isBlank s := by
  induction word with
  | nil => rfl
  | cons c word ih =>
    obtain ⟨hc, hword⟩ := List.forall_mem_cons.mp hword
    exact (dropEndWhile_append_cons hc [] (word ++ s)).trans (congrArg (c :: ·) (ih hword))

theorem dropEndWhile_append_word (hne : word ≠ []) (hword : ∀ c ∈ word, isBlank c = false)
    (front s : List Char) :
    dropEndWhile isBlank (front ++ (word ++ s)) = front ++ (word ++ dropEndWhile isBlank s) := by
  obtain ⟨c, more, rfl⟩ := List.exists_cons_of_ne_nil hne
  obtain ⟨hc, hmore⟩ := List.forall_mem_cons.mp hword
  rw [List.cons_append, dropEndWhile_append_cons hc, dropEndWhile_word hmore]
  rfl

theorem head?_dropEndWhile (h : c ∈ (dropEndWhile isBlank s).head?) : c ∈ s.head? := by
  obtain ⟨back, hback⟩ : dropEndWhile isBlank s <+: s := List.rdropWhile_prefix isBlank s
  rw [← hback, List.head?_append, Option.mem_def, Option.mem_def.mp h, Option.some_or]

theorem trim_word (hgap : ∀ c ∈ gap, isBlank c) (hne : word ≠ [])
    (hword : ∀ c ∈ word, isBlank c = false) (s : List Char) :
    trim (gap ++ (word ++ s)) = word ++ dropEndWhile isBlank s := by
  obtain ⟨c, more, rfl⟩ := List.exists_cons_of_ne_nil hne
  obtain ⟨hc, hmore⟩ := List.forall_mem_cons.mp hword
  rw [List.cons_append, trim_append_cons hc, trimStart_of_blank hgap, dropEndWhile_word hmore]
  rfl

theorem strip_eq_self {p : Char → Bool} (h : ∀ c ∈ s, p c = false) : strip p s = s := by
  have hdrop : ∀ {s : List Char}, (∀ c ∈ s, p c = false) → s.dropWhile p = s := by
    intro s hs
    cases s with
    | nil => rfl
    | cons c s => rw [List.dropWhile_cons_of_neg (by simp [hs c List.mem_cons_self])]
  unfold strip dropEndWhile
  rw [hdrop h, hdrop (by simpa using h), List.reverse_reverse]

theorem after?_word {start : List Char} (hs : ∀ c ∈ s.head?, c ∉ start) :
    after? start (word ++ s) = (after? start word).map (· ++ s) := by
  induction start generalizing word with
  | nil => rfl
  | cons d start ih =>
    cases word with
    | nil =>
      cases s with
      | nil => rfl
      | cons c s =>
        have hc : d ≠ c := fun he => hs c rfl (he ▸ List.mem_cons_self)
        exact after?_cons_of_ne hc start s
    | cons c word =>
      rw [List.cons_append, after?, after?]
      split_ifs
      · exact ih fun c hc hmem => hs c hc (List.mem_cons_of_mem _ hmem)
      · rfl

/-! ## Comments -/

/-- A comment does not start in a word. -/
theorem before_append (hword : ¬ "//".toList <:+: word)
    (h : word.getLast? = some '/' → s.head? ≠ some '/') :
    before "//".toList (word ++ s) = word ++ before "//".toList s := by
  induction word with
  | nil => rfl
  | cons c word ih =>
    have hnone : after? "//".toList (c :: (word ++ s)) = none := by
      refine after?_eq_none fun ⟨more, hmore⟩ => ?_
      obtain ⟨rfl, hrest⟩ := List.cons.inj hmore
      cases word with
      | nil => exact h rfl (by rw [← List.nil_append s, ← hrest]; rfl)
      | cons d word =>
        obtain ⟨rfl, -⟩ := List.cons.inj hrest
        exact hword ⟨[], word, rfl⟩
    have htail : before "//".toList (word ++ s) = word ++ before "//".toList s := by
      have hrest : ¬ "//".toList <:+: word := fun hslashes =>
        hword (hslashes.trans (List.suffix_cons c word).isInfix)
      refine ih hrest fun hlast => h ?_
      cases word with
      | nil => cases hlast
      | cons d word => rwa [List.getLast?_cons_cons]
    rw [List.cons_append, before, hnone, htail]
    rfl

theorem before_gap (hgap : ∀ c ∈ gap, isBlank c) (s : List Char) :
    before "//".toList (gap ++ s) = gap ++ before "//".toList s := by
  have hslash : '/' ∉ gap := fun hmem => absurd (hgap _ hmem) (by decide)
  refine before_append (fun hslashes => hslash (hslashes.subset List.mem_cons_self)) fun hlast => ?_
  exact absurd (List.mem_of_getLast? hlast) hslash

theorem before_concat (hc : c ≠ '/') (s : List Char) :
    before "//".toList (s ++ [c]) = before "//".toList s ∨
      before "//".toList (s ++ [c]) = before "//".toList s ++ [c] := by
  have hmark : ∀ d ∈ [c].head?, d ∉ "//".toList := by simpa using hc
  induction s with
  | nil =>
    have hnone : after? "//".toList ([] ++ [c]) = none := after?_word hmark
    rw [List.nil_append] at hnone
    right
    change before "//".toList [c] = [c]
    rw [before, hnone]
    rfl
  | cons d s ih =>
    rw [List.cons_append, before, before, ← List.cons_append, after?_word hmark, Option.isSome_map]
    split_ifs
    · exact .inl rfl
    · rcases ih with ih | ih
      · exact .inl (by rw [ih])
      · exact .inr (by rw [ih, List.cons_append])

end Text

/-! ## Rows of words -/

/-- A text holds some words with white space around them. Only a parenthesis can follow another word
directly. -/
inductive Spaced : List (List Char) → List Char → Prop
  | nil {gap : List Char} (blank : ∀ c ∈ gap, isBlank c) : Spaced [] gap
  | cons {gap word s : List Char} {row : List (List Char)} (blank : ∀ c ∈ gap, isBlank c)
      (tail : Spaced row s) (apart : row.head? ≠ some ['('] → ∀ c ∈ s.head?, isBlank c) :
      Spaced (word :: row) (gap ++ (word ++ s))

/-- A line holds the words of a row, and perhaps a comment after them. -/
def IsRow (row : List (List Char)) (line : List Char) : Prop :=
  ∃ code note, Spaced row code ∧
    (note = [] ∨ "//".toList <+: note ∧ code.getLast? ≠ some '/') ∧
    line = code ++ note ∧ '\n' ∉ line

/-- A word can stand in a row: it has no white space, and no comment starts in it. -/
structure IsRowWord (word : List Char) : Prop where
  ne_nil : word ≠ []
  solid : ∀ c ∈ word, isBlank c = false
  noComment : ¬ "//".toList <:+: word

instance (word : List Char) : Decidable (IsRowWord word) :=
  decidable_of_iff
    (word ≠ [] ∧ word.any isBlank = false ∧ ¬ "//".toList <:+: word)
    ⟨fun h => ⟨h.1, by simpa using h.2.1, h.2.2⟩,
      fun h => ⟨h.ne_nil, by simpa using h.solid, h.noComment⟩⟩

variable {row : List (List Char)} {line s t word : List Char}

namespace Spaced

theorem head_cases (h : Spaced row s)
    (hapart : row.head? ≠ some ['('] → ∀ c ∈ s.head?, isBlank c) :
    ∀ c ∈ s.head?, isBlank c ∨ c = '(' := by
  intro c hc
  by_cases hparen : row.head? = some ['(']
  · cases h with
    | nil => cases hparen
    | @cons gap word s row blank _ _ =>
      obtain rfl : word = ['('] := Option.some.inj hparen
      cases gap with
      | nil => exact .inr (Option.some.inj hc).symm
      | cons d gap =>
        obtain rfl := Option.some.inj hc
        exact .inl (blank _ List.mem_cons_self)
  · exact .inl (hapart hparen c hc)

theorem before_eq (h : Spaced row s) (hrow : ∀ word ∈ row, IsRowWord word) {note : List Char}
    (hnote : note = [] ∨ "//".toList <+: note ∧ s.getLast? ≠ some '/') :
    before "//".toList (s ++ note) = s := by
  have hend : before "//".toList note = [] := by
    rcases hnote with rfl | ⟨⟨more, rfl⟩, -⟩
    · rfl
    · rfl
  induction h with
  | nil blank => rw [before_gap blank, hend, List.append_nil]
  | @cons gap word s row blank tail apart ih =>
    obtain ⟨hword, hrow⟩ := List.forall_mem_cons.mp hrow
    have hlast : word.getLast? = some '/' → (s ++ note).head? ≠ some '/' := by
      intro hword hslash
      cases s with
      | nil =>
        rcases hnote with rfl | ⟨-, hnote⟩
        · cases hslash
        · simp [List.getLast?_append, hword] at hnote
      | cons c s => exact absurd (tail.head_cases apart _ hslash) (by decide)
    have htail : note = [] ∨ "//".toList <+: note ∧ s.getLast? ≠ some '/' := by
      refine hnote.imp_right fun ⟨hstart, hslash⟩ => ⟨hstart, fun hs => hslash ?_⟩
      simp [List.getLast?_append, hs]
    rw [List.append_assoc, before_gap blank, List.append_assoc,
      before_append hword.noComment hlast, ih hrow htail]

theorem dropEnd (h : Spaced row s) (hrow : ∀ word ∈ row, IsRowWord word) :
    Spaced row (dropEndWhile isBlank s) := by
  induction h with
  | @nil gap blank =>
    exact .nil fun c hc => blank c ((List.rdropWhile_prefix isBlank gap).subset hc)
  | @cons gap word s row blank tail apart ih =>
    obtain ⟨hword, hrow⟩ := List.forall_mem_cons.mp hrow
    rw [dropEndWhile_append_word hword.ne_nil hword.solid]
    exact .cons blank (ih hrow) fun hhead c hc => apart hhead c (head?_dropEndWhile hc)

/-- A row starts with its first word. -/
theorem exists_tail (h : Spaced (word :: row) s) (hrow : ∀ w ∈ word :: row, IsRowWord w) :
    ∃ t, trim s = word ++ t ∧ Spaced row t ∧
      (row.head? ≠ some ['('] → ∀ c ∈ t.head?, isBlank c) := by
  obtain ⟨hword, hrow⟩ := List.forall_mem_cons.mp hrow
  cases h with
  | @cons gap _ s _ blank tail apart =>
    exact ⟨dropEndWhile isBlank s, trim_word blank hword.ne_nil hword.solid s, tail.dropEnd hrow,
      fun hhead c hc => apart hhead c (head?_dropEndWhile hc)⟩

theorem trim (h : Spaced row s) (hrow : ∀ word ∈ row, IsRowWord word) : Spaced row (trim s) := by
  cases row with
  | nil =>
    cases h with
    | nil blank =>
      rw [trim_eq_nil_iff.mpr blank]
      exact .nil (List.forall_mem_nil _)
  | cons word row =>
    obtain ⟨t, hs, ht, hapart⟩ := h.exists_tail hrow
    rw [hs]
    exact .cons (List.forall_mem_nil _) ht hapart

theorem trim_singleton (h : Spaced [word] s) (hword : IsRowWord word) : Text.trim s = word := by
  cases h with
  | @cons gap _ s _ blank tail _ =>
    cases tail with
    | nil hs =>
      rw [trim_word blank hword.ne_nil hword.solid]
      have hend : dropEndWhile isBlank s = [] := List.rdropWhile_eq_nil_iff.mpr hs
      rw [hend, List.append_nil]

theorem words_eq (h : Spaced row s) (hrow : ∀ word ∈ row, IsRowWord word) (hparen : ['('] ∉ row) :
    words s = row := by
  induction h with
  | @nil gap blank =>
    rw [← List.append_nil gap, words_gap blank]
    rfl
  | @cons gap word s row blank tail apart ih =>
    obtain ⟨hword, hrow⟩ := List.forall_mem_cons.mp hrow
    rw [List.mem_cons, not_or] at hparen
    have hhead : row.head? ≠ some ['('] := fun he => hparen.2 (List.mem_of_head? he)
    rw [words_gap blank, words_word hword.ne_nil hword.solid (apart hhead), ih hrow hparen.2]

end Spaced

/-! ## Lines with rows -/

/-- Lines hold some rows one after another, with blank lines and comments between them. -/
inductive Rows : List (List (List Char)) → List (List Char) → Prop
  | nil : Rows [] []
  | note {rows : List (List (List Char))} {line : List Char} {ls : List (List Char)}
      (head : IsRow [] line) (tail : Rows rows ls) : Rows rows (line :: ls)
  | row {row : List (List Char)} {rows : List (List (List Char))} {line : List Char}
      {ls : List (List Char)} (head : IsRow row line) (tail : Rows rows ls) :
      Rows (row :: rows) (line :: ls)

namespace Rows

variable {rows others : List (List (List Char))} {ls rest : List (List Char)}

theorem exists_split (h : Rows (rows ++ others) ls) :
    ∃ front back, ls = front ++ back ∧ Rows rows front ∧ Rows others back := by
  induction rows generalizing ls with
  | nil => exact ⟨[], ls, rfl, .nil, h⟩
  | cons row rows ih =>
    rw [List.cons_append] at h
    generalize hall : row :: (rows ++ others) = all at h
    induction h with
    | nil => cases hall
    | @note _ line _ head _ ih' =>
      obtain ⟨front, back, rfl, hfront, hback⟩ := ih' hall
      exact ⟨line :: front, back, rfl, .note head hfront, hback⟩
    | @row _ _ line _ head tail _ =>
      obtain ⟨rfl, rfl⟩ := List.cons.inj hall
      obtain ⟨front, back, rfl, hfront, hback⟩ := ih tail
      exact ⟨line :: front, back, rfl, .row head hfront, hback⟩

theorem oneLine (h : Rows rows ls) : ∀ line ∈ ls, '\n' ∉ line := by
  induction h with
  | nil => exact List.forall_mem_nil _
  | note head _ ih | row head _ ih =>
    obtain ⟨_, _, _, _, _, hfeed⟩ := head
    exact List.forall_mem_cons.mpr ⟨hfeed, ih⟩

end Rows

/-! ## Plain layouts -/

theorem Spaced.intercalate {front : List Char} (hfront : ∀ c ∈ front, isBlank c)
    (word : List Char) (row : List (List Char)) :
    Spaced (word :: row) (front ++ [' '].intercalate (word :: row)) := by
  induction row generalizing front word with
  | nil =>
    have hone : Spaced [word] (front ++ (word ++ [])) :=
      .cons hfront (.nil (List.forall_mem_nil _)) fun _ => by simp
    rw [List.append_nil] at hone
    rwa [List.intercalate_singleton]
  | cons next row ih =>
    rw [List.intercalate_cons_cons, List.append_assoc word]
    refine .cons hfront (ih (List.forall_mem_singleton.mpr rfl) next) fun _ c hc => ?_
    obtain rfl := Option.some.inj hc
    decide

theorem isRow_plain (hne : row ≠ []) (hrow : ∀ word ∈ row, IsRowWord word) :
    IsRow row ([' '].intercalate row) := by
  obtain ⟨word, row, rfl⟩ := List.exists_cons_of_ne_nil hne
  have hfeed : ∀ c ∈ [' '].intercalate (word :: row), c ≠ '\n' := by
    refine forall_mem_intercalate (List.forall_mem_singleton.mpr (by decide))
      fun part hpart c hc he => ?_
    have hsolid := (hrow part hpart).solid c hc
    rw [he] at hsolid
    exact absurd hsolid (by decide)
  have hspaced : Spaced (word :: row) ([] ++ [' '].intercalate (word :: row)) :=
    .intercalate (List.forall_mem_nil _) word row
  exact ⟨_, [], hspaced, .inl rfl, by simp, fun hmem => hfeed _ hmem rfl⟩

theorem rows_plain {rows : List (List (List Char))}
    (h : ∀ row ∈ rows, row ≠ [] ∧ ∀ word ∈ row, IsRowWord word) :
    Rows rows (rows.map [' '].intercalate) := by
  induction rows with
  | nil => exact .nil
  | cons row rows ih =>
    obtain ⟨hrow, hrows⟩ := List.forall_mem_cons.mp h
    exact .row (isRow_plain hrow.1 hrow.2) (ih hrows)

end GoCalls
