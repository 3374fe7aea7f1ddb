import GoCalls.Proofs.ConstraintGrammar

/-!
# Texts of constraints

A text is cut into tokens from the left. A symbol ends where it ends, a tag where no character of a
tag follows. So a text that is put together like an expression has the tokens of the expression, and
is read as one.

* `isTagChar_of_isBlank`: no white space is part of a tag.
* `Spells`: a text has certain tokens, before whatever cannot go on a tag.
* `Means`: a text is read as an expression of a layer, with a value. There is one rule for each form
  of an expression, and `Means.joined` for any number of operands of one operator.
* **`Means.parse`**: the constraint of such a text has this value.
-/

namespace GoCalls.Constraint

open Text

/-! ## Characters of tags -/

/-- The white space above ASCII. -/
def blankRanges : List (Nat × Nat) :=
  [(0x85, 0x85), (0xA0, 0xA0), (0x1680, 0x1680), (0x2000, 0x200A), (0x2028, 0x2029),
    (0x202F, 0x202F), (0x205F, 0x205F), (0x3000, 0x3000)]

theorem alphanumericTable_apart :
    alphanumericTable.toList.all (fun range => blankRanges.all fun blank =>
      Nat.blt range.2 blank.1 || Nat.blt blank.2 range.1) = true := by
  decide +kernel

variable {c : Char}

theorem exists_blankRange (h : isBlank c) (hc : 128 ≤ c.toNat) :
    ∃ blank ∈ blankRanges, blank.1 ≤ c.toNat ∧ c.toNat ≤ blank.2 := by
  simp only [isBlank, Bool.or_eq_true, Bool.and_eq_true, decide_eq_true_eq, beq_iff_eq] at h
  simp only [blankRanges, List.mem_cons, List.not_mem_nil, or_false, exists_eq_or_imp,
    exists_eq_left]
  omega

theorem isAlphanumeric_of_isBlank (h : isBlank c) : isAlphanumeric c = false := by
  unfold isAlphanumeric
  split_ifs with hc
  · have hcode : c.toNat ∈ [9, 10, 11, 12, 13, 32] := by
      simp only [isBlank, Bool.or_eq_true, Bool.and_eq_true, decide_eq_true_eq, beq_iff_eq] at h
      simp only [List.mem_cons, List.not_mem_nil, or_false]
      omega
    have hcodes : ∀ n ∈ [9, 10, 11, 12, 13, 32], (Char.ofNat n).isAlphanum = false := by decide
    rw [← Char.ofNat_toNat c]
    exact hcodes _ hcode
  · obtain ⟨blank, hblank, hlow, hhigh⟩ := exists_blankRange h (Nat.le_of_not_lt hc)
    unfold Ranges.contains
    rw [← Array.any_toList, List.any_eq_false]
    intro range hrange
    have hapart :=
      List.all_eq_true.mp (List.all_eq_true.mp alphanumericTable_apart range hrange) blank hblank
    simp only [Bool.or_eq_true, Nat.blt_eq] at hapart
    simp only [Bool.and_eq_true, decide_eq_true_eq, not_and, Nat.not_le]
    omega

theorem isTagChar_of_isBlank (h : isBlank c) : isTagChar c = false := by
  have hmark : c ≠ '_' ∧ c ≠ '.' := by
    constructor
    · rintro rfl
      exact absurd h (by decide)
    · rintro rfl
      exact absurd h (by decide)
  simp [isTagChar, isAlphanumeric_of_isBlank h, hmark]

/-! ## Tokens -/

variable {s s' word rest read : List Char} {ts ts' : List Token}

theorem isTag_iff : isTag word ↔ word ≠ [] ∧ ∀ c ∈ word, isTagChar c := by
  simp [isTag]

/-- A text does not go on with a character of a tag. -/
def EndsTag (rest : List Char) : Prop := ∀ c ∈ rest.head?, isTagChar c = false

theorem endsTag_nil : EndsTag [] := by
  simp [EndsTag]

theorem endsTag_cons (hc : isTagChar c = false) : EndsTag (c :: rest) := by
  simp [EndsTag, hc]

/-- The characters that symbols start with. -/
def symbolChars : List Char := ['!', '(', ')', '&', '|']

theorem notMem_symbolChars {p : Char → Bool} (hp : symbolChars.any p = false) (hc : p c) :
    c ∉ symbolChars := fun hmem => List.any_eq_false.mp hp c hmem hc

theorem tokensFrom_of_notMem (h : c ∉ symbolChars) :
    tokensFrom read (c :: s) =
      if isTagChar c then tokensFrom (c :: read) s
      else if isBlank c then (tokens s).map (closeTag read) else .error (.invalidChar c) := by
  simp only [symbolChars, List.mem_cons, List.not_mem_nil, or_false, not_or] at h
  obtain ⟨hnot, hleft, hright, hand, hor⟩ := h
  exact tokensFrom.eq_7 read c s hnot hleft hright (fun _ he => absurd he hand)
    fun _ he => absurd he hor

theorem tokensFrom_tagChar (hc : isTagChar c) :
    tokensFrom read (c :: s) = tokensFrom (c :: read) s := by
  rw [tokensFrom_of_notMem (notMem_symbolChars rfl hc), if_pos hc]

theorem tokensFrom_word (hw : ∀ c ∈ word, isTagChar c) :
    tokensFrom read (word ++ rest) = tokensFrom (word.reverse ++ read) rest := by
  induction word generalizing read with
  | nil => rfl
  | cons c word ih =>
    obtain ⟨hc, hw⟩ := List.forall_mem_cons.mp hw
    rw [List.cons_append, tokensFrom_tagChar hc, ih hw]
    simp

theorem map_map {ε α β γ : Type} (m : Except ε α) (f : α → β) (g : β → γ) :
    (m.map f).map g = m.map fun a => g (f a) := by
  cases m <;> rfl

theorem tokensFrom_of_endsTag (h : EndsTag rest) :
    tokensFrom read rest = (tokens rest).map (closeTag read) := by
  unfold tokens
  fun_cases tokensFrom read rest with
  | case1 => rfl
  | case2 s | case3 s | case4 s | case5 s | case6 s => exact (map_map _ _ _).symm
  | case7 c s _ _ _ _ _ htag => exact absurd htag (by simp [h c rfl])
  | case8 c s hnot hleft hright hand hor htag hblank =>
    rw [tokensFrom.eq_7 [] c s hnot hleft hright hand hor, if_neg htag, if_pos hblank]
    exact (map_map _ _ _).symm
  | case9 c s hnot hleft hright hand hor htag hblank =>
    rw [tokensFrom.eq_7 [] c s hnot hleft hright hand hor, if_neg htag, if_neg hblank]
    rfl

theorem tokens_tag (hw : isTag word) (h : EndsTag rest) :
    tokens (word ++ rest) = (tokens rest).map (.tag (String.ofList word) :: ·) := by
  obtain ⟨hne, hchars⟩ := isTag_iff.mp hw
  have hempty : word.reverse.isEmpty = false := by simpa using hne
  rw [tokens, tokensFrom_word hchars, List.append_nil, tokensFrom_of_endsTag h]
  congr 1
  funext ts
  rw [closeTag, hempty, List.reverse_reverse]
  rfl

theorem tokens_blank (hc : isBlank c) (s : List Char) : tokens (c :: s) = tokens s := by
  rw [tokens, tokensFrom_of_notMem (notMem_symbolChars rfl hc),
    if_neg (by simp [isTagChar_of_isBlank hc]), if_pos hc]
  cases tokens s <;> rfl

theorem parse_blank (s : List Char) : parse (' ' :: s) = parse s := by
  rw [parse, parse, tokens_blank (by decide)]

/-! ## Texts with certain tokens -/

/-- A text has certain tokens, before whatever does not go on a tag. -/
def Spells (s : List Char) (ts : List Token) : Prop :=
  ∀ rest, EndsTag rest → tokens (s ++ rest) = (tokens rest).map (ts ++ ·)

/-- An operator between two operands, with a blank on both sides. -/
def Connective.between (c : Connective) : List Char := ' ' :: (c.token.text.toList ++ [' '])

theorem Connective.tokens_between (c : Connective) (s : List Char) :
    tokens (c.between ++ s) = (tokens s).map (c.token :: ·) := by
  have hsymbol : tokens (c.token.text.toList ++ ' ' :: s) =
      (tokens (' ' :: s)).map (c.token :: ·) := by
    cases c <;> rfl
  have hblank : isBlank ' ' := by decide
  rw [between, List.cons_append, tokens_blank hblank, List.append_assoc, List.singleton_append,
    hsymbol, tokens_blank hblank]

namespace Spells

theorem tokens_eq (h : Spells s ts) : tokens s = .ok ts := by
  have hend := h [] endsTag_nil
  rw [List.append_nil] at hend
  rw [hend]
  exact congrArg Except.ok (List.append_nil ts)

theorem tag (hw : isTag word) : Spells word [.tag (String.ofList word)] :=
  fun _ hrest => tokens_tag hw hrest

theorem not (h : Spells s ts) : Spells ('!' :: s) (.not :: ts) := by
  intro rest hrest
  change (tokens (s ++ rest)).map (.not :: ·) = _
  rw [h rest hrest, map_map]
  rfl

theorem paren (h : Spells s ts) :
    Spells ('(' :: (s ++ [')'])) (.leftParen :: (ts ++ [.rightParen])) := by
  intro rest hrest
  change (tokens (s ++ [')'] ++ rest)).map (.leftParen :: ·) = _
  have hclose : tokens (')' :: rest) = (tokens rest).map (.rightParen :: ·) := rfl
  rw [List.append_assoc, List.singleton_append, h _ (endsTag_cons (by decide)), hclose, map_map,
    map_map]
  simp

theorem join (c : Connective) (h : Spells s ts) (h' : Spells s' ts') :
    Spells (s ++ c.between ++ s') (ts ++ c.token :: ts') := by
  intro rest hrest
  have hend : EndsTag (c.between ++ (s' ++ rest)) := endsTag_cons (by decide)
  rw [List.append_assoc, List.append_assoc, h _ hend, c.tokens_between, h' rest hrest, map_map,
    map_map]
  simp

end Spells

/-! ## Texts with a value -/

/-- A text is read as an expression of a layer with a value, at all depths from `n` on. -/
def Means (holds : String → Bool) (n : Nat) (l : Layer) (s : List Char) (v : Bool) : Prop :=
  ∃ ts, Spells s ts ∧ ReadsFrom holds n l ts v

/-- The value of any number of operands. -/
def Connective.fold : Connective → List Bool → Bool
  | .or => (·.any id)
  | .and => (·.all id)

theorem Connective.value_fold_cons (c : Connective) (v w : Bool) (vs : List Bool) :
    c.value v (c.fold (w :: vs)) = c.value (c.value v w) (c.fold vs) := by
  cases c with
  | or => exact (Bool.or_assoc v w _).symm
  | and => exact (Bool.and_assoc v w _).symm

theorem Connective.value_fold_nil (c : Connective) (v : Bool) : c.value v (c.fold []) = v := by
  cases c with
  | or => exact Bool.or_false v
  | and => exact Bool.and_true v

theorem Connective.fold_cons (c : Connective) (v : Bool) (vs : List Bool) :
    c.fold (v :: vs) = c.value v (c.fold vs) := by
  cases c <;> rfl

theorem Connective.fold_or {α : Type} (value : α → Bool) (as : List α) :
    Connective.or.fold (as.map value) = as.any value := by
  simp [Connective.fold]

theorem Connective.fold_and {α : Type} (value : α → Bool) (as : List α) :
    Connective.and.fold (as.map value) = as.all value := by
  simp [Connective.fold]

theorem intercalate_eq_flatMap {α : Type} (sep part : List α) (parts : List (List α)) :
    sep.intercalate (part :: parts) = part ++ parts.flatMap (sep ++ ·) := by
  induction parts generalizing part with
  | nil => simp
  | cons next parts ih => rw [List.intercalate_cons_cons, ih, List.flatMap_cons]; simp

namespace Means

variable {holds : String → Bool} {n k : Nat} {l l' : Layer} {v w : Bool}

theorem mono (h : Means holds n l s v) (hn : n ≤ k) : Means holds k l s v := by
  obtain ⟨ts, hs, hts⟩ := h
  exact ⟨ts, hs, hts.mono hn⟩

theorem lower (h : Means holds n l s v) (hl : l'.level ≤ l.level) : Means holds n l' s v := by
  obtain ⟨ts, hs, hts⟩ := h
  exact ⟨ts, hs, hts.lower hl⟩

theorem tag (hw : isTag word) : Means holds 0 .not word (holds (String.ofList word)) :=
  ⟨_, .tag hw, .tag _⟩

theorem not (h : Means holds n .not s v) : Means holds (n + 1) .not ('!' :: s) !v := by
  obtain ⟨ts, hs, hts⟩ := h
  exact ⟨_, hs.not, hts.not⟩

theorem paren (h : Means holds n .or s v) : Means holds (n + 1) .not ('(' :: (s ++ [')'])) v := by
  obtain ⟨ts, hs, hts⟩ := h
  exact ⟨_, hs.paren, hts.paren⟩

theorem join (c : Connective) (h : Means holds (n + 1) c.layer s v)
    (h' : Means holds n c.inner s' w) :
    Means holds (n + 1) c.layer (s ++ c.between ++ s') (c.value v w) := by
  obtain ⟨ts, hs, hts⟩ := h
  obtain ⟨ts', hs', hts'⟩ := h'
  exact ⟨_, hs.join c hs', hts.join c hts'⟩

variable {α : Type} {text : α → List Char} {value : α → Bool}

/-- Operands are added to the right one by one. -/
theorem joinAll (c : Connective) (h : Means holds (n + 1) c.layer s v) (as : List α)
    (has : ∀ a ∈ as, Means holds n c.inner (text a) (value a)) :
    Means holds (n + 1) c.layer (s ++ as.flatMap fun a => c.between ++ text a)
      (c.value v (c.fold (as.map value))) := by
  induction as generalizing s v with
  | nil =>
    rw [List.flatMap_nil, List.append_nil, List.map_nil, c.value_fold_nil]
    exact h
  | cons a as ih =>
    obtain ⟨ha, has⟩ := List.forall_mem_cons.mp has
    rw [List.flatMap_cons, ← List.append_assoc, ← List.append_assoc, List.map_cons,
      c.value_fold_cons]
    exact ih (h.join c ha) has

/-- **Any number of operands** with one operator between them. -/
theorem joined (c : Connective) {as : List α} (hne : as ≠ [])
    (h : ∀ a ∈ as, Means holds n c.inner (text a) (value a)) :
    Means holds (n + 1) c.layer (c.between.intercalate (as.map text)) (c.fold (as.map value)) := by
  cases as with
  | nil => exact absurd rfl hne
  | cons a as =>
    obtain ⟨ha, has⟩ := List.forall_mem_cons.mp h
    have hfirst : Means holds (n + 1) c.layer (text a) (value a) :=
      (ha.mono (Nat.le_succ n)).lower (by simp)
    rw [List.map_cons, intercalate_eq_flatMap, List.flatMap_map, List.map_cons, c.fold_cons]
    exact hfirst.joinAll c as has

/-- **The constraint of a text** has the value of the text. -/
theorem parse (h : Means holds n .or s v) (hn : n < maxDepth) :
    (Constraint.parse s).map (eval holds) = .ok v := by
  obtain ⟨ts, hs, hts⟩ := h
  rw [Constraint.parse, hs.tokens_eq]
  exact (hts (maxDepth - 1) (Nat.le_sub_one_of_lt hn)).ofTokens

end Means

end GoCalls.Constraint
