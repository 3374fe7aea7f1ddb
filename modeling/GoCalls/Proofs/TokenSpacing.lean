import GoCalls.Proofs.ConstraintTexts

/-!
# Spacing of tokens

Tokens can be printed with any white space before, between and after them. Some is needed only
between two tags, which would be one tag otherwise. A text is cut into tokens from the left, and
this undoes printing. It fails where a character comes that is neither part of a tag nor white
space, and at which no symbol begins.

* `Prints`: the printings of some tokens.
* `Prints.spells`: a printing is cut into its tokens.
* `Begins`, `Stuck`: where a text can go on, and the character at which it cannot.
* `isCut_of_read`: every text is a printing up to its end, or up to such a character.
* **`tokens_undoes_printing`**: the texts with tokens are the printings, and all others are stuck.
-/

namespace GoCalls.Constraint

open Text

/-! ## Printings -/

/-- The token is a tag and not a symbol. -/
def Token.isWord : Token → Bool
  | .tag _ => true
  | _ => false

/-- The name of a tag is a word of characters of tags. -/
def Token.IsProper : Token → Prop
  | .tag name => Constraint.isTag name.toList
  | _ => True

/-- A text prints some tokens, with any white space around them and at least one blank between two
tags. -/
inductive Prints : List Token → List Char → Prop
  | nil {gap : List Char} (blank : ∀ c ∈ gap, isBlank c) : Prints [] gap
  | cons {gap s : List Char} {t : Token} {ts : List Token} (blank : ∀ c ∈ gap, isBlank c)
      (proper : t.IsProper) (tail : Prints ts s)
      (apart : t.isWord → ts.head?.any Token.isWord → s.head?.any isBlank) :
      Prints (t :: ts) (gap ++ (t.text.toList ++ s))

variable {c : Char} {s gap read rest : List Char} {t : Token} {ts : List Token}

/-! ## Printings are cut into their tokens -/

theorem tokens_gap (hgap : ∀ c ∈ gap, isBlank c) (s : List Char) :
    tokens (gap ++ s) = tokens s := by
  induction gap with
  | nil => rfl
  | cons c gap ih =>
    obtain ⟨hc, hgap⟩ := List.forall_mem_cons.mp hgap
    rw [List.cons_append, tokens_blank hc, ih hgap]

theorem tokens_symbol (ht : t.isWord = false) (s : List Char) :
    tokens (t.text.toList ++ s) = (tokens s).map (t :: ·) := by
  cases t with
  | tag name => cases ht
  | not | and | or | leftParen | rightParen => rfl

theorem endsTag_symbol (ht : t.isWord = false) (s : List Char) :
    EndsTag (t.text.toList ++ s) := by
  cases t with
  | tag name => cases ht
  | not | and | or | leftParen | rightParen => exact endsTag_cons (by decide)

theorem endsTag_gap (hgap : ∀ c ∈ gap, isBlank c) (h : EndsTag s) : EndsTag (gap ++ s) := by
  cases gap with
  | nil => exact h
  | cons c gap => exact endsTag_cons (isTagChar_of_isBlank (hgap c List.mem_cons_self))

namespace Prints

/-- Tokens after a tag do not go on with the tag. -/
theorem endsTag (h : Prints ts s) (hapart : ts.head?.any Token.isWord → s.head?.any isBlank)
    (hrest : EndsTag rest) : EndsTag (s ++ rest) := by
  cases h with
  | nil blank => exact endsTag_gap blank hrest
  | @cons gap s t ts blank _ _ _ =>
    cases ht : t.isWord with
    | false =>
      rw [List.append_assoc, List.append_assoc]
      exact endsTag_gap blank (endsTag_symbol ht _)
    | true =>
      -- Some white space comes before another tag.
      have hblank := hapart (by simpa using ht)
      cases hs : gap ++ (t.text.toList ++ s) with
      | nil =>
        rw [hs] at hblank
        cases hblank
      | cons c more =>
        rw [hs] at hblank
        exact endsTag_cons (isTagChar_of_isBlank hblank)

theorem spells (h : Prints ts s) : Spells s ts := by
  induction h with
  | nil blank =>
    intro rest _
    rw [tokens_gap blank]
    cases tokens rest <;> rfl
  | @cons gap s t ts blank proper tail apart ih =>
    intro rest hrest
    have hhead : tokens (t.text.toList ++ (s ++ rest)) = (tokens (s ++ rest)).map (t :: ·) := by
      cases ht : t.isWord with
      | false => exact tokens_symbol ht _
      | true =>
        obtain ⟨name, rfl⟩ : ∃ name, t = .tag name := by
          cases t with
          | tag name => exact ⟨name, rfl⟩
          | not | and | or | leftParen | rightParen => cases ht
        have htag := tokens_tag proper (tail.endsTag (apart rfl) hrest)
        rwa [String.ofList_toList] at htag
    rw [List.append_assoc, List.append_assoc, tokens_gap blank, hhead, ih rest hrest, map_map]
    rfl

end Prints

/-! ## What has been cut off -/

namespace Prints

theorem blankCons (hc : isBlank c) (h : Prints ts s) : Prints ts (c :: s) := by
  cases h with
  | nil blank => exact .nil (List.forall_mem_cons.mpr ⟨hc, blank⟩)
  | @cons gap s t ts blank proper tail apart =>
    exact @Prints.cons (c :: gap) s t ts (List.forall_mem_cons.mpr ⟨hc, blank⟩) proper tail apart

theorem symbol (ht : t.isWord = false) (h : Prints ts s) :
    Prints (t :: ts) (t.text.toList ++ s) := by
  have hproper : t.IsProper := by
    cases t with
    | tag name => cases ht
    | not | and | or | leftParen | rightParen => trivial
  exact .cons (List.forall_mem_nil _) hproper h fun hword => by simp [ht] at hword

theorem afterTag (hread : ∀ c ∈ read, isTagChar c) (h : Prints ts s)
    (hapart : ts.head?.any Token.isWord → s.head?.any isBlank) :
    Prints (closeTag read ts) (read.reverse ++ s) := by
  unfold closeTag
  split_ifs with hempty
  · rw [List.isEmpty_iff.mp hempty]
    exact h
  · have hproper : (Token.tag (String.ofList read.reverse)).IsProper := by
      change Constraint.isTag (String.ofList read.reverse).toList
      rw [String.toList_ofList, isTag_iff]
      exact ⟨by simpa using hempty, by simpa using hread⟩
    have hcons := Prints.cons (List.forall_mem_nil _) hproper h fun _ => hapart
    rwa [Token.text, String.toList_ofList] at hcons

theorem afterTag_symbol (hread : ∀ c ∈ read, isTagChar c) (ht : t.isWord = false)
    (h : Prints ts s) : Prints (closeTag read (t :: ts)) (read.reverse ++ (t.text.toList ++ s)) :=
  (h.symbol ht).afterTag hread (by simp [ht])

theorem afterTag_blank (hread : ∀ c ∈ read, isTagChar c) (hc : isBlank c) (h : Prints ts s) :
    Prints (closeTag read ts) (read.reverse ++ c :: s) :=
  (h.blankCons hc).afterTag hread fun _ => hc

end Prints

/-! ## Texts that cannot go on -/

/-- A text starts with a part of a constraint: a character of a tag, white space or a symbol. -/
def Begins (s : List Char) : Prop :=
  (∃ c ∈ s.head?, isTagChar c ∨ isBlank c) ∨ ∃ t : Token, t.isWord = false ∧ t.text.toList <+: s

/-- A text cannot go on at the character `c`, with which no token starts. -/
def Stuck (s : List Char) (c : Char) : Prop :=
  ∃ ts front rest, Prints ts front ∧ s = front ++ c :: rest ∧ ¬ Begins (c :: rest)

theorem tokens_of_not_begins (h : ¬ Begins (c :: rest)) :
    tokens (c :: rest) = .error (.invalidChar c) := by
  rw [Begins, not_or] at h
  obtain ⟨hchar, hsymbol⟩ := h
  have hne : ∀ {t : Token} {more : List Char}, t.isWord = false →
      c :: rest ≠ t.text.toList ++ more := fun ht he => hsymbol ⟨_, ht, _, he.symm⟩
  have htag : ¬ isTagChar c := fun hc => hchar ⟨c, rfl, .inl hc⟩
  have hblank : ¬ isBlank c := fun hc => hchar ⟨c, rfl, .inr hc⟩
  rw [tokens, tokensFrom, if_neg htag, if_neg hblank]
  · rintro rfl
    exact hne (t := .not) rfl rfl
  · rintro rfl
    exact hne (t := .leftParen) rfl rfl
  · rintro rfl
    exact hne (t := .rightParen) rfl rfl
  · rintro more rfl rfl
    exact hne (t := .and) rfl rfl
  · rintro more rfl rfl
    exact hne (t := .or) rfl rfl

theorem Stuck.tokens_eq (h : Stuck s c) : tokens s = .error (.invalidChar c) := by
  obtain ⟨ts, front, rest, hfront, rfl, hend⟩ := h
  have hc : isTagChar c = false := by
    by_contra hc
    exact hend (.inl ⟨c, rfl, .inl (by simpa using hc)⟩)
  rw [hfront.spells _ (endsTag_cons hc), tokens_of_not_begins hend]
  rfl

/-- A text is a printing up to its end, or up to where it cannot go on. -/
def IsCut (s : List Char) : Prop := (∃ ts, Prints ts s) ∨ ∃ c, Stuck s c

theorem IsCut.append {more : List Char}
    (hmore : ∀ {ts front}, Prints ts front → ∃ us, Prints us (more ++ front)) (h : IsCut s) :
    IsCut (more ++ s) := by
  rcases h with ⟨ts, hs⟩ | ⟨c, ts, front, rest, hfront, rfl, hend⟩
  · exact .inl (hmore hs)
  · obtain ⟨us, hus⟩ := hmore hfront
    exact .inr ⟨c, us, more ++ front, rest, hus, (List.append_assoc _ _ _).symm, hend⟩

theorem IsCut.afterTag_symbol (hread : ∀ c ∈ read, isTagChar c) (ht : t.isWord = false)
    (h : IsCut s) : IsCut (read.reverse ++ (t.text.toList ++ s)) := by
  rw [← List.append_assoc]
  refine h.append fun {ts front} hfront => ⟨closeTag read (t :: ts), ?_⟩
  rw [List.append_assoc]
  exact hfront.afterTag_symbol hread ht

theorem IsCut.afterTag_blank (hread : ∀ c ∈ read, isTagChar c) (hc : isBlank c) (h : IsCut s) :
    IsCut (read.reverse ++ c :: s) := by
  rw [List.append_cons]
  refine h.append fun {ts front} hfront => ⟨closeTag read ts, ?_⟩
  rw [← List.append_cons]
  exact hfront.afterTag_blank hread hc

/-- **Every text is cut into tokens** as far as it goes. -/
theorem isCut_of_read (hread : ∀ c ∈ read, isTagChar c) (s : List Char) :
    IsCut (read.reverse ++ s) := by
  have hnil : ∀ c ∈ ([] : List Char), isTagChar c := List.forall_mem_nil _
  fun_induction tokensFrom read s with
  | case1 read => exact .inl ⟨_, (Prints.nil (List.forall_mem_nil _)).afterTag hread (by simp)⟩
  | case2 read s ih => exact .afterTag_symbol (t := .not) hread rfl (ih hnil)
  | case3 read s ih => exact .afterTag_symbol (t := .leftParen) hread rfl (ih hnil)
  | case4 read s ih => exact .afterTag_symbol (t := .rightParen) hread rfl (ih hnil)
  | case5 read s ih => exact .afterTag_symbol (t := .and) hread rfl (ih hnil)
  | case6 read s ih => exact .afterTag_symbol (t := .or) hread rfl (ih hnil)
  | case7 read c s _ _ _ _ _ htag ih =>
    have hs := ih (List.forall_mem_cons.mpr ⟨htag, hread⟩)
    rwa [List.reverse_cons, List.append_assoc] at hs
  | case8 read c s _ _ _ _ _ _ hblank ih => exact .afterTag_blank hread hblank (ih hnil)
  | case9 read c s hnot hleft hright hand hor htag hblank =>
    have hfront : Prints (closeTag read []) (read.reverse ++ []) :=
      (Prints.nil (List.forall_mem_nil _)).afterTag hread (by simp)
    refine .inr ⟨c, _, _, s, hfront, by rw [List.append_nil], ?_⟩
    rintro (⟨d, hd, hchar⟩ | ⟨t, ht, more, hmore⟩)
    · obtain rfl := Option.some.inj hd
      exact hchar.elim htag hblank
    · cases t with
      | tag name => cases ht
      | not => exact hnot (List.cons.inj hmore).1.symm
      | leftParen => exact hleft (List.cons.inj hmore).1.symm
      | rightParen => exact hright (List.cons.inj hmore).1.symm
      | and => exact hand more (List.cons.inj hmore).1.symm (List.cons.inj hmore).2.symm
      | or => exact hor more (List.cons.inj hmore).1.symm (List.cons.inj hmore).2.symm

/-- **Cutting a text into tokens undoes printing**, however the tokens are spaced, and an error
names the first character that is no token. -/
theorem tokens_undoes_printing :
    (∀ ts s, tokens s = .ok ts ↔ Prints ts s) ∧
      ∀ e s, tokens s = .error e ↔ ∃ c, e = .invalidChar c ∧ Stuck s c := by
  have hcut : ∀ s, IsCut s := isCut_of_read (List.forall_mem_nil _)
  refine ⟨fun ts s => ⟨fun h => ?_, fun h => h.spells.tokens_eq⟩, fun e s => ⟨fun h => ?_, ?_⟩⟩
  · rcases hcut s with ⟨us, hs⟩ | ⟨c, hs⟩
    · obtain rfl : us = ts := Except.ok.inj (hs.spells.tokens_eq.symm.trans h)
      exact hs
    · cases hs.tokens_eq.symm.trans h
  · rcases hcut s with ⟨us, hs⟩ | ⟨c, hs⟩
    · cases hs.spells.tokens_eq.symm.trans h
    · exact ⟨c, Except.error.inj (h.symm.trans hs.tokens_eq), hs⟩
  · rintro ⟨c, rfl, hs⟩
    exact hs.tokens_eq

/-- No white space that is not needed, and an operator that is cut short. -/
theorem tokens_undoes_printing_dense :
    Prints [.not, .leftParen, .tag "a", .and, .tag "b", .rightParen, .or, .tag "c.1", .tag "d"]
        "!(a&&b)||c.1\td".toList ∧ Stuck "a &&& b".toList '&' := by
  obtain ⟨hprints, hstuck⟩ := tokens_undoes_printing
  obtain ⟨c, hc, hs⟩ := (hstuck (.invalidChar '&') "a &&& b".toList).mp (by decide +kernel)
  obtain rfl : '&' = c := Error.invalidChar.inj hc
  exact ⟨(hprints _ _).mp (by decide +kernel), hs⟩

end GoCalls.Constraint
