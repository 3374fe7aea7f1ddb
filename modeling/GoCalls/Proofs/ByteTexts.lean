import GoCalls.Proofs.ByteOrder

/-!
# Names that are texts

A name is a text when it is made of whole characters. Such a name is read as it is, and no other name
is the bytes of what it is read as. Marks of ASCII are read where they stand and nowhere else, so
what is read of a name without a slash has none.

* `Text.lossyFrom_encode`: a character is read from its bytes.
* **`Text.lossy_bytes`**: a text is read from its bytes.
* `Text.mem_of_mem_lossy`: a mark that is read stands in the bytes.
-/

namespace GoCalls.Text

/-! ## Characters -/

theorem toNat_ofNat_of_lt {n : Nat} (h : n < 256) : (UInt8.ofNat n).toNat = n := by
  rw [UInt8.toNat_ofNat', Nat.mod_eq_of_lt h]

theorem lossyFrom_none_cons (b : UInt8) (rest : List UInt8) : lossyFrom none (b :: rest) =
    (lossyLead b.toNat).1 ++ lossyFrom (lossyLead b.toNat).2 rest := rfl

theorem lossyFrom_some_cons (p : Partial) (b : UInt8) (rest : List UInt8) :
    lossyFrom (some p) (b :: rest) = (p.push b.toNat).1 ++ lossyFrom (p.push b.toNat).2 rest := rfl

section Steps

variable {b : Nat} {p : Partial} (rest : List UInt8)

theorem lossyFrom_ascii (h : b < 0x80) :
    lossyFrom none (UInt8.ofNat b :: rest) = Char.ofNat b :: lossyFrom none rest := by
  rw [lossyFrom_none_cons, toNat_ofNat_of_lt (by omega), lossyLead, if_pos h, List.singleton_append]

theorem lossyFrom_lead (hb : b < 256) (h : ¬ b < 0x80) (hp : Partial.ofLead? b = some p) :
    lossyFrom none (UInt8.ofNat b :: rest) = lossyFrom (some p) rest := by
  rw [lossyFrom_none_cons, toNat_ofNat_of_lt hb, lossyLead, if_neg h, hp, List.nil_append]

theorem lossyFrom_last (hb : b < 256) (h : p.low ≤ b ∧ b ≤ p.high) (hp : p.missing = 1) :
    lossyFrom (some p) (UInt8.ofNat b :: rest) =
      Char.ofNat (64 * p.value + (b - 0x80)) :: lossyFrom none rest := by
  rw [lossyFrom_some_cons, toNat_ofNat_of_lt hb, Partial.push, if_pos h, if_pos hp,
    List.singleton_append]

theorem lossyFrom_more (hb : b < 256) (h : p.low ≤ b ∧ b ≤ p.high) (hp : p.missing ≠ 1) :
    lossyFrom (some p) (UInt8.ofNat b :: rest) =
      lossyFrom (some { value := 64 * p.value + (b - 0x80), missing := p.missing - 1 }) rest := by
  rw [lossyFrom_some_cons, toNat_ofNat_of_lt hb, Partial.push, if_pos h, if_neg hp, List.nil_append]

end Steps

theorem ofLead?_two {b : Nat} (h : 0xC2 ≤ b ∧ b ≤ 0xDF) :
    Partial.ofLead? b = some { value := b - 0xC0, missing := 1 } := by
  rw [Partial.ofLead?, if_pos h]

theorem ofLead?_three {b : Nat} (h : 0xE0 ≤ b ∧ b ≤ 0xEF) :
    Partial.ofLead? b = some { value := b - 0xE0, missing := 2,
                               low := if b = 0xE0 then 0xA0 else 0x80,
                               high := if b = 0xED then 0x9F else 0xBF } := by
  unfold Partial.ofLead?
  split_ifs <;> first | omega | simp_all

theorem ofLead?_four {b : Nat} (h : 0xF0 ≤ b ∧ b ≤ 0xF4) :
    Partial.ofLead? b = some { value := b - 0xF0, missing := 3,
                               low := if b = 0xF0 then 0x90 else 0x80,
                               high := if b = 0xF4 then 0x8F else 0xBF } := by
  unfold Partial.ofLead?
  split_ifs <;> first | omega | simp_all

/-- **A character is read** from its bytes. -/
theorem lossyFrom_encode (c : Char) (rest : List UInt8) :
    lossyFrom none (String.utf8EncodeChar c ++ rest) = c :: lossyFrom none rest := by
  have hvalid : c.val.toNat < 0xD800 ∨ 0xDFFF < c.val.toNat ∧ c.val.toNat < 0x110000 := c.valid
  have hc : Char.ofNat c.val.toNat = c := Char.ofNat_toNat c
  unfold String.utf8EncodeChar
  dsimp only
  generalize c.val.toNat = n at hvalid hc
  subst hc
  -- The ranges of the second byte are where surrogates and long forms are kept out.
  split_ifs with h1 h2 h3 <;> simp only [List.cons_append, List.nil_append]
  · exact lossyFrom_ascii rest (by omega)
  · rw [lossyFrom_lead _ (by omega) (by omega) (ofLead?_two (by omega)),
      lossyFrom_last _ (by omega) (by dsimp only; omega) rfl]
    have hvalue : 64 * (n / 64 % 32 + 0xC0 - 0xC0) + (n % 64 + 0x80 - 0x80) = n := by omega
    rw [hvalue]
  · rw [lossyFrom_lead _ (by omega) (by omega) (ofLead?_three (by omega)),
      lossyFrom_more _ (by omega) (by dsimp only; split_ifs <;> omega) (by simp),
      lossyFrom_last _ (by omega) (by dsimp only; omega) rfl]
    have hvalue : 64 * (64 * (n / 4096 % 16 + 0xE0 - 0xE0) + (n / 64 % 64 + 0x80 - 0x80)) +
        (n % 64 + 0x80 - 0x80) = n := by omega
    rw [hvalue]
  · rw [lossyFrom_lead _ (by omega) (by omega) (ofLead?_four (by omega)),
      lossyFrom_more _ (by omega) (by dsimp only; split_ifs <;> omega) (by simp),
      lossyFrom_more _ (by omega) (by dsimp only; omega) (by simp),
      lossyFrom_last _ (by omega) (by dsimp only; omega) rfl]
    have hvalue : 64 * (64 * (64 * (n / 262144 % 8 + 0xF0 - 0xF0) + (n / 4096 % 64 + 0x80 - 0x80)) +
        (n / 64 % 64 + 0x80 - 0x80)) + (n % 64 + 0x80 - 0x80) = n := by omega
    rw [hvalue]

/-! ## Texts -/

theorem lossyFrom_flatMap (cs : List Char) :
    lossyFrom none (cs.flatMap String.utf8EncodeChar) = cs := by
  induction cs with
  | nil => rfl
  | cons c cs ih => rw [List.flatMap_cons, lossyFrom_encode, ih]

/-- **A text is read** from its bytes. -/
@[simp] theorem lossy_bytes (s : String) : lossy (bytes s) = s := by
  rw [lossy, bytes_eq_flatMap, lossyFrom_flatMap, String.ofList_toList]

theorem bytes_injective : Function.Injective bytes := Function.LeftInverse.injective lossy_bytes

/-- The bytes are those of a text. -/
def IsText (name : OsString) : Prop := ∃ s, bytes s = name

theorem isText_iff {name : OsString} : IsText name ↔ bytes (lossy name) = name := by
  refine ⟨?_, fun h => ⟨_, h⟩⟩
  rintro ⟨s, rfl⟩
  rw [lossy_bytes]

/-- A byte of ASCII is no part of a longer form. -/
theorem code_of_mem_encode {b : UInt8} (hb : b.toNat < 0x80) {c : Char}
    (h : b ∈ String.utf8EncodeChar c) : c.toNat = b.toNat := by
  have hhigh : ∀ n, 0x80 ≤ n → n < 256 → b ≠ UInt8.ofNat n := by
    rintro n hle hlt rfl
    rw [toNat_ofNat_of_lt hlt] at hb
    omega
  unfold String.utf8EncodeChar at h
  dsimp only at h
  split_ifs at h with h1
  · rw [List.mem_singleton.mp h, toNat_ofNat_of_lt (Nat.lt_of_le_of_lt h1 (by decide))]
    rfl
  all_goals
    simp only [List.mem_cons, List.not_mem_nil, or_false] at h
    exact absurd h (by simp (disch := omega) only [hhigh, or_self, not_false_eq_true])

theorem slash_of_mem_encode {c : Char} (h : 0x2F ∈ String.utf8EncodeChar c) : c = '/' :=
  Char.toNat_inj.mp (code_of_mem_encode (by decide) h)

/-- A slash among the bytes is a slash of the text. -/
theorem slash_of_mem_bytes {s : String} (h : 0x2F ∈ bytes s) : '/' ∈ s.toList := by
  rw [bytes_eq_flatMap] at h
  obtain ⟨c, hc, hmem⟩ := List.mem_flatMap.mp h
  exact slash_of_mem_encode hmem ▸ hc

theorem slash_of_head_bytes {s : String} (h : (bytes s).head? = some 0x2F) :
    s.toList.head? = some '/' := by
  rw [bytes_eq_flatMap] at h
  cases hs : s.toList with
  | nil => simp [hs] at h
  | cons c cs =>
    rw [hs, List.flatMap_cons, List.head?_append_of_ne_nil _ (encode_ne_nil c)] at h
    rw [List.head?_cons, slash_of_mem_encode (List.mem_of_head? h)]

theorem bytes_append (a b : String) : bytes (a ++ b) = bytes a ++ bytes b := by
  rw [bytes_eq_flatMap, bytes_eq_flatMap, bytes_eq_flatMap, String.toList_append,
    List.flatMap_append]

/-! ## Marks -/

/-- A character of ASCII other than the null character. -/
structure IsMark (c : Char) : Prop where
  low : c.toNat < 0x80
  ne_null : c ≠ '\x00'

section Marks

variable {c : Char} (hc : IsMark c)

include hc

theorem IsMark.of_ofNat {n : Nat} (h : c = Char.ofNat n) : c.toNat = n := by
  by_cases hvalid : n.isValidChar
  · have hn : Char.ofNat n = Char.ofNatAux n hvalid := dif_pos hvalid
    exact congrArg Char.toNat (h.trans hn)
  · exact absurd (h.trans (dif_neg hvalid)) hc.ne_null

theorem IsMark.ne_replacement : c ≠ replacement := by
  rintro rfl
  exact absurd hc.low (by decide)

end Marks

/-- The least character with the given start. -/
def Partial.least (p : Partial) : Nat := (64 * p.value + (p.low - 0x80)) * 64 ^ (p.missing - 1)

theorem le_least_of_ofLead? {b : Nat} {p : Partial} (h : Partial.ofLead? b = some p) :
    0x80 ≤ p.least := by
  unfold Partial.ofLead? at h
  split_ifs at h <;> obtain rfl := Option.some.inj h <;> simp only [Partial.least] <;> omega

theorem lossyLead_spec {b : Nat} :
    (∀ c, IsMark c → c ∈ (lossyLead b).1 → c.toNat = b) ∧
      ∀ p ∈ (lossyLead b).2, 0x80 ≤ p.least := by
  unfold lossyLead
  split_ifs with hb
  · exact ⟨fun c hc hmem => hc.of_ofNat (List.mem_singleton.mp hmem), nofun⟩
  · split
    · next p hp => exact ⟨nofun, fun q hq => le_least_of_ofLead? (hp.trans hq)⟩
    · exact ⟨fun c hc hmem => absurd (List.mem_singleton.mp hmem) hc.ne_replacement, nofun⟩

theorem Partial.least_le {p : Partial} {b : Nat} (h : p.low ≤ b) :
    p.least ≤ (64 * p.value + (b - 0x80)) * 64 ^ (p.missing - 1) :=
  Nat.mul_le_mul_right _ (by omega)

theorem push_spec {p : Partial} (hp : 0x80 ≤ p.least) {b : Nat} :
    (∀ c, IsMark c → c ∈ (p.push b).1 → c.toNat = b ∧ (p.push b).1.head? ≠ some c) ∧
      ((p.push b).1 = [] → (p.push b).2.isSome) ∧ ∀ q ∈ (p.push b).2, 0x80 ≤ q.least := by
  unfold Partial.push
  split_ifs with hrange hlast
  · have hle := hp.trans (Partial.least_le hrange.1)
    rw [hlast, Nat.sub_self, Nat.pow_zero, Nat.mul_one] at hle
    refine ⟨fun c hc hmem => ?_, nofun, nofun⟩
    have hlow := hc.low
    rw [hc.of_ofNat (List.mem_singleton.mp hmem)] at hlow
    omega
  · refine ⟨nofun, fun _ => rfl, fun q hq => hp.trans ((Partial.least_le hrange.1).trans ?_)⟩
    obtain rfl := Option.mem_some_iff.mp hq
    have hpow : 64 ^ (p.missing - 1) ≤ 64 * 64 ^ (p.missing - 1 - 1) := by
      rw [← Nat.pow_succ']
      exact Nat.pow_le_pow_right (by decide) (by omega)
    simp only [Partial.least, Nat.sub_self, Nat.add_zero]
    generalize 64 * p.value + (b - 0x80) = value
    calc value * 64 ^ (p.missing - 1) ≤ value * (64 * 64 ^ (p.missing - 1 - 1)) :=
          Nat.mul_le_mul_left value hpow
      _ = 64 * value * 64 ^ (p.missing - 1 - 1) := by rw [← Nat.mul_assoc, Nat.mul_comm value]
  · obtain ⟨hmem, hleast⟩ := @lossyLead_spec b
    refine ⟨fun c hc h => ⟨hmem c hc ?_, ?_⟩, nofun, hleast⟩
    · exact (List.mem_cons.mp h).resolve_left hc.ne_replacement
    · exact fun heq => hc.ne_replacement (Option.some.inj heq).symm

theorem head_lossyFrom_some {c : Char} (hc : IsMark c) {p : Partial} (hp : 0x80 ≤ p.least)
    (bytes : List UInt8) : (lossyFrom (some p) bytes).head? ≠ some c := by
  induction bytes generalizing p with
  | nil => exact fun h => hc.ne_replacement (Option.some.inj h).symm
  | cons b rest ih =>
    obtain ⟨hmem, hsome, hleast⟩ := @push_spec p hp b.toNat
    rw [lossyFrom_some_cons]
    cases hfound : (p.push b.toNat).1 with
    | nil =>
      obtain ⟨q, hq⟩ := Option.isSome_iff_exists.mp (hsome hfound)
      rw [hq, List.nil_append]
      exact ih (hleast q hq)
    | cons d found =>
      intro h
      have hd : d = c := Option.some.inj h
      rw [hfound, hd] at hmem
      exact (hmem c hc List.mem_cons_self).2 rfl

theorem mem_of_mem_lossyFrom {c : Char} (hc : IsMark c) {start : Option Partial}
    (hstart : ∀ p ∈ start, 0x80 ≤ p.least) {bytes : List UInt8} (h : c ∈ lossyFrom start bytes) :
    UInt8.ofNat c.toNat ∈ bytes := by
  induction bytes generalizing start with
  | nil =>
    cases start with
    | none => cases h
    | some p => exact absurd (List.mem_singleton.mp h) hc.ne_replacement
  | cons b rest ih =>
    have hstep : ∀ found next, (∀ d, IsMark d → d ∈ found → d.toNat = b.toNat) →
        (∀ p ∈ next, 0x80 ≤ p.least) → c ∈ found ++ lossyFrom next rest →
        UInt8.ofNat c.toNat ∈ b :: rest := by
      intro found next hfound hnext hmem
      rcases List.mem_append.mp hmem with hmem | hmem
      · rw [hfound c hc hmem, UInt8.ofNat_toNat]
        exact List.mem_cons_self
      · exact List.mem_cons_of_mem _ (ih hnext hmem)
    cases start with
    | none => exact hstep _ _ lossyLead_spec.1 lossyLead_spec.2 h
    | some p =>
      obtain ⟨hmem, -, hleast⟩ := @push_spec p (hstart p rfl) b.toNat
      exact hstep _ _ (fun d hd hfound => (hmem d hd hfound).1) hleast h

/-- **A mark that is read** stands in the bytes. -/
theorem mem_of_mem_lossy {c : Char} (hc : IsMark c) {bytes : List UInt8}
    (h : c ∈ (lossy bytes).toList) : UInt8.ofNat c.toNat ∈ bytes := by
  rw [lossy, String.toList_ofList] at h
  exact mem_of_mem_lossyFrom hc (by simp) h

theorem lossyFrom_some_ne_nil {p : Partial} (hp : 0x80 ≤ p.least) (bytes : List UInt8) :
    lossyFrom (some p) bytes ≠ [] := by
  induction bytes generalizing p with
  | nil => exact List.cons_ne_nil _ _
  | cons b rest ih =>
    obtain ⟨-, hsome, hleast⟩ := @push_spec p hp b.toNat
    rw [lossyFrom_some_cons]
    intro h
    obtain ⟨hfound, hrest⟩ := List.append_eq_nil_iff.mp h
    obtain ⟨q, hq⟩ := Option.isSome_iff_exists.mp (hsome hfound)
    rw [hq] at hrest
    exact ih (hleast q hq) hrest

/-- The first byte stands alone or begins a character. -/
theorem lossyFrom_cons_cases (b : UInt8) (rest : List UInt8) :
    (∃ c, lossyFrom none (b :: rest) = c :: lossyFrom none rest ∧
        (IsMark c → c.toNat = b.toNat)) ∨
      ∃ p : Partial, 0x80 ≤ p.least ∧ lossyFrom none (b :: rest) = lossyFrom (some p) rest := by
  obtain ⟨hmem, hleast⟩ := @lossyLead_spec b.toNat
  rw [lossyFrom_none_cons]
  revert hmem hleast
  unfold lossyLead
  split_ifs
  · exact fun hmem _ => .inl ⟨_, rfl, fun hc => hmem _ hc List.mem_cons_self⟩
  · split
    · next p hp => exact fun _ hleast => .inr ⟨p, hleast p rfl, rfl⟩
    · exact fun hmem _ => .inl ⟨_, rfl, fun hc => hmem _ hc List.mem_cons_self⟩

theorem lossyFrom_none_eq_nil_iff {bytes : List UInt8} :
    lossyFrom none bytes = [] ↔ bytes = [] := by
  refine ⟨fun h => ?_, fun h => h ▸ rfl⟩
  cases bytes with
  | nil => rfl
  | cons b rest =>
    obtain ⟨c, hread, -⟩ | ⟨p, hp, hread⟩ := lossyFrom_cons_cases b rest
    · exact absurd (hread ▸ h) (List.cons_ne_nil _ _)
    · exact absurd (hread ▸ h) (lossyFrom_some_ne_nil hp rest)

theorem lossyFrom_none_eq_mark_iff {c : Char} (hc : IsMark c) {bytes : List UInt8} :
    lossyFrom none bytes = [c] ↔ bytes = [UInt8.ofNat c.toNat] := by
  constructor
  · intro h
    cases bytes with
    | nil => cases h
    | cons b rest =>
      obtain ⟨d, hread, hd⟩ | ⟨p, hp, hread⟩ := lossyFrom_cons_cases b rest
      · obtain ⟨rfl, hrest⟩ := List.cons.inj (hread.symm.trans h)
        rw [lossyFrom_none_eq_nil_iff.mp hrest, hd hc, UInt8.ofNat_toNat]
      · exact absurd (congrArg List.head? (hread.symm.trans h)) (head_lossyFrom_some hc hp rest)
  · rintro rfl
    rw [lossyFrom_ascii [] hc.low, Char.ofNat_toNat]
    rfl

end GoCalls.Text
