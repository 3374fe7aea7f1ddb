import GoCalls.Text.Blank
import Mathlib.Order.Basic

/-!
# Readers of texts

A `Reader` takes a value off the front of a text. It is told by what it does in front of any rest, so
that the readers of the parts of a text can be put together.

* `Reader.text`, `Reader.itemsUpTo`: a given text, and all items up to a given text.
* `ReadsBefore`, `Reads`: a reader takes a text for a value.
* **`ReadsEach.itemsUpTo`**: items are read up to the end if each is read, and none begins like the
  end.
-/

namespace GoCalls

theorem Text.after?_eq_some {start s rest : List Char} :
    Text.after? start s = some rest ↔ s = start ++ rest := by
  fun_induction Text.after? start s with
  | case1 s => simp [eq_comm]
  | case2 c start => simp
  | case3 c start s ih => simp [ih]
  | case4 c start d s hne => simp [Ne.symm hne]

theorem Text.after?_cons_of_ne {c d : Char} (h : c ≠ d) (start s : List Char) :
    Text.after? (c :: start) (d :: s) = none := by
  rw [Text.after?, if_neg h]

/-- A reader takes a value off the front of a text, or fails. -/
abbrev Reader (α : Type) := StateT (List Char) Option α

namespace Reader

variable {α : Type}

/-- The given text. -/
def text (t : List Char) : Reader Unit := fun s => (Text.after? t s).map ((), ·)

/-- Items up to the text `stop`, if there are fewer than `fuel` of them. -/
def upTo (stop : List Char) (item : Reader α) : (fuel : Nat) → Reader (List α)
  | 0 => fun _ => none
  | fuel + 1 => fun s =>
    match Text.after? stop s with
    | some rest => some ([], rest)
    | none => (do
      let a ← item
      return a :: (← upTo stop item fuel)) s

/-- Items up to the text `stop`. There are at most as many as there are characters. -/
def itemsUpTo (stop : List Char) (item : Reader α) : Reader (List α) :=
  fun s => upTo stop item (s.length + 1) s

/-- The value of a whole text. -/
def whole? (r : Reader α) (s : String) : Option α :=
  match r s.toList with
  | some (a, []) => some a
  | _ => none

end Reader

/-- In front of a rest that satisfies `P`, a reader takes the text `t` for the value `a`. -/
def ReadsBefore {α : Type} (P : List Char → Prop) (r : Reader α) (t : List Char) (a : α) : Prop :=
  ∀ rest, P rest → r (t ++ rest) = some (a, rest)

/-- A reader takes the text `t` for the value `a`, whatever follows. -/
abbrev Reads {α : Type} (r : Reader α) (t : List Char) (a : α) : Prop :=
  ReadsBefore (fun _ => True) r t a

section

variable {α β : Type} {P Q : List Char → Prop} {t u : List Char} {a : α} {b : β}

theorem Reads.before {r : Reader α} (h : Reads r t a) : ReadsBefore P r t a :=
  fun rest _ => h rest trivial

theorem ReadsBefore.pure (a : α) : ReadsBefore P (Pure.pure a : Reader α) [] a := fun _ _ => rfl

/-- One reader after another. -/
theorem ReadsBefore.bind {x : Reader α} {f : α → Reader β} (hx : ReadsBefore P x t a)
    (hf : ReadsBefore Q (f a) u b) (h : ∀ rest, Q rest → P (u ++ rest)) :
    ReadsBefore Q (x >>= f) (t ++ u) b := by
  intro rest hrest
  have hbind : (x >>= f) (t ++ u ++ rest) =
      (x (t ++ (u ++ rest))).bind fun r => f r.1 r.2 := by
    rw [List.append_assoc]
    rfl
  rw [hbind, hx _ (h rest hrest)]
  exact hf rest hrest

theorem Reads.bind {x : Reader α} {f : α → Reader β} (hx : Reads x t a)
    (hf : ReadsBefore Q (f a) u b) : ReadsBefore Q (x >>= f) (t ++ u) b :=
  ReadsBefore.bind hx hf fun _ _ => trivial

theorem ReadsBefore.map {x : Reader α} (hx : ReadsBefore P x t a) (f : α → β) :
    ReadsBefore P (x >>= fun a => Pure.pure (f a)) t (f a) := by
  have h : ReadsBefore P (x >>= fun a => Pure.pure (f a)) (t ++ []) (f a) :=
    hx.bind (ReadsBefore.pure (f a)) fun rest hrest => hrest
  rwa [List.append_nil] at h

theorem reads_text (t : List Char) : Reads (Reader.text t) t () := by
  intro rest _
  rw [Reader.text, Text.after?_eq_some.mpr rfl, Option.map_some]

theorem ReadsBefore.whole? {r : Reader α} (h : ReadsBefore P r t a) (hnil : P []) :
    r.whole? (String.ofList t) = some a := by
  have hread := h [] hnil
  rw [List.append_nil] at hread
  rw [Reader.whole?, String.toList_ofList, hread]

end

/-! ## Items -/

section

variable {α : Type} {stop : List Char} {item : Reader α} {t : List Char} {as : List α}

/-- Items are read one after another, and none of them can be taken for the text `stop`. -/
inductive ReadsEach (item : Reader α) (stop : List Char) : List Char → List α → Prop
  | nil : ReadsEach item stop [] []
  | cons {t u : List Char} {a : α} {as : List α} (head : Reads item t a)
      (apart : ∀ rest, Text.after? stop (t ++ rest) = none) (tail : ReadsEach item stop u as) :
      ReadsEach item stop (t ++ u) (a :: as)

theorem ReadsEach.flatMap {w : α → List Char} (hitem : ∀ a, Reads item (w a) a)
    (hstop : ∀ a rest, Text.after? stop (w a ++ rest) = none) (as : List α) :
    ReadsEach item stop (as.flatMap w) as := by
  induction as with
  | nil => exact .nil
  | cons a as ih => exact .cons (hitem a) (hstop a) ih

theorem ReadsEach.reads_upTo (h : ReadsEach item stop t as) {fuel : Nat}
    (hfuel : as.length < fuel) : Reads (Reader.upTo stop item fuel) (t ++ stop) as := by
  induction h generalizing fuel with
  | nil =>
    obtain ⟨fuel, rfl⟩ : ∃ n, fuel = n + 1 := ⟨fuel - 1, by omega⟩
    intro rest _
    have hstop : Text.after? stop (stop ++ rest) = some rest := Text.after?_eq_some.mpr rfl
    simp [Reader.upTo, hstop]
  | @cons t u a as head apart _ ih =>
    obtain ⟨fuel, rfl⟩ : ∃ n, fuel = n + 1 := ⟨fuel - 1, by omega⟩
    have htail : Reads (Reader.upTo stop item fuel) (u ++ stop) as :=
      ih (Nat.lt_of_succ_lt_succ hfuel)
    have hboth : Reads (do
        let a ← item
        return a :: (← Reader.upTo stop item fuel)) (t ++ (u ++ stop)) (a :: as) :=
      head.bind (htail.map (a :: ·))
    intro rest _
    rw [List.append_assoc t]
    have hnone : Text.after? stop (t ++ (u ++ stop) ++ rest) = none := by
      rw [List.append_assoc]
      exact apart _
    simp only [Reader.upTo, hnone]
    exact hboth rest trivial

theorem ReadsEach.length_le (h : ReadsEach item stop t as) : as.length ≤ t.length := by
  induction h with
  | nil => exact Nat.le_refl 0
  | @cons t u a as _ apart _ ih =>
    -- An empty item could be taken for the end in front of the end.
    have hne : t ≠ [] := by
      rintro rfl
      have hnone := apart stop
      rw [List.nil_append, Text.after?_eq_some.mpr (List.append_nil stop).symm] at hnone
      cases hnone
    have hpos := List.length_pos_iff.mpr hne
    rw [List.length_append, List.length_cons]
    omega

/-- **Items are read up to the end.** -/
theorem ReadsEach.itemsUpTo (h : ReadsEach item stop t as) :
    Reads (Reader.itemsUpTo stop item) (t ++ stop) as := by
  intro rest _
  have hlength := h.length_le
  refine h.reads_upTo ?_ rest trivial
  rw [List.length_append, List.length_append]
  omega

end

end GoCalls
