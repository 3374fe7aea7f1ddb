import GoCalls.Proofs.Readers

/-!
# The grammar of JSON

A JSON text is one value with white space around it. Each text has at most one value, which a reader
finds from left to right.

* `Json`: a value. A number is kept as it is written.
* `Json.Writes`, `Json.Quotes`: how a character and a text may be written in quotes.
* `Json.Value`, `Json.Spaced`: how a value may be written, without and with white space around it.
* `Json.read?`: the value of a text.
* **`Json.Value.reads`**, **`Json.Spaced.read?`**: what the grammar allows is read.
-/

namespace GoCalls

/-- A JSON value. -/
inductive Json
  | null
  | bool (value : Bool)
  /-- A number, as it is written. -/
  | number (text : List Char)
  | string (text : String)
  | array (items : List Json)
  | object (fields : List (String × Json))

namespace Json

/-! ## The grammar -/

/-- White space between the parts of a text. -/
def isSpace (c : Char) : Bool := c = ' ' || c = '\t' || c = '\n' || c = '\r'

/-- A character that may stand for itself in quotes. -/
def isPlain (c : Char) : Bool := 32 ≤ c.toNat && c ≠ '"' && c ≠ '\\'

/-- The character that a backslash and `c` stand for. -/
def shortEscape? (c : Char) : Option Char :=
  match c with
  | '"' | '\\' | '/' => some c
  | 'b' => some '\x08'
  | 'f' => some '\x0c'
  | 'n' => some '\n'
  | 'r' => some '\r'
  | 't' => some '\t'
  | _ => none

/-- The value of a hexadecimal digit. -/
def hexDigit? (c : Char) : Option Nat :=
  if '0' ≤ c ∧ c ≤ '9' then some (c.toNat - 48)
  else if 'a' ≤ c ∧ c ≤ 'f' then some (c.toNat - 87)
  else if 'A' ≤ c ∧ c ≤ 'F' then some (c.toNat - 55)
  else none

/-- The number that four hexadecimal digits stand for. -/
def unit? (a b c d : Char) : Option Nat := do
  return (((← hexDigit? a) * 16 + (← hexDigit? b)) * 16 + (← hexDigit? c)) * 16 + (← hexDigit? d)

/-- The first half of a character above `0xFFFF`. -/
def isHigh (unit : Nat) : Bool := 0xD800 ≤ unit && unit < 0xDC00

/-- The second half of a character above `0xFFFF`. -/
def isLow (unit : Nat) : Bool := 0xDC00 ≤ unit && unit < 0xE000

/-- The code point with the given halves. -/
def joined (high low : Nat) : Nat := 0x10000 + (high - 0xD800) * 0x400 + (low - 0xDC00)

/-- A character is written in quotes as a text. -/
inductive Writes : Char → List Char → Prop
  | plain {c : Char} (h : isPlain c) : Writes c [c]
  | short {e c : Char} (h : shortEscape? e = some c) : Writes c ['\\', e]
  | unit {a b c d : Char} {n : Nat} (h : unit? a b c d = some n) (hhigh : isHigh n = false)
      (hlow : isLow n = false) : Writes (Char.ofNat n) ['\\', 'u', a, b, c, d]
  | pair {a b c d e f g h : Char} {m n : Nat} (hm : unit? a b c d = some m)
      (hn : unit? e f g h = some n) (hhigh : isHigh m) (hlow : isLow n) :
      Writes (Char.ofNat (joined m n)) ['\\', 'u', a, b, c, d, '\\', 'u', e, f, g, h]

/-- Characters are written one after another. -/
inductive WritesAll : List Char → List Char → Prop
  | nil : WritesAll [] []
  | cons {c : Char} {s u w : List Char} (head : Writes c u) (tail : WritesAll s w) :
      WritesAll (c :: s) (u ++ w)

/-- A text is written in quotes. -/
inductive Quotes : String → List Char → Prop
  | mk {s w : List Char} (h : WritesAll s w) : Quotes (String.ofList s) ('"' :: w ++ ['"'])

/-- One digit or more. -/
def isDigits (w : List Char) : Bool := !w.isEmpty && w.all Char.isDigit

/-- The end of a number after its fraction: nothing or an exponent. -/
def isExponent : List Char → Bool
  | [] => true
  | [_] => false
  | e :: c :: w =>
    (e = 'e' || e = 'E') && (isDigits (c :: w) || (c = '+' || c = '-') && isDigits w)

/-- The end of a number after its integer part: perhaps a fraction, then perhaps an exponent. -/
def isFraction : List Char → Bool
  | '.' :: c :: w => c.isDigit && isExponent (w.dropWhile Char.isDigit)
  | w => isExponent w

/-- A number without a sign. Only zero itself starts with a zero. -/
def isUnsigned : List Char → Bool
  | '0' :: w => isFraction w
  | c :: w => c.isDigit && isFraction (w.dropWhile Char.isDigit)
  | [] => false

/-- A number. -/
def isNumber : List Char → Bool
  | '-' :: w => isUnsigned w
  | w => isUnsigned w

mutual

/-- A value is written as a text. -/
inductive Value : Json → List Char → Prop
  | null : Value .null "null".toList
  | isTrue : Value (.bool true) "true".toList
  | isFalse : Value (.bool false) "false".toList
  | number {w : List Char} (h : isNumber w) : Value (.number w) w
  | string {s : String} {w : List Char} (h : Quotes s w) : Value (.string s) w
  | noItems {w : List Char} (h : w.all isSpace) : Value (.array []) ('[' :: w ++ [']'])
  | items {xs : List Json} {w : List Char} (h : Items xs w) : Value (.array xs) ('[' :: w ++ [']'])
  | noFields {w : List Char} (h : w.all isSpace) : Value (.object []) ('\x7b' :: w ++ ['\x7d'])
  | fields {fs : List (String × Json)} {w : List Char} (h : Fields fs w) :
      Value (.object fs) ('\x7b' :: w ++ ['\x7d'])

/-- A value is written as a text, with white space around it. -/
inductive Spaced : Json → List Char → Prop
  | mk {x : Json} {u w v : List Char} (before : u.all isSpace) (value : Value x w)
      (after : v.all isSpace) : Spaced x (u ++ (w ++ v))

/-- Values are written with commas between them. -/
inductive Items : List Json → List Char → Prop
  | last {x : Json} {w : List Char} (h : Spaced x w) : Items [x] w
  | more {x : Json} {xs : List Json} {w v : List Char} (head : Spaced x w) (tail : Items xs v) :
      Items (x :: xs) (w ++ ',' :: v)

/-- A key and a value are written with a colon between them. -/
inductive Field : String × Json → List Char → Prop
  | mk {key : String} {x : Json} {u q v w : List Char} (before : u.all isSpace) (quotes : Quotes key q)
      (after : v.all isSpace) (value : Spaced x w) : Field (key, x) (u ++ (q ++ v) ++ ':' :: w)

/-- Keys and values are written with commas between them. -/
inductive Fields : List (String × Json) → List Char → Prop
  | last {f : String × Json} {w : List Char} (h : Field f w) : Fields [f] w
  | more {f : String × Json} {fs : List (String × Json)} {w v : List Char} (head : Field f w)
      (tail : Fields fs v) : Fields (f :: fs) (w ++ ',' :: v)

end

/-! ## The reader -/

namespace Read

variable {α : Type}

/-- Any character. -/
def anyChar : Reader Char
  | [] => none
  | c :: rest => some (c, rest)

/-- Four hexadecimal digits. -/
def unit : Reader Nat := do
  let a ← anyChar
  let b ← anyChar
  let c ← anyChar
  let d ← anyChar
  fun s => (unit? a b c d).map (·, s)

/-- A character by its code, or by the two halves of it. -/
def codePoint : Reader Char := do
  let m ← unit
  if isHigh m then
    Reader.text ['\\', 'u']
    let n ← unit
    if isLow n then return Char.ofNat (joined m n) else failure
  else if isLow m then failure
  else return Char.ofNat m

/-- The character that is meant after a backslash. -/
def escaped : Reader Char := do
  let e ← anyChar
  if e = 'u' then codePoint else fun s => (shortEscape? e).map (·, s)

/-- A character in quotes. -/
def char : Reader Char := do
  let c ← anyChar
  if c = '\\' then escaped else if isPlain c then return c else failure

/-- A text in quotes. -/
def quoted : Reader String := do
  Reader.text ['"']
  return String.ofList (← Reader.itemsUpTo ['"'] char)

/-- All white space that stands here. -/
def spaces : Reader Unit := fun s => some ((), s.dropWhile isSpace)

/-- What a reader reads, with white space around it. -/
def spaced (item : Reader α) : Reader α := do
  spaces
  let a ← item
  spaces
  return a

/-- Items with commas between them up to a closing bracket, if there are at most `fuel`. -/
def separated (item : Reader α) (close : Char) : (fuel : Nat) → Reader (List α)
  | 0 => failure
  | fuel + 1 => do
    let a ← item
    let c ← anyChar
    if c = ',' then return a :: (← separated item close fuel)
    else if c = close then return [a]
    else failure

/-- The items after an opening bracket; there may be none. -/
def listOf (item : Reader α) (close : Char) : Reader (List α) := fun s =>
  match s.dropWhile isSpace with
  | [] => none
  | c :: rest => if c = close then some ([], rest) else separated item close s.length s

/-- A key with its value. -/
def field (item : Reader Json) : Reader (String × Json) := do
  let key ← spaced quoted
  Reader.text [':']
  return (key, ← spaced item)

/-- A character that may occur in a number. -/
def isNumberChar (c : Char) : Bool :=
  c.isDigit || c = '-' || c = '+' || c = '.' || c = 'e' || c = 'E'

/-- A number: all characters that may occur in one. -/
def number : Reader Json := fun s =>
  let w := s.takeWhile isNumberChar
  if isNumber w then some (.number w, s.dropWhile isNumberChar) else none

/-- A value with at most `depth` levels of brackets. -/
def value : (depth : Nat) → Reader Json
  | 0 => failure
  | depth + 1 => fun s =>
    match s with
    | 'n' :: _ => (Reader.text "null".toList >>= fun _ => pure Json.null) s
    | 't' :: _ => (Reader.text "true".toList >>= fun _ => pure (Json.bool true)) s
    | 'f' :: _ => (Reader.text "false".toList >>= fun _ => pure (Json.bool false)) s
    | '"' :: _ => (quoted >>= fun t => pure (Json.string t)) s
    | '[' :: rest => (listOf (spaced (value depth)) ']' >>= fun xs => pure (Json.array xs)) rest
    | '\x7b' :: rest =>
      (listOf (field (value depth)) '\x7d' >>= fun fs => pure (Json.object fs)) rest
    | _ => number s

end Read

/-- The value of a text. There are no more levels of brackets than characters. -/
def read? (text : String) : Option Json :=
  (Read.spaced (Read.value (text.toList.length + 1))).whole? text

/-! ## Texts in quotes -/

namespace Read

theorem reads_anyChar (c : Char) : Reads anyChar [c] c := fun _ _ => rfl

theorem reads_unit {a b c d : Char} {n : Nat} (h : unit? a b c d = some n) :
    Reads unit [a, b, c, d] n := by
  intro rest _
  have hunit : unit ([a, b, c, d] ++ rest) = (unit? a b c d).map (·, rest) := rfl
  rw [hunit, h, Option.map_some]

theorem reads_codePoint {a b c d : Char} {n : Nat} (h : unit? a b c d = some n)
    (hhigh : isHigh n = false) (hlow : isLow n = false) :
    Reads codePoint [a, b, c, d] (Char.ofNat n) := by
  have hcode : Reads codePoint ([a, b, c, d] ++ []) (Char.ofNat n) := by
    refine (reads_unit h).bind ?_
    rw [if_neg (by simp [hhigh]), if_neg (by simp [hlow])]
    exact ReadsBefore.pure _
  exact hcode

theorem reads_codePoint_pair {a b c d e f g h : Char} {m n : Nat} (hm : unit? a b c d = some m)
    (hn : unit? e f g h = some n) (hhigh : isHigh m) (hlow : isLow n) :
    Reads codePoint [a, b, c, d, '\\', 'u', e, f, g, h] (Char.ofNat (joined m n)) := by
  have hcode : Reads codePoint ([a, b, c, d] ++ (['\\', 'u'] ++ ([e, f, g, h] ++ [])))
      (Char.ofNat (joined m n)) := by
    refine (reads_unit hm).bind ?_
    rw [if_pos hhigh]
    refine (reads_text _).bind ((reads_unit hn).bind ?_)
    rw [if_pos hlow]
    exact ReadsBefore.pure _
  exact hcode

theorem reads_escaped {w : List Char} {c : Char} (h : Reads escaped w c) :
    Reads char ('\\' :: w) c := by
  have hchar : Reads char (['\\'] ++ w) c := (reads_anyChar '\\').bind h
  exact hchar

theorem reads_escaped_unit {w : List Char} {c : Char} (h : Reads codePoint w c) :
    Reads escaped ('u' :: w) c := by
  have hescaped : Reads escaped (['u'] ++ w) c := (reads_anyChar 'u').bind h
  exact hescaped

theorem reads_char {c : Char} {w : List Char} (h : Writes c w) : Reads char w c := by
  cases h with
  | plain h =>
    have hne : c ≠ '\\' := by
      rintro rfl
      exact absurd h (by decide)
    intro rest _
    have hchar : char ([c] ++ rest) =
        (if c = '\\' then escaped else if isPlain c then pure c else failure) rest := rfl
    rw [hchar, if_neg hne, if_pos h]
    rfl
  | @short e _ h =>
    apply reads_escaped
    have hne : e ≠ 'u' := by
      rintro rfl
      cases h
    intro rest _
    have hescaped : escaped ([e] ++ rest) =
        (if e = 'u' then codePoint else fun s => (shortEscape? e).map (·, s)) rest := rfl
    rw [hescaped, if_neg hne, h, Option.map_some]
  | unit h hhigh hlow =>
    exact reads_escaped (reads_escaped_unit (reads_codePoint h hhigh hlow))
  | pair hm hn hhigh hlow =>
    exact reads_escaped (reads_escaped_unit (reads_codePoint_pair hm hn hhigh hlow))

/-- No character is written with a quote in front. -/
theorem after?_writes {c : Char} {w : List Char} (h : Writes c w) (rest : List Char) :
    Text.after? ['"'] (w ++ rest) = none := by
  cases h with
  | plain h =>
    apply Text.after?_cons_of_ne
    rintro rfl
    exact absurd h (by decide)
  | short | unit | pair => exact Text.after?_cons_of_ne (by decide) _ _

theorem readsEach_char {s w : List Char} (h : WritesAll s w) : ReadsEach char ['"'] w s := by
  induction h with
  | nil => exact .nil
  | cons head _ ih => exact .cons (reads_char head) (after?_writes head) ih

/-- **A text in quotes is read**, however its characters are written. -/
theorem reads_quoted {s : String} {w : List Char} (h : Quotes s w) : Reads quoted w s := by
  cases h with
  | mk h =>
    have hquoted : Reads quoted (['"'] ++ _) _ :=
      (reads_text ['"']).bind ((readsEach_char h).itemsUpTo.map String.ofList)
    exact hquoted

/-! ## White space -/

/-- No white space comes next. -/
def NoSpace (rest : List Char) : Prop := ∀ c ∈ rest.head?, isSpace c = false

/-- What comes next ends a value: it is neither white space nor a part of a number. -/
def Closes (rest : List Char) : Prop :=
  ∀ c ∈ rest.head?, isSpace c = false ∧ isNumberChar c = false

/-- What comes next does not belong to a number. -/
def EndsNumber (rest : List Char) : Prop := ∀ c ∈ rest.head?, isNumberChar c = false

theorem closes_cons {c : Char} (hspace : isSpace c = false) (hnumber : isNumberChar c = false)
    (rest : List Char) : Closes (c :: rest) := by
  intro d hd
  obtain rfl : c = d := by simpa using hd
  exact ⟨hspace, hnumber⟩

theorem noSpace_cons {c : Char} (h : isSpace c = false) (rest : List Char) : NoSpace (c :: rest) := by
  intro d hd
  obtain rfl : c = d := by simpa using hd
  exact h

theorem isNumberChar_of_isSpace {c : Char} (h : isSpace c) : isNumberChar c = false := by
  simp only [isSpace, Bool.or_eq_true, decide_eq_true_eq] at h
  rcases h with ((rfl | rfl) | rfl) | rfl <;> decide

theorem Closes.endsNumber {rest : List Char} (h : Closes rest) {v : List Char}
    (hv : v.all isSpace) : EndsNumber (v ++ rest) := by
  cases v with
  | nil => exact fun c hc => (h c hc).2
  | cons d v =>
    intro c hc
    obtain rfl : d = c := by simpa using hc
    exact isNumberChar_of_isSpace (List.all_eq_true.mp hv d List.mem_cons_self)

theorem dropWhile_isSpace {u rest : List Char} (hu : u.all isSpace) (h : NoSpace rest) :
    (u ++ rest).dropWhile isSpace = rest := by
  rw [List.dropWhile_append_of_pos (List.all_eq_true.mp hu)]
  cases rest with
  | nil => rfl
  | cons c rest => rw [List.dropWhile_cons_of_neg (by simp [h c rfl])]

theorem reads_spaces {u : List Char} (hu : u.all isSpace) : ReadsBefore NoSpace spaces u () := by
  intro rest hrest
  rw [spaces, dropWhile_isSpace hu hrest]

variable {α : Type} {item : Reader α} {a : α} {u v w : List Char}

theorem reads_spaced {P : List Char → Prop} (hu : u.all isSpace) (hv : v.all isSpace)
    (hitem : ReadsBefore P item w a) (hopen : ∀ rest, NoSpace (w ++ rest))
    (hclose : ∀ rest, Closes rest → P (v ++ rest)) :
    ReadsBefore Closes (spaced item) (u ++ (w ++ v)) a := by
  have hafter : ReadsBefore Closes (do spaces; return a) v a := by
    have hspaces : ReadsBefore Closes spaces v () :=
      fun rest hrest => reads_spaces hv rest fun c hc => (hrest c hc).1
    exact hspaces.map fun _ => a
  refine (reads_spaces hu).bind (hitem.bind hafter hclose) fun rest _ => ?_
  rw [List.append_assoc]
  exact hopen _

/-! ## Numbers -/

theorem isNumberChar_of_isDigit {c : Char} (h : c.isDigit) : isNumberChar c := by
  simp [isNumberChar, h]

theorem isNumberChar_of_isDigits {w : List Char} (h : isDigits w) : w.all isNumberChar := by
  rw [isDigits, Bool.and_eq_true] at h
  rw [List.all_eq_true]
  exact fun c hc => isNumberChar_of_isDigit (List.all_eq_true.mp h.2 c hc)

theorem isNumberChar_of_dropWhile {w : List Char}
    (h : (w.dropWhile Char.isDigit).all isNumberChar) : w.all isNumberChar := by
  rw [← List.takeWhile_append_dropWhile (p := Char.isDigit) (l := w), List.all_append, h,
    Bool.and_true, List.all_eq_true]
  exact fun c hc => isNumberChar_of_isDigit (List.all_eq_true.mp List.all_takeWhile c hc)

theorem isNumberChar_of_isExponent {w : List Char} (h : isExponent w) : w.all isNumberChar := by
  match w with
  | [] => rfl
  | e :: c :: w =>
    simp only [isExponent, Bool.and_eq_true, Bool.or_eq_true, decide_eq_true_eq] at h
    obtain ⟨he, hw⟩ := h
    have he : isNumberChar e := by rcases he with rfl | rfl <;> decide
    rw [List.all_cons, he, Bool.true_and]
    rcases hw with hw | ⟨hc, hw⟩
    · exact isNumberChar_of_isDigits hw
    · have hc : isNumberChar c := by rcases hc with rfl | rfl <;> decide
      rw [List.all_cons, hc, isNumberChar_of_isDigits hw, Bool.true_and]

theorem isNumberChar_of_isFraction {w : List Char} (h : isFraction w) : w.all isNumberChar := by
  unfold isFraction at h
  split at h
  · rw [Bool.and_eq_true] at h
    rw [List.all_cons, List.all_cons, isNumberChar_of_isDigit h.1,
      isNumberChar_of_dropWhile (isNumberChar_of_isExponent h.2)]
    rfl
  · exact isNumberChar_of_isExponent h

theorem isNumberChar_of_isUnsigned {w : List Char} (h : isUnsigned w) : w.all isNumberChar := by
  unfold isUnsigned at h
  split at h
  · rw [List.all_cons, isNumberChar_of_isFraction h]
    rfl
  · rw [Bool.and_eq_true] at h
    rw [List.all_cons, isNumberChar_of_isDigit h.1,
      isNumberChar_of_dropWhile (isNumberChar_of_isFraction h.2), Bool.true_and]
  · cases h

theorem isNumberChar_of_isNumber {w : List Char} (h : isNumber w) : w.all isNumberChar := by
  unfold isNumber at h
  split at h
  · rw [List.all_cons, isNumberChar_of_isUnsigned h]
    rfl
  · exact isNumberChar_of_isUnsigned h

theorem exists_cons_of_isNumber {w : List Char} (h : isNumber w) :
    ∃ c v, w = c :: v ∧ isNumberChar c := by
  cases w with
  | nil => cases h
  | cons c v =>
    have hall := isNumberChar_of_isNumber h
    rw [List.all_cons, Bool.and_eq_true] at hall
    exact ⟨c, v, rfl, hall.1⟩

theorem reads_number {w : List Char} (h : isNumber w) :
    ReadsBefore EndsNumber number w (.number w) := by
  intro rest hrest
  have hall := List.all_eq_true.mp (isNumberChar_of_isNumber h)
  have htake : (w ++ rest).takeWhile isNumberChar = w := by
    rw [List.takeWhile_append_of_pos hall]
    cases rest with
    | nil => simp
    | cons c rest => rw [List.takeWhile_cons_of_neg (by simp [hrest c rfl]), List.append_nil]
  have hdrop : (w ++ rest).dropWhile isNumberChar = rest := by
    rw [List.dropWhile_append_of_pos hall]
    cases rest with
    | nil => rfl
    | cons c rest => rw [List.dropWhile_cons_of_neg (by simp [hrest c rfl])]
  simp only [number, htake, hdrop, h, if_true]

/-! ## Lists -/

section

variable {close : Char} {as : List α} {fuel : Nat}

theorem reads_separated_last (hitem : ReadsBefore Closes item w a)
    (hclose : ∀ rest, Closes (close :: rest)) (hcomma : close ≠ ',') :
    Reads (separated item close (fuel + 1)) (w ++ [close]) [a] := by
  have hlast : Reads (do
      let c ← anyChar
      if c = ',' then return a :: (← separated item close fuel)
      else if c = close then return [a]
      else failure) ([close] ++ []) [a] := by
    refine (reads_anyChar close).bind ?_
    rw [if_neg hcomma, if_pos rfl]
    exact ReadsBefore.pure _
  rw [separated]
  exact hitem.bind hlast fun rest _ => hclose rest

theorem reads_separated_more (hitem : ReadsBefore Closes item w a)
    (htail : Reads (separated item close fuel) v as) :
    Reads (separated item close (fuel + 1)) (w ++ ',' :: v) (a :: as) := by
  have hmore : Reads (do
      let c ← anyChar
      if c = ',' then return a :: (← separated item close fuel)
      else if c = close then return [a]
      else failure) ([','] ++ v) (a :: as) := by
    refine (reads_anyChar ',').bind ?_
    rw [if_pos rfl]
    exact htail.map (a :: ·)
  rw [separated]
  exact hitem.bind hmore fun rest _ => closes_cons (by decide) (by decide) _

theorem reads_listOf_nil (hw : w.all isSpace) (hclose : isSpace close = false) :
    Reads (listOf item close) (w ++ [close]) [] := by
  intro rest _
  have hdrop : (w ++ [close] ++ rest).dropWhile isSpace = close :: rest := by
    rw [List.append_assoc]
    exact dropWhile_isSpace hw (noSpace_cons hclose rest)
  simp only [listOf, hdrop, if_true]

/-- A text starts, after white space, with a character other than a closing bracket. -/
def Opens (close : Char) (w : List Char) : Prop :=
  ∃ u c v, w = u ++ c :: v ∧ u.all isSpace ∧ isSpace c = false ∧ c ≠ close

theorem Opens.append {w : List Char} (h : Opens close w) (v : List Char) :
    Opens close (w ++ v) := by
  obtain ⟨u, c, w, rfl, hu, hc, hne⟩ := h
  exact ⟨u, c, w ++ v, by simp, hu, hc, hne⟩

theorem reads_listOf (hopens : Opens close w)
    (hitems : ∀ fuel, w.length < fuel → Reads (separated item close fuel) (w ++ [close]) as) :
    Reads (listOf item close) (w ++ [close]) as := by
  intro rest _
  obtain ⟨u, c, v, hw, hu, hc, hne⟩ := hopens
  have hdrop : (w ++ [close] ++ rest).dropWhile isSpace = c :: (v ++ [close] ++ rest) := by
    rw [hw, List.append_assoc, List.append_assoc, List.append_assoc]
    exact dropWhile_isSpace hu (noSpace_cons hc _)
  simp only [listOf, hdrop, if_neg hne]
  refine hitems _ ?_ rest trivial
  simp only [List.length_append, List.length_singleton]
  omega

end

end Read

/-! ## Values -/

/-- A value starts with no white space or closing bracket. -/
theorem Value.exists_cons {x : Json} {w : List Char} (h : Value x w) :
    ∃ c v, w = c :: v ∧ isSpace c = false ∧ c ≠ ']' := by
  cases h with
  | number h =>
    obtain ⟨c, v, rfl, hc⟩ := Read.exists_cons_of_isNumber h
    refine ⟨c, v, rfl, ?_, ?_⟩
    · by_contra hspace
      rw [Bool.not_eq_false] at hspace
      rw [Read.isNumberChar_of_isSpace hspace] at hc
      cases hc
    · rintro rfl
      exact absurd hc (by decide)
  | string h =>
    cases h with
    | mk h => exact ⟨_, _, rfl, by decide, by decide⟩
  | null | isTrue | isFalse | noItems | items | noFields | fields =>
    exact ⟨_, _, rfl, by decide, by decide⟩

theorem Value.noSpace {x : Json} {w : List Char} (h : Value x w) (rest : List Char) :
    Read.NoSpace (w ++ rest) := by
  obtain ⟨c, v, rfl, hc, -⟩ := h.exists_cons
  exact Read.noSpace_cons hc _

theorem Quotes.noSpace {s : String} {w : List Char} (h : Quotes s w) (rest : List Char) :
    Read.NoSpace (w ++ rest) := by
  cases h with
  | mk h => exact Read.noSpace_cons (by decide) _

theorem Spaced.opens {x : Json} {w : List Char} (h : Spaced x w) : Read.Opens ']' w := by
  cases h with
  | @mk _ u w v hu h hv =>
    obtain ⟨c, w, rfl, hc, hne⟩ := h.exists_cons
    exact ⟨u, c, w ++ v, by simp, hu, hc, hne⟩

theorem Items.opens {xs : List Json} {w : List Char} (h : Items xs w) : Read.Opens ']' w := by
  cases h with
  | last h => exact h.opens
  | more h _ => exact h.opens.append _

theorem Field.opens {f : String × Json} {w : List Char} (h : Field f w) : Read.Opens '\x7d' w := by
  cases h with
  | @mk _ _ u q v w hu hq hv h =>
    cases hq with
    | @mk _ q _ => exact ⟨u, '"', q ++ ['"'] ++ v ++ ':' :: w, by simp, hu, by decide, by decide⟩

theorem Fields.opens {fs : List (String × Json)} {w : List Char} (h : Fields fs w) :
    Read.Opens '\x7d' w := by
  cases h with
  | last h => exact h.opens
  | more h _ => exact h.opens.append _

namespace Read

theorem value_of_isNumberChar {c : Char} (hc : isNumberChar c) (depth : Nat) (s : List Char) :
    value (depth + 1) (c :: s) = number (c :: s) := by
  unfold value
  split
  case h_7 => rfl
  all_goals
    rename_i heq
    obtain ⟨rfl, -⟩ := List.cons.inj heq
    exact absurd hc (by decide)

theorem reads_value_items {depth : Nat} {xs : List Json} {w : List Char}
    (h : Reads (listOf (spaced (value depth)) ']') (w ++ [']']) xs) :
    Reads (value (depth + 1)) ('[' :: w ++ [']']) (.array xs) :=
  fun rest _ => (h.map Json.array) rest trivial

theorem reads_value_fields {depth : Nat} {fs : List (String × Json)} {w : List Char}
    (h : Reads (listOf (field (value depth)) '\x7d') (w ++ ['\x7d']) fs) :
    Reads (value (depth + 1)) ('\x7b' :: w ++ ['\x7d']) (.object fs) :=
  fun rest _ => (h.map Json.object) rest trivial

end Read

theorem length_bracketed (c d : Char) (w : List Char) :
    (c :: w ++ [d]).length = w.length + 2 := by
  simp

mutual

/-- **A value is read**, however it is written. -/
theorem Value.reads {depth : Nat} : {x : Json} → {w : List Char} → Value x w → w.length ≤ depth →
    ReadsBefore Read.EndsNumber (Read.value (depth + 1)) w x
  | _, _, .null, _ => fun rest _ => ((reads_text "null".toList).map fun _ => Json.null) rest trivial
  | _, _, .isTrue, _ =>
    fun rest _ => ((reads_text "true".toList).map fun _ => Json.bool true) rest trivial
  | _, _, .isFalse, _ =>
    fun rest _ => ((reads_text "false".toList).map fun _ => Json.bool false) rest trivial
  | _, _, .number h, _ => by
    intro rest hrest
    obtain ⟨c, v, rfl, hc⟩ := Read.exists_cons_of_isNumber h
    rw [List.cons_append, Read.value_of_isNumberChar hc]
    exact Read.reads_number h rest hrest
  | _, _, .string h, _ => by
    have hread := (Read.reads_quoted h).map Json.string
    cases h with
    | mk h => exact fun rest _ => hread rest trivial
  | _, _, .noItems h, _ => (Read.reads_value_items (Read.reads_listOf_nil h (by decide))).before
  | _, _, .items h, hd => by
    rw [length_bracketed] at hd
    obtain ⟨depth, rfl⟩ : ∃ n, depth = n + 1 := ⟨depth - 1, by omega⟩
    exact (Read.reads_value_items (Read.reads_listOf h.opens fun fuel hf =>
      h.reads (by omega) hf)).before
  | _, _, .noFields h, _ => (Read.reads_value_fields (Read.reads_listOf_nil h (by decide))).before
  | _, _, .fields h, hd => by
    rw [length_bracketed] at hd
    obtain ⟨depth, rfl⟩ : ∃ n, depth = n + 1 := ⟨depth - 1, by omega⟩
    exact (Read.reads_value_fields (Read.reads_listOf h.opens fun fuel hf =>
      h.reads (by omega) hf)).before

theorem Spaced.reads {depth : Nat} : {x : Json} → {w : List Char} → Spaced x w →
    w.length ≤ depth → ReadsBefore Read.Closes (Read.spaced (Read.value (depth + 1))) w x
  | _, _, .mk hu h hv, hd => by
    rw [List.length_append, List.length_append] at hd
    exact Read.reads_spaced hu hv (h.reads (by omega)) h.noSpace
      fun _ hrest => hrest.endsNumber hv

theorem Items.reads {depth fuel : Nat} : {xs : List Json} → {w : List Char} → Items xs w →
    w.length ≤ depth → w.length < fuel →
    Reads (Read.separated (Read.spaced (Read.value (depth + 1))) ']' fuel) (w ++ [']']) xs
  | _, _, .last h, hd, hf => by
    obtain ⟨fuel, rfl⟩ : ∃ n, fuel = n + 1 := ⟨fuel - 1, by omega⟩
    exact Read.reads_separated_last (h.reads hd) (Read.closes_cons (by decide) (by decide))
      (by decide)
  | _, _, .more h t, hd, hf => by
    obtain ⟨fuel, rfl⟩ : ∃ n, fuel = n + 1 := ⟨fuel - 1, by omega⟩
    rw [List.length_append, List.length_cons] at hd hf
    rw [List.append_assoc, List.cons_append]
    exact Read.reads_separated_more (h.reads (by omega)) (t.reads (by omega) (by omega))

theorem Field.reads {depth : Nat} : {f : String × Json} → {w : List Char} → Field f w →
    w.length ≤ depth → ReadsBefore Read.Closes (Read.field (Read.value (depth + 1))) w f
  | _, _, .mk hu hq hv h, hd => by
    rw [List.length_append, List.length_cons] at hd
    have hkey := Read.reads_spaced hu hv (Read.reads_quoted hq) hq.noSpace fun _ _ => trivial
    have hvalue : ReadsBefore Read.Closes (Read.spaced (Read.value (depth + 1))) _ _ :=
      h.reads (by omega)
    refine hkey.bind ((reads_text [':']).bind (hvalue.map (Prod.mk _))) fun rest _ => ?_
    exact Read.closes_cons (by decide) (by decide) _

theorem Fields.reads {depth fuel : Nat} : {fs : List (String × Json)} → {w : List Char} →
    Fields fs w → w.length ≤ depth → w.length < fuel →
    Reads (Read.separated (Read.field (Read.value (depth + 1))) '\x7d' fuel) (w ++ ['\x7d']) fs
  | _, _, .last h, hd, hf => by
    obtain ⟨fuel, rfl⟩ : ∃ n, fuel = n + 1 := ⟨fuel - 1, by omega⟩
    exact Read.reads_separated_last (h.reads hd) (Read.closes_cons (by decide) (by decide))
      (by decide)
  | _, _, .more h t, hd, hf => by
    obtain ⟨fuel, rfl⟩ : ∃ n, fuel = n + 1 := ⟨fuel - 1, by omega⟩
    rw [List.length_append, List.length_cons] at hd hf
    rw [List.append_assoc, List.cons_append]
    exact Read.reads_separated_more (h.reads (by omega)) (t.reads (by omega) (by omega))

end

/-- **What the grammar allows is read**, so each text has at most one value. -/
theorem Spaced.read? {x : Json} {w : List Char} (h : Spaced x w) :
    Json.read? (String.ofList w) = some x := by
  rw [Json.read?, String.toList_ofList]
  exact (h.reads (Nat.le_refl _)).whole? fun _ hc => nomatch hc

end Json
end GoCalls
