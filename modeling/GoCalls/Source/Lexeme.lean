/-!
# Lexemes

A source text is a sequence of lexemes: words, literals, marks and newlines. Keywords are words
like all others, because a word is a keyword only where the grammar has a place for it. A newline
is a lexeme because it ends a statement where a statement can end, and means nothing elsewhere.

* `Spot`: the line and the column of a character.
* `Token`, `Lexeme`: what a lexeme is, and where.
* `Number.number?`: number literals. Each form of them is a function that gives the number of
  characters it takes from the front of a text, or nothing; the longest form that matches counts.
  In all forms single underscores may stand between digits.
-/

namespace GoCalls

/-! ## Places -/

/-- A line and a byte column, both from one. -/
structure Spot where
  line : Nat := 1
  column : Nat := 1
  deriving DecidableEq

namespace Spot

/-- The place after the character `c`. -/
def next (spot : Spot) (c : Char) : Spot :=
  if c = '\n' then ⟨spot.line + 1, 1⟩ else ⟨spot.line, spot.column + c.utf8Size⟩

/-- The place after all the characters of `s`. -/
def skip (spot : Spot) (s : List Char) : Spot := s.foldl next spot

/-- The order of places in a text. -/
def le (a b : Spot) : Bool := a.line < b.line || (a.line = b.line && a.column ≤ b.column)

end Spot

/-! ## Tokens -/

/-- The kinds of basic literals. -/
inductive LitKind
  | int
  | float
  | imaginary
  | rune
  | string
  deriving DecidableEq

/-- What a lexeme is. -/
inductive Token
  /-- An identifier or a keyword. -/
  | word (text : String)
  /-- A literal, with its text as written. -/
  | lit (kind : LitKind) (text : String)
  /-- An operator, a bracket or another mark. -/
  | mark (text : String)
  | newline
  /-- A NUL character, which ends a statement as a newline does. -/
  | nul
  deriving DecidableEq

/-- A token and the place of its first character. -/
structure Lexeme where
  token : Token
  spot : Spot
  deriving DecidableEq

/-! ## Numbers -/

namespace Number

/-- How many characters a form takes from the front of a text. -/
abbrev Form := List Char → Option Nat

/-- One form after another. -/
def seq (a b : Form) : Form := fun s => do
  let n ← a s
  let m ← b (s.drop n)
  return n + m

/-- A form, or nothing at all. -/
def opt (a : Form) : Form := fun s => (a s).getD 0

/-- One character that satisfies `p`. -/
def one (p : Char → Bool) : Form
  | c :: _ => if p c then some 1 else none
  | [] => none

/-- The longer of two matches. -/
def longer (a b : Option Nat) : Option Nat :=
  match a, b with
  | some n, some m => some (max n m)
  | some n, none => some n
  | none, b => b

/-- The longest match of several forms. -/
def longest (forms : List Form) : Form := fun s => forms.foldl (fun best f => longer best (f s)) none

/-- How many characters of `s` go on with a run of digits. -/
def moreDigits (p : Char → Bool) : List Char → Nat
  | [] => 0
  | [c] => if p c then 1 else 0
  | c :: d :: s =>
    if p c then 1 + moreDigits p (d :: s)
    else if c = '_' && p d then 2 + moreDigits p s
    else 0

/-- A run of digits, with single underscores between them. -/
def digits (p : Char → Bool) : Form
  | c :: s => if p c then some (1 + moreDigits p s) else none
  | [] => none

def isBinary (c : Char) : Bool := c = '0' || c = '1'

def isOctal (c : Char) : Bool := '0' ≤ c && c ≤ '7'

def isDecimal (c : Char) : Bool := '0' ≤ c && c ≤ '9'

def isHex (c : Char) : Bool := isDecimal c || ('a' ≤ c && c ≤ 'f') || ('A' ≤ c && c ≤ 'F')

/-- The character `c`. -/
def chr (c : Char) : Form := one (· = c)

/-- One of two characters. -/
def either (c d : Char) : Form := one fun x => x = c || x = d

def decimalDigits : Form := digits isDecimal

/-! ## Whole numbers -/

def binaryInt : Form :=
  seq (chr '0') <| seq (either 'b' 'B') <| seq (opt (chr '_')) (digits isBinary)

def octalInt : Form :=
  seq (chr '0') <| seq (opt (either 'o' 'O')) <| seq (opt (chr '_')) (digits isOctal)

def hexInt : Form :=
  seq (chr '0') <| seq (either 'x' 'X') <| seq (opt (chr '_')) (digits isHex)

def decimalInt : Form := longest [
  chr '0',
  seq (one fun c => '1' ≤ c && c ≤ '9') (opt (seq (opt (chr '_')) decimalDigits))]

def int : Form := longest [binaryInt, octalInt, hexInt, decimalInt]

/-! ## Fractions and exponents -/

/-- An exponent after one of two letters. -/
def exponent (c d : Char) : Form := seq (either c d) (seq (opt (either '+' '-')) decimalDigits)

def decimalFloat : Form := longest [
  seq decimalDigits (seq (chr '.') (seq (opt decimalDigits) (opt (exponent 'e' 'E')))),
  seq decimalDigits (exponent 'e' 'E'),
  seq (chr '.') (seq decimalDigits (opt (exponent 'e' 'E')))]

def hexFloat : Form :=
  seq (chr '0') <| seq (either 'x' 'X') <| longest [
    seq (opt (chr '_')) <| seq (digits isHex) <| seq (chr '.') <| seq (opt (digits isHex))
      (exponent 'p' 'P'),
    seq (opt (chr '_')) <| seq (digits isHex) (exponent 'p' 'P'),
    seq (chr '.') <| seq (digits isHex) (exponent 'p' 'P')]

def float : Form := longest [decimalFloat, hexFloat]

def imaginary : Form :=
  longest [seq decimalDigits (chr 'i'), seq int (chr 'i'), seq float (chr 'i')]

/-- The number literal at the front of `s`: its kind and how many characters it takes. -/
def number? (s : List Char) : Option (LitKind × Nat) :=
  let add (best : Option (LitKind × Nat)) (kind : LitKind) (form : Form) :=
    match best, form s with
    | some (k, n), some m => if n < m then some (kind, m) else some (k, n)
    | none, some m => some (kind, m)
    | best, none => best
  add (add (add none .int int) .float float) .imaginary imaginary

end Number

end GoCalls
