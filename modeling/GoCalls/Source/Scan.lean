import GoCalls.Source.Lexeme
import GoCalls.Text.Identifier

/-!
# From a text to its lexemes

`lexemes? s` takes the text `s` apart. White space and comments stand between lexemes and are
dropped, but newlines are kept. It gives nothing when some character starts no lexeme. Such a text
can still say which package it belongs to, in the clause at its start (`leadingPackage?`).
-/

namespace GoCalls.Scan

/-- The marks, longer ones first, so that the longest mark at a place is the first that matches. -/
def marks : List (List Char) :=
  ["<<=", ">>=", "&^=", "...",
    ":=", "==", "!=", "<=", "<-", "<<", ">=", ">>", "++", "+=", "--", "-=", "*=", "/=", "%=", "&&",
    "&^", "&=", "||", "|=", "^=",
    "(", ")", "[", "]", "\x7b", "\x7d", ",", ";", ".", ":", "=", "<", ">", "+", "-", "*", "/", "%",
    "&", "|", "^", "!", "~"].map String.toList

/-- The length of a block comment, counted from after its opening. -/
def blockComment : List Char → Option Nat
  | '*' :: '/' :: _ => some 2
  | _ :: s => (blockComment s).map (· + 1)
  | [] => none

/-- Does `s` hold `n` hexadecimal digits at its front? -/
def hexAhead (n : Nat) (s : List Char) : Bool :=
  let front := s.take n
  front.length == n && front.all Number.isHex

/-- The length of an escape in a string literal, counted from after its backslash. -/
def stringEscape : List Char → Option Nat
  | [] => none
  | 'x' :: s => if hexAhead 2 s then some 3 else none
  | 'u' :: s => if hexAhead 4 s then some 5 else none
  | 'U' :: s => if hexAhead 8 s then some 9 else none
  | _ :: _ => some 1

/-- The length of the rest of an interpreted string literal, with its closing quote; `skip` more
characters are known to belong to it. -/
def stringRest : (skip : Nat) → List Char → Option Nat
  | _, [] => none
  | skip + 1, _ :: s => (stringRest skip s).map (· + 1)
  | 0, '"' :: _ => some 1
  | 0, '\n' :: _ => none
  | 0, '\\' :: s => do
    let n ← stringEscape s
    let m ← stringRest n s
    return m + 1
  | 0, _ :: s => (stringRest 0 s).map (· + 1)

/-- The length of the rest of a raw string literal, with its closing quote. -/
def rawRest : List Char → Option Nat
  | [] => none
  | '\x60' :: _ => some 1
  | _ :: s => (rawRest s).map (· + 1)

/-- The length of the character or escape that a rune literal holds. -/
def runeBody : List Char → Option Nat
  | [] => none
  | '\'' :: _ => none
  | '\\' :: 'x' :: s => if hexAhead 2 s then some 4 else none
  | '\\' :: 'u' :: s => if hexAhead 4 s then some 6 else none
  | '\\' :: 'U' :: s => if hexAhead 8 s then some 10 else none
  | '\\' :: c :: s =>
    if "abfnrtv\\'\"".toList.contains c then some 2
    else if Number.isOctal c && (s.take 2).length == 2 && (s.take 2).all Number.isOctal then some 4
    else none
  | ['\\'] => none
  | _ :: _ => some 1

/-- The length of the rest of a rune literal, with its closing quote. -/
def runeRest (s : List Char) : Option Nat := do
  let n ← runeBody s
  if (s.drop n).head? = some '\'' then return n + 1 else none

/-- What stands at the front of a text. -/
inductive Piece
  /-- White space or a comment. -/
  | space
  | token (token : Token)

/-- The token of a literal whose characters are `s`. -/
def litPiece (kind : LitKind) (s : List Char) : Piece := .token (.lit kind (String.ofList s))

/-- A number, mark or unknown character at the front of `s`. -/
def markOrNumber? (s : List Char) : Option (Piece × Nat) :=
  match Number.number? s with
  | some (kind, n) => some (litPiece kind (s.take n), n)
  | none =>
    (marks.find? fun m => m.isPrefixOf s).map fun m => (.token (.mark (String.ofList m)), m.length)

/-- The piece at the front of `s` and its length. -/
def piece? (s : List Char) : Option (Piece × Nat) :=
  match s with
  | [] => none
  | '\n' :: _ => some (.token .newline, 1)
  | '\x00' :: _ => some (.token .nul, 1)
  | '/' :: '/' :: rest => some (.space, 2 + (rest.takeWhile (· ≠ '\n')).length)
  | '/' :: '*' :: rest =>
    match blockComment rest with
    | some n => some (.space, n + 2)
    | none => markOrNumber? s
  | '"' :: rest => (stringRest 0 rest).map fun n => (litPiece .string (s.take (n + 1)), n + 1)
  | '\x60' :: rest => (rawRest rest).map fun n => (litPiece .string (s.take (n + 1)), n + 1)
  | '\'' :: rest => (runeRest rest).map fun n => (litPiece .rune (s.take (n + 1)), n + 1)
  | c :: rest =>
    if c = ' ' || ('\t' ≤ c && c ≤ '\r') then some (.space, 1)
    else if Text.isIdentStart c then
      let word := c :: rest.takeWhile Text.isIdentRest
      some (.token (.word (String.ofList word)), word.length)
    else markOrNumber? s

/-- The lexemes of `s`, after the reversed list `found` of earlier ones. Each step takes a
character. -/
def scan : (fuel : Nat) → (spot : Spot) → (found : List Lexeme) → List Char → Option (List Lexeme)
  | _, _, found, [] => some found.reverse
  | 0, _, _, _ :: _ => none
  | fuel + 1, spot, found, s@(_ :: _) =>
    match piece? s with
    | none => none
    | some (piece, n) =>
      let rest := s.drop n
      let spot' := spot.skip (s.take n)
      match piece with
      | .space => scan fuel spot' found rest
      | .token token => scan fuel spot' (⟨token, spot⟩ :: found) rest

/-- The lexemes of the text `s`. A byte order mark at its start is white space. -/
def lexemes? (s : List Char) : Option (List Lexeme) :=
  match s with
  | '\uFEFF' :: rest => scan rest.length (Spot.next {} '\uFEFF') [] rest
  | s => scan s.length {} [] s

/-- The first words of a text, up to `count`, with white space, comments and line ends between them.
-/
def leadingWords : (fuel count : Nat) → List Char → List String
  | 0, _, _ | _, 0, _ => []
  | fuel + 1, count + 1, s =>
    match piece? s with
    | some (.space, n) | some (.token .newline, n) | some (.token (.mark ";"), n) =>
      leadingWords fuel (count + 1) (s.drop n)
    | some (.token (.word word), n) => word :: leadingWords fuel count (s.drop n)
    | _ => []

/-- The package that the clause at the start of a text names. -/
def leadingPackage? (s : List Char) : Option String :=
  match leadingWords s.length 2 s with
  | ["package", name] => some name
  | _ => none

end GoCalls.Scan
