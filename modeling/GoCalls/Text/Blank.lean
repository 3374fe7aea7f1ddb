/-!
# White space, words and lines

Texts are taken apart as lists of characters.

* `isBlank`: the characters with the property `White_Space`.
* `trim`, `words`: a text without the white space around it, and its maximal parts without any.
* `lines`: the lines of a text. A line ends with a line feed, which is not part of it, nor is a
  carriage return directly before it; the last line may lack its line feed.
* `cut`: the parts between the characters that satisfy a test.
-/

namespace GoCalls.Text

/-- A white-space character. -/
def isBlank (c : Char) : Bool :=
  let n := c.toNat
  (9 ≤ n && n ≤ 13) || n == 0x20 || n == 0x85 || n == 0xA0 || n == 0x1680 ||
    (0x2000 ≤ n && n ≤ 0x200A) || n == 0x2028 || n == 0x2029 || n == 0x202F || n == 0x205F ||
    n == 0x3000

/-- `s` without its leading white space. -/
def trimStart (s : List Char) : List Char := s.dropWhile isBlank

/-- `s` without its trailing characters that satisfy `p`. -/
def dropEndWhile (p : Char → Bool) (s : List Char) : List Char := (s.reverse.dropWhile p).reverse

/-- `s` without the white space on both ends. -/
def trim (s : List Char) : List Char := dropEndWhile isBlank (trimStart s)

/-- `s` without the characters on both ends that satisfy `p`. -/
def strip (p : Char → Bool) (s : List Char) : List Char := dropEndWhile p (s.dropWhile p)

/-- The parts of `s` between characters with `p`, after reversed `parts` and the reversed `part` so
far. -/
def cutFrom {α : Type} (p : α → Bool) (part : List α) (parts : List (List α)) :
    List α → List (List α)
  | [] => (part.reverse :: parts).reverse
  | c :: s => if p c then cutFrom p [] (part.reverse :: parts) s else cutFrom p (c :: part) parts s

/-- The parts of `s` between the characters that satisfy `p`; there is one more part than such
characters. -/
def cut {α : Type} (p : α → Bool) (s : List α) : List (List α) := cutFrom p [] [] s

/-- The non-empty parts of `s` between the characters that satisfy `p`. -/
def fields (p : Char → Bool) (s : List Char) : List (List Char) :=
  (cut p s).filter fun part => !part.isEmpty

/-- The words of `s`: its maximal parts without white space. -/
def words (s : List Char) : List (List Char) := fields isBlank s

/-- `s` without one carriage return at its end. -/
def dropReturn (s : List Char) : List Char :=
  if s.getLast? = some '\r' then s.dropLast else s

/-- The lines of a text, from its parts between line feeds. -/
def closeLines : List (List Char) → List (List Char)
  | [] => []
  | [last] => if last.isEmpty then [] else [last]
  | line :: rest => dropReturn line :: closeLines rest

/-- The lines of `s`. -/
def lines (s : List Char) : List (List Char) := closeLines (cut (· == '\n') s)

/-- What follows `start` in `s`, when `s` starts with it. -/
def after? : (start s : List Char) → Option (List Char)
  | [], s => some s
  | _ :: _, [] => none
  | c :: start, d :: s => if c = d then after? start s else none

/-- The part of `s` before the first place where `mark` occurs, or all of `s`. -/
def before (mark : List Char) : List Char → List Char
  | [] => []
  | c :: s => if (after? mark (c :: s)).isSome then [] else c :: before mark s

/-- The part of `s` after the first place where `mark` occurs. -/
def beyond? (mark : List Char) : List Char → Option (List Char)
  | [] => if mark.isEmpty then some [] else none
  | c :: s =>
    match after? mark (c :: s) with
    | some rest => some rest
    | none => beyond? mark s

end GoCalls.Text
