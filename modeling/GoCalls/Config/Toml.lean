/-!
# Settings as TOML

Settings are written in a part of TOML: keys at top level, each with a string or a list of strings.
A text with anything else is refused. Strings have the four forms of TOML: basic or literal, each on
one line or on several.

* `Toml.string?`: a string at the start of a text.
* `Toml.entries?`: the keys of a text with their values, in order.
-/

namespace GoCalls.Toml

/-- The value of a key. -/
inductive Value
  | text (text : String)
  | texts (items : List String)
  deriving DecidableEq

/-! ## White space and comments -/

def isSpace (c : Char) : Bool := c = ' ' || c = '\t'

/-- A character that may stand in a comment or a string: a tab, or no control character. -/
def isPlain (c : Char) : Bool := c = '\t' || (' ' ≤ c && c ≤ '~') || '\x80' ≤ c

/-- What follows a line end. -/
def lineEnd? : List Char → Option (List Char)
  | '\n' :: s => some s
  | '\r' :: '\n' :: s => some s
  | _ => none

/-- What follows white space and line ends, and comments if they are allowed, of which there are at
most `fuel` pieces. -/
def skip (comments : Bool) : (fuel : Nat) → List Char → List Char
  | 0, s => s
  | fuel + 1, s =>
    match s, lineEnd? s with
    | _, some rest => skip comments fuel rest
    | c :: rest, none =>
      if isSpace c then skip comments fuel rest
      else if comments && c = '#' then skip comments fuel (rest.dropWhile isPlain)
      else s
    | [], none => []

/-- What follows white space, line ends and comments. -/
def skipLines (s : List Char) : List Char := skip true s.length s

/-- What follows the end of a line, which may have a comment; the end of the text ends a line. -/
def closeLine? (s : List Char) : Option (List Char) :=
  let s := s.dropWhile isSpace
  let s := if s.head? = some '#' then s.dropWhile isPlain else s
  if s.isEmpty then some [] else lineEnd? s

/-! ## Strings -/

/-- The value of a hexadecimal digit. -/
def hexValue? (c : Char) : Option Nat :=
  if c.isDigit then some (c.toNat - '0'.toNat)
  else if 'a' ≤ c && c ≤ 'f' then some (c.toNat - 'a'.toNat + 10)
  else if 'A' ≤ c && c ≤ 'F' then some (c.toNat - 'A'.toNat + 10)
  else none

/-- The character with the code point that `count` hexadecimal digits give. -/
def codePoint? (count : Nat) (s : List Char) : Option (Char × List Char) := do
  let digits ← (s.take count).mapM hexValue?
  guard (digits.length = count)
  let n := digits.foldl (fun n d => 16 * n + d) 0
  guard n.isValidChar
  return (Char.ofNat n, s.drop count)

/-- The character that an escape stands for, after its backslash. -/
def escape? : List Char → Option (Char × List Char)
  | 'b' :: s => some ('\x08', s)
  | 't' :: s => some ('\t', s)
  | 'n' :: s => some ('\n', s)
  | 'f' :: s => some ('\x0c', s)
  | 'r' :: s => some ('\r', s)
  | '"' :: s => some ('"', s)
  | '\\' :: s => some ('\\', s)
  | 'u' :: s => codePoint? 4 s
  | 'U' :: s => codePoint? 8 s
  | _ => none

/-- The string whose characters have been read, the last first. -/
def close (read rest : List Char) : Option (String × List Char) :=
  some (String.ofList read.reverse, rest)

/-- The rest of a basic string on one line. -/
def basic? : (fuel : Nat) → (read : List Char) → List Char → Option (String × List Char)
  | 0, _, _ => none
  | fuel + 1, read, s =>
    match s with
    | [] => none
    | '"' :: rest => close read rest
    | '\\' :: rest => do
      let (c, rest) ← escape? rest
      basic? fuel (c :: read) rest
    | c :: rest => if isPlain c then basic? fuel (c :: read) rest else none

/-- The rest of a literal string on one line. -/
def literal? (s : List Char) : Option (String × List Char) :=
  let body := s.takeWhile fun c => c ≠ '\'' && isPlain c
  match s.drop body.length with
  | '\'' :: rest => close body.reverse rest
  | _ => none

/-- The rest of a string on several lines between three of the character `quote`, with escapes in a
basic one. -/
def multiline? (quote : Char) : (fuel : Nat) → (read : List Char) → List Char →
    Option (String × List Char)
  | 0, _, _ => none
  | fuel + 1, read, s =>
    match s with
    | [] => none
    | c :: rest =>
      if c = quote then
        match (s.takeWhile (· = quote)).length with
        | 0 | 1 | 2 => multiline? quote fuel (c :: read) rest
        | 3 => close read (s.drop 3)
        | 4 => close (c :: read) (s.drop 4)
        | _ => close (c :: c :: read) (s.drop 5)
      else if quote = '"' && c = '\\' then
        match escape? rest with
        | some (e, rest) => multiline? quote fuel (e :: read) rest
        | none => do
          let rest ← lineEnd? (rest.dropWhile isSpace)
          multiline? quote fuel read (skip false rest.length rest)
      else
        match lineEnd? s with
        | some rest => multiline? quote fuel ('\n' :: read) rest
        | none => if isPlain c then multiline? quote fuel (c :: read) rest else none

/-- A string at the start of a text. A line end directly after three opening quotes is dropped. -/
def string? (s : List Char) : Option (String × List Char) :=
  match s with
  | '"' :: '"' :: '"' :: rest => multiline? '"' s.length [] ((lineEnd? rest).getD rest)
  | '\'' :: '\'' :: '\'' :: rest => multiline? '\'' s.length [] ((lineEnd? rest).getD rest)
  | '"' :: rest => basic? s.length [] rest
  | '\'' :: rest => literal? rest
  | _ => none

/-! ## Entries -/

/-- The rest of a list of strings, after those that have been found, the last first. -/
def items? : (fuel : Nat) → (found : List String) → List Char → Option (List String × List Char)
  | 0, _, _ => none
  | fuel + 1, found, s =>
    match skipLines s with
    | ']' :: rest => some (found.reverse, rest)
    | s => do
      let (item, rest) ← string? s
      match skipLines rest with
      | ',' :: rest => items? fuel (item :: found) rest
      | ']' :: rest => some ((item :: found).reverse, rest)
      | _ => none

def value? (s : List Char) : Option (Value × List Char) :=
  match s with
  | '[' :: rest => (items? s.length [] rest).map fun (items, rest) => (.texts items, rest)
  | s => (string? s).map fun (text, rest) => (.text text, rest)

/-- A character of a key without quotes. -/
def isKeyChar (c : Char) : Bool := c.isAlphanum || c = '_' || c = '-'

def key? (s : List Char) : Option (String × List Char) :=
  match s with
  | '"' :: rest => basic? s.length [] rest
  | '\'' :: rest => literal? rest
  | s =>
    let key := s.takeWhile isKeyChar
    if key.isEmpty then none else some (String.ofList key, s.drop key.length)

/-- A line with a key and its value. -/
def entry? (s : List Char) : Option ((String × Value) × List Char) := do
  let (key, rest) ← key? s
  match rest.dropWhile isSpace with
  | '=' :: rest =>
    let (value, rest) ← value? (rest.dropWhile isSpace)
    return ((key, value), ← closeLine? rest)
  | _ => none

/-- The entries of a text, after those that have been found, the last first. -/
def entriesFrom? : (fuel : Nat) → (found : List (String × Value)) → List Char →
    Option (List (String × Value))
  | 0, _, _ => none
  | fuel + 1, found, s =>
    match skipLines s with
    | [] => some found.reverse
    | s => do
      let (entry, rest) ← entry? s
      entriesFrom? fuel (entry :: found) rest

/-- The entries of a text, which may start with a byte order mark. No key occurs twice. -/
def entries? (text : String) : Option (List (String × Value)) := do
  let s := match text.toList with
    | '\uFEFF' :: rest => rest
    | s => s
  let entries ← entriesFrom? (s.length + 1) [] s
  guard (entries.map Prod.fst).Nodup
  return entries

end GoCalls.Toml
