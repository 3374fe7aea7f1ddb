import GoCalls.Source.Tree

/-!
# Readers of lexemes

A `Parser` takes a value from the front of a list of lexemes, or fails. A newline is skipped
wherever some other lexeme has to come next. Where the text may end, a reader is told whether a
newline is visible: then it is a lexeme like others, and otherwise it is skipped too.

The rules of the grammar call each other in circles. A `Grammar` holds the rules that close the
circles, so that all other rules are plain functions of a `Grammar`.
-/

namespace GoCalls

/-- A reader of lexemes. -/
def Parser (α : Type) : Type := List Lexeme → Option (α × List Lexeme)

namespace Parser

instance : Monad Parser where
  pure a := fun s => some (a, s)
  bind p f := fun s =>
    match p s with
    | some (a, rest) => f a rest
    | none => none

/-- The reader that always fails. -/
def fail {α : Type} : Parser α := fun _ => none

/-- The first reader, or the second one where the first fails. -/
def orElse {α : Type} (p q : Parser α) : Parser α := fun s =>
  match p s with
  | some r => some r
  | none => q s

/-- The value, or failure. -/
def ofOption {α : Type} (a : Option α) : Parser α := fun s => a.map (·, s)

/-- Fail unless the condition holds. -/
def require (b : Bool) : Parser Unit := fun s => if b then some ((), s) else none

def skipNewlines (s : List Lexeme) : List Lexeme := s.dropWhile (·.token = .newline)

/-- The lexemes, without leading newlines unless they are visible. -/
def view (visible : Bool) (s : List Lexeme) : List Lexeme := if visible then s else skipNewlines s

/-- The next token, which is not taken. -/
def peek (visible : Bool) : Parser (Option Token) := fun s =>
  some ((view visible s).head?.map (·.token), s)

/-- The next lexeme. -/
def next : Parser Lexeme := fun s =>
  match skipNewlines s with
  | l :: rest => some (l, rest)
  | [] => none

/-- The place of the next lexeme. -/
def here : Parser Spot := fun s =>
  match skipNewlines s with
  | l :: rest => some (l.spot, l :: rest)
  | [] => none

/-- Take a token if it comes next. -/
def token? (visible : Bool) (t : Token) : Parser Bool := fun s =>
  match view visible s with
  | l :: rest => if l.token = t then some (true, rest) else some (false, s)
  | [] => some (false, s)

/-- Take a mark if it comes next. -/
def mark? (visible : Bool) (m : String) : Parser Bool := token? visible (.mark m)

/-- Take a mark. -/
def mark (m : String) : Parser Unit := do require (← mark? false m)

/-- Take a keyword. -/
def keyword (w : String) : Parser Unit := do require (← token? false (.word w))

/-- Take a word, whatever it is, with its place. -/
def wordAt : Parser (String × Spot) := do
  let l ← next
  match l.token with
  | .word w => return (w, l.spot)
  | _ => fail

def word : Parser String := return (← wordAt).1

/-- Take what ends a statement or a specification. -/
def terminator? : Parser Bool := fun s =>
  match s with
  | l :: rest =>
    match l.token with
    | .newline | .nul | .mark ";" => some (true, rest)
    | _ => some (false, s)
  | [] => some (true, [])

/-! ## Lists -/

/-- The rest of a list with commas between its members, after the reversed list `found`. -/
def moreCommas {α : Type} (visible : Bool) (p : Parser α) :
    (fuel : Nat) → (found : List α) → Parser (List α)
  | 0, _ => fail
  | fuel + 1, found => fun s =>
    match mark? visible "," s with
    | some (true, rest) =>
      match p rest with
      | some (a, rest) => moreCommas visible p fuel (a :: found) rest
      | none => none
    | _ => some (found.reverse, s)

/-- The rest of a list with bars between its members, after the reversed list `found`. -/
def moreBars {α : Type} (visible : Bool) (p : Parser α) :
    (fuel : Nat) → (found : List α) → Parser (List α)
  | 0, _ => fail
  | fuel + 1, found => fun s =>
    match mark? visible "|" s with
    | some (true, rest) =>
      match p rest with
      | some (a, rest) => moreBars visible p fuel (a :: found) rest
      | none => none
    | _ => some (found.reverse, s)

/-- The members of a list with commas between them, up to its end; the flag tells whether a comma
stands last. -/
def closedList {α : Type} (p : Parser α) (close : String) :
    (fuel : Nat) → (found : List α) → Parser (List α × Bool)
  | 0, _ => fail
  | fuel + 1, found => fun s =>
    match mark? false close s with
    | some (true, rest) => some ((found.reverse, !found.isEmpty), rest)
    | _ =>
      match p s with
      | none => none
      | some (a, rest) =>
        match mark? false "," rest with
        | some (true, rest) => closedList p close fuel (a :: found) rest
        | _ =>
          match mark? false close rest with
          | some (true, rest) => some (((a :: found).reverse, false), rest)
          | _ => none

/-- The members of a list in braces, each ended by a terminator, which the last may lack. -/
def bracedLines {α : Type} (p : Parser α) :
    (fuel : Nat) → (found : List α) → Parser (List α)
  | 0, _ => fail
  | fuel + 1, found => fun s =>
    match mark? false "\x7d" s with
    | some (true, rest) => some (found.reverse, rest)
    | _ =>
      match p s with
      | none => none
      | some (a, rest) =>
        match terminator? rest with
        | some (true, rest) => bracedLines p fuel (a :: found) rest
        | _ =>
          match mark? false "\x7d" rest with
          | some (true, rest) => some ((a :: found).reverse, rest)
          | _ => none

/-- The members of a list in parentheses, each ended by a terminator. -/
def specLines {α : Type} (p : Parser α) :
    (fuel : Nat) → (found : List α) → Parser (List α)
  | 0, _ => fail
  | fuel + 1, found => fun s =>
    match mark? false ")" s with
    | some (true, rest) => some (found.reverse, rest)
    | _ =>
      match p s with
      | none => none
      | some (a, rest) =>
        match terminator? rest with
        | some (true, rest) => specLines p fuel (a :: found) rest
        | _ => none

end Parser

/-! ## Phrases and modes -/

/-- What may follow a phrase that can be read as a type, in the way of a literal. -/
inductive Braces
  /-- No literal. -/
  | never
  /-- A literal, where no block can stand. -/
  | named
  /-- A literal. -/
  | always
  deriving DecidableEq

/-- A phrase in the place of an expression, which may be read as an expression or as a type. -/
structure Phrase where
  spot : Spot
  expr : Option ParseTree
  type : Option ParseTree := none
  /-- Can it be an argument of a generic type or function? -/
  elem : Bool := type.isSome
  /-- Is the type an instance of a generic type, perhaps behind pointers and parentheses? -/
  applied : Bool := false
  /-- Is it one identifier? -/
  isWord : Bool := false
  /-- Is it an identifier, perhaps qualified by another one? -/
  named : Bool := false
  braces : Braces := .never

/-- Where an expression stands. -/
structure Mode where
  /-- Can a newline end it? -/
  newline : Bool := false
  /-- Can a block follow it? -/
  block : Bool := false
  /-- Can it be the channel of a send, or the operand of an increment or decrement? -/
  effect : Bool := false
  /-- Can it be the subject of a type switch? -/
  guard : Bool := false

/-- The rules through which the others call each other, and a bound for the length of lists. -/
structure Grammar where
  fuel : Nat
  /-- A type; the flag tells whether a newline is visible. -/
  type : Bool → Parser ParseTree
  expr : Mode → Parser Phrase
  /-- The elements of a literal, after its opening brace. -/
  elements : Parser (List ParseTree)
  block : Parser ParseTree
  stmt : Parser ParseTree

/-- An expression that is no bare type. -/
def Grammar.value (g : Grammar) (m : Mode) : Parser ParseTree := do
  Parser.ofOption (← g.expr m).expr

end GoCalls
