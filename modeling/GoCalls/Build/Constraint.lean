import GoCalls.Text.Alphanumeric
import GoCalls.Text.Blank
import GoCalls.Text.Quoted

/-!
# Build constraints

A constraint is a boolean expression over tags, with `!`, `&&`, `||` and parentheses; `!` binds
closest, then `&&`.

* `Constraint.tokens`: the tokens of a text.
* `Constraint.parse`: the constraint that a text stands for.
* `Constraint.eval`: the value of a constraint.
-/

namespace GoCalls

open Text

/-- A boolean expression over tags. -/
inductive Constraint
  | tag (name : String)
  | not (x : Constraint)
  | and (x y : Constraint)
  | or (x y : Constraint)
  deriving DecidableEq

namespace Constraint

/-- The value of a constraint, where `holds` says which tags hold. -/
def eval (holds : String → Bool) : Constraint → Bool
  | .tag name => holds name
  | .not x => !x.eval holds
  | .and x y => x.eval holds && y.eval holds
  | .or x y => x.eval holds || y.eval holds

/-! ## Tokens -/

inductive Token
  | tag (name : String)
  | not
  | and
  | or
  | leftParen
  | rightParen
  deriving DecidableEq

/-- The text of a token. -/
def Token.text : Token → String
  | .tag name => name
  | .not => "!"
  | .and => "&&"
  | .or => "||"
  | .leftParen => "("
  | .rightParen => ")"

/-- How a message speaks of a token. -/
def Token.describe : Token → String
  | .tag name => "tag " ++ name
  | t => t.text

/-- Why a text is no constraint. -/
inductive Error
  | invalidChar (c : Char)
  | unexpected (token : Token)
  | unexpectedEnd
  | missingParen
  | tooComplex
  deriving DecidableEq

def Error.message : Error → String
  | .invalidChar c => "invalid syntax at " ++ quoteChar c
  | .unexpected t => "unexpected " ++ t.describe
  | .unexpectedEnd => "unexpected end of expression"
  | .missingParen => "missing )"
  | .tooComplex => "expression too complex"

/-- A character of a tag. -/
def isTagChar (c : Char) : Bool := isAlphanumeric c || c = '_' || c = '.'

/-- A word that can be a tag. -/
def isTag (word : List Char) : Bool := !word.isEmpty && word.all isTagChar

/-- The tag whose characters have been read, the last first, and what follows it. -/
def closeTag (read : List Char) (rest : List Token) : List Token :=
  if read.isEmpty then rest else .tag (String.ofList read.reverse) :: rest

/-- The tokens of a text, where `read` holds the characters of the tag before it, the last first. -/
def tokensFrom (read : List Char) : List Char → Except Error (List Token)
  | [] => .ok (closeTag read [])
  | '!' :: s => (tokensFrom [] s).map fun ts => closeTag read (.not :: ts)
  | '(' :: s => (tokensFrom [] s).map fun ts => closeTag read (.leftParen :: ts)
  | ')' :: s => (tokensFrom [] s).map fun ts => closeTag read (.rightParen :: ts)
  | '&' :: '&' :: s => (tokensFrom [] s).map fun ts => closeTag read (.and :: ts)
  | '|' :: '|' :: s => (tokensFrom [] s).map fun ts => closeTag read (.or :: ts)
  | c :: s =>
    if isTagChar c then tokensFrom (c :: read) s
    else if isBlank c then (tokensFrom [] s).map (closeTag read)
    else .error (.invalidChar c)

/-- The tokens of a text. -/
def tokens (text : List Char) : Except Error (List Token) := tokensFrom [] text

/-! ## The grammar -/

/-- How deeply expressions may be nested. -/
def maxDepth : Nat := 100

/-- An operand: a tag, or an expression after `!` or in parentheses, which `expr` reads. -/
def operand (expr : Nat → List Token → Except Error (Constraint × List Token)) :
    List Token → Except Error (Constraint × List Token)
  | [] => .error .unexpectedEnd
  | .tag name :: rest => .ok (.tag name, rest)
  | .not :: rest => do
    let (x, rest) ← expr 3 rest
    return (.not x, rest)
  | .leftParen :: rest => do
    match ← expr 0 rest with
    | (x, .rightParen :: rest) => return (x, rest)
    | _ => throw .missingParen
  | t :: _ => .error (.unexpected t)

/-- The operators after `x` that bind at least as close as `level` says; at most `count`. -/
def chain (expr : Nat → List Token → Except Error (Constraint × List Token)) (level : Nat) :
    (count : Nat) → Constraint → List Token → Except Error (Constraint × List Token)
  | count + 1, x, .or :: rest =>
    if level ≤ 1 then do
      let (y, rest) ← expr 2 rest
      chain expr level count (.or x y) rest
    else .ok (x, .or :: rest)
  | count + 1, x, .and :: rest =>
    if level ≤ 2 then do
      let (y, rest) ← expr 3 rest
      chain expr level count (.and x y) rest
    else .ok (x, .and :: rest)
  | _, x, rest => .ok (x, rest)

/-- An expression whose operators bind at least as close as `level` says, nested at most `depth`
deep. -/
def expr : (depth level : Nat) → List Token → Except Error (Constraint × List Token)
  | 0, _, _ => .error .tooComplex
  | depth + 1, level, ts => do
    let (x, rest) ← operand (expr depth) ts
    chain (expr depth) level rest.length x rest

/-- The constraint that a list of tokens stands for. -/
def ofTokens (ts : List Token) : Except Error Constraint := do
  match ← expr maxDepth 0 ts with
  | (x, []) => return x
  | (_, t :: _) => throw (.unexpected t)

/-- The constraint that a text stands for. -/
def parse (text : List Char) : Except Error Constraint := do ofTokens (← tokens text)

end Constraint

end GoCalls
