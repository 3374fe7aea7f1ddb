import GoCalls.Source.Grammar.Types

/-!
# The grammar of expressions

A phrase in the place of an expression is read with both its readings, as an expression and as a
type, until what follows decides.

* `Phrase.ofIdent`, `Phrase.paren`, `Phrase.deref`: phrases that may have both readings.
* `bracketed`: what `x[a, b]` is, called or not.
* `suffixes`: selectors, calls, indices, slices, type assertions and literals after an operand.
* `level`: binary operators, level by level of precedence.
-/

namespace GoCalls

open GoCalls.Parser GoCalls.ParseTree

/-! ## Phrases -/

namespace Phrase

/-- A phrase that is only an expression. -/
def ofExpr (spot : Spot) (x : ParseTree) : Phrase := { spot, expr := some x }

/-- A phrase that is only a type. -/
def ofType (spot : Spot) (t : ParseTree) (braces : Braces := .never) : Phrase :=
  { spot, expr := none, type := some t, braces }

/-- An identifier. -/
def ofIdent (spot : Spot) (w : String) : Phrase :=
  { spot, expr := some (leaf .identifier spot w), type := some (Grammar.typeName spot w)
    isWord := true, named := true, braces := .named }

/-- A phrase in parentheses. -/
def paren (spot : Spot) (p : Phrase) : Phrase :=
  { spot, expr := p.expr.map fun x => branch .parenthesizedExpression spot [x]
    type := p.type.map fun t => branch .parenthesizedType spot [t]
    applied := p.applied }

/-- A unary operator with its operand. -/
def unaryNode (spot : Spot) (op : String) (x : ParseTree) : ParseTree :=
  branch .unaryExpression spot [(markNode spot op).as .operator, x.as .operand]

/-- A phrase after a star. -/
def deref (spot : Spot) (p : Phrase) : Phrase :=
  { spot, expr := p.expr.map (unaryNode spot "*")
    type := p.type.map fun t => branch .pointerType spot [t]
    applied := p.applied }

/-- Has the phrase a reading? -/
def readable (p : Phrase) : Bool := p.expr.isSome || p.elem

end Phrase

namespace Grammar

variable (g : Grammar)

/-! ## Calls and literals -/

/-- The arguments of a call, after the opening parenthesis; the flag tells whether one stands for
the rest of the arguments. -/
def callArgs : Parser (List (ParseTree × Bool)) := do
  let arg : Parser (ParseTree × Bool) := do
    let x ← g.value {}
    if ← mark? false "..." then return (branch .other x.spot [x], true) else return (x, false)
  return (← closedList arg ")" g.fuel []).1

/-- The one plain argument of a list of arguments. -/
def plainArg? : List (ParseTree × Bool) → Option ParseTree
  | [(x, false)] => some x
  | _ => none

def callNode (spot : Spot) (fn : ParseTree) (args : List ParseTree) : ParseTree :=
  branch .callExpression spot [fn.as .function, (branch .other spot args).as .arguments]

def conversionNode (spot : Spot) (type x : ParseTree) : ParseTree :=
  branch .typeConversionExpression spot [type.as .type, x.as .operand]

/-- A call. A type applied to one plain argument is a conversion, if it is no expression or an
instance of a generic type. -/
def callPhrase (p : Phrase) (args : List (ParseTree × Bool)) : Parser Phrase := do
  let converted := do
    guard (p.expr.isNone || p.applied)
    return conversionNode p.spot (← p.type) (← plainArg? args)
  let called := p.expr.map fun fn => callNode p.spot fn (args.map Prod.fst)
  return .ofExpr p.spot (← ofOption (converted <|> called))

/-- A call of `new` or `make`, whose first argument is a type. -/
def specialCall (spot : Spot) (w : String) : Parser Phrase := do
  mark "("
  let fn := leaf .identifier spot w
  if ← mark? false ")" then return .ofExpr spot (callNode spot fn [])
  let t ← g.type false
  let rest ← if ← mark? false "," then do
      pure (← closedList (g.value {}) ")" g.fuel []).1
    else do
      mark ")"
      pure []
  return .ofExpr spot (callNode spot fn (t :: rest))

/-- An element of a literal without its key: an expression or a list in braces. -/
def elementValue : Parser ParseTree := do
  let spot ← here
  if ← mark? false "\x7b" then
    return branch .literalElement spot [branch .literalValue spot (← g.elements)]
  else return branch .literalElement spot [← g.value {}]

/-- An element of a literal, perhaps with a key. -/
def element : Parser ParseTree := do
  let spot ← here
  let x ← elementValue g
  if ← mark? false ":" then
    return branch .keyedElement spot [x.as .key, (← elementValue g).as .value]
  else return x

/-- The elements of a literal, after its opening brace. -/
def elementsRule : Parser (List ParseTree) := do
  return (← closedList (element g) "\x7d" g.fuel []).1

def compositeNode (spot : Spot) (type : ParseTree) (elements : List ParseTree) : ParseTree :=
  branch .compositeLiteral spot [type.as .type, (branch .literalValue spot elements).as .body]

/-! ## Brackets -/

/-- What may stand in brackets after an operand. -/
inductive Brackets
  | slice (bounds : List ParseTree)
  /-- Phrases, and whether a comma follows the last. -/
  | args (args : List Phrase) (comma : Bool)

/-- The bounds of a slice, after its first colon. -/
def sliceBounds (first : List ParseTree) : Parser Brackets := do
  let first := first.map (·.as .start)
  if ← mark? false "]" then return .slice first
  let last ← g.value {}
  if ← mark? false ":" then
    let cap ← g.value {}
    mark "]"
    return .slice (first ++ [last.as .stop, cap.as .capacity])
  else
    mark "]"
    return .slice (first ++ [last.as .stop])

/-- What stands in brackets, after the opening bracket. -/
def brackets : Parser Brackets := do
  if ← mark? false ":" then sliceBounds g []
  else
    let p ← g.expr {}
    if ← mark? false ":" then sliceBounds g [← ofOption p.expr]
    else if ← mark? false "," then
      let (rest, comma) ← closedList (g.expr {}) "]" g.fuel []
      return .args (p :: rest) (comma || rest.isEmpty)
    else
      mark "]"
      return .args [p] false

/-- The operand `p` indexed by the only argument. -/
def indexed? (p : Phrase) (args : List Phrase) (comma : Bool) : Option ParseTree :=
  match args, comma with
  | [a], false => do
    return branch .indexExpression p.spot [(← p.expr).as .operand, (← a.expr).as .index]
  | _, _ => none

/-- The name `p` applied to arguments that are all types. -/
def appliedType? (p : Phrase) (args : List Phrase) : Option ParseTree :=
  if p.named && args.all (·.elem) then p.type.map (genericType p.spot) else none

/-- The operand `p` instantiated with types: the construct with the types as its parts. -/
def instance? (p : Phrase) (args : List Phrase) : Option ParseTree := do
  let t ← p.type
  let types ← args.mapM (·.type)
  return branch .other p.spot (t.as .type :: types)

/-- `p[a, b]`, not called: an instance when it cannot be an index expression, or holds an instance.
-/
def bracketed (p : Phrase) (args : List Phrase) (comma : Bool) : Phrase :=
  let applied := appliedType? p args
  let index := indexed? p args comma
  let inst := instance? p args
  let instantiates := index.isNone || p.applied || args.any (·.applied)
  { spot := p.spot
    expr := if instantiates then inst <|> index else index
    type := applied
    applied := applied.isSome
    braces := if applied.isSome then .named else .never }

/-- `p[a, b](x)`, a conversion or the call of an instance, whose brackets are dropped. -/
def bracketedCall (p : Phrase) (args : List Phrase) (comma : Bool)
    (callArgs : List (ParseTree × Bool)) : Parser Phrase := do
  let converted := do
    return conversionNode p.spot (← appliedType? p args) (← plainArg? callArgs)
  let fn := if args.all (·.elem) then p.expr else indexed? p args comma
  let called := fn.map fun fn => callNode p.spot fn (callArgs.map Prod.fst)
  return .ofExpr p.spot (← ofOption (converted <|> called))

/-! ## Operands -/

/-- The words that are constants in the place of an operand. -/
def constantWords : List String := ["nil", "true", "false", "iota"]

/-- Words that are never types in the place of an operand. -/
def ownWords : List String := constantWords ++ ["new", "make"]

/-- A function literal or a function type, after its keyword. -/
def funcPhrase (spot : Spot) : Parser Phrase := do
  let ps ← params g
  let rs ← results g false
  match ← peek false with
  | some (.mark "\x7b") =>
    let body ← g.block
    return .ofExpr spot
      (branch .funcLiteral spot (ps.as .parameters :: rs ++ [body.as .body]))
  | _ => return .ofType spot (funcType spot ps rs)

/-- An operand that starts with a word. -/
def wordPhrase (m : Mode) (w : String) (spot : Spot) : Parser Phrase := do
  match w with
  | "func" => funcPhrase g spot
  | "struct" | "map" => return .ofType spot (← wordType g false w spot) .always
  | "chan" | "interface" => return .ofType spot (← wordType g false w spot)
  | w =>
    if constantWords.contains w then return .ofExpr spot (leaf .constant spot w)
    else if ownWords.contains w then
      if (← peek m.newline) = some (.mark "(") then specialCall g spot w
      else return .ofExpr spot (leaf .identifier spot w)
    else return .ofIdent spot w

/-- An array or slice type, or a literal of an array whose length its elements give. -/
def arrayPhrase (spot : Spot) : Parser Phrase := do
  let counted : Parser Unit := do
    mark "["
    mark "..."
    mark "]"
  match ← fun s => some (counted s, s) with
  | some _ =>
    counted
    let t ← g.type false
    mark "\x7b"
    let type := branch .implicitLengthArrayType spot [t.as .element]
    return .ofExpr spot (compositeNode spot type (← g.elements))
  | none => return .ofType spot (← g.type false) .always

/-- An operand. -/
def operand (m : Mode) : Parser Phrase := do
  let spot ← here
  match ← peek false with
  | some (.lit kind text) =>
    let _ ← next
    return .ofExpr spot (leaf (.literal kind) spot text)
  | some (.word w) =>
    let _ ← next
    wordPhrase g m w spot
  | some (.mark "(") =>
    mark "("
    let p ← g.expr {}
    mark ")"
    return p.paren spot
  | some (.mark "[") => arrayPhrase g spot
  | some (.mark "~") => return .ofType spot (← g.type false)
  | _ => fail

/-! ## Suffixes -/

/-- The next lexemes are those of a type switch: `.(type`. -/
def guardAhead (visible : Bool) : Parser Bool := fun s =>
  match view visible s with
  | dot :: rest =>
    match dot.token, skipNewlines rest with
    | .mark ".", ⟨.mark "(", _⟩ :: rest =>
      match skipNewlines rest with
      | ⟨.word "type", _⟩ :: _ => some (true, s)
      | _ => some (false, s)
    | _, _ => some (false, s)
  | [] => some (false, s)

/-- A selector or a type assertion, after its dot. -/
def dotted (p : Phrase) : Parser Phrase := do
  let x ← ofOption p.expr
  if ← mark? false "(" then
    let t ← g.type false
    mark ")"
    return .ofExpr p.spot
      (branch .typeAssertionExpression p.spot [x.as .operand, t.as .type])
  else
    let (field, spot) ← wordAt
    let selected := branch .selectorExpression p.spot
      [x.as .operand, (leaf .fieldIdentifier spot field).as .field]
    if p.isWord then
      return { spot := p.spot, expr := some selected
               type := some (qualifiedType p.spot x.text field), named := true, braces := .named }
    else return .ofExpr p.spot selected

/-- A phrase with brackets after it, after the opening bracket. -/
def afterBracket (m : Mode) (p : Phrase) : Parser Phrase := do
  match ← brackets g with
  | .slice bounds =>
    let x ← ofOption p.expr
    return .ofExpr p.spot (branch .sliceExpression p.spot (x.as .operand :: bounds))
  | .args args comma =>
    if ← mark? m.newline "(" then bracketedCall p args comma (← callArgs g)
    else
      let q := bracketed p args comma
      require q.readable
      return q

/-- Can the phrase be the type of a literal here? -/
def takesBraces (m : Mode) (p : Phrase) : Bool :=
  match p.braces with
  | .never => false
  | .named => !m.block
  | .always => true

/-- A phrase and all that follows it as a part of the operand. -/
def suffixes (m : Mode) : (fuel : Nat) → Phrase → Parser Phrase
  | 0, _ => fail
  | fuel + 1, p => do
    match ← peek m.newline with
    | some (.mark ".") =>
      if m.guard && (← guardAhead m.newline) then return p
      mark "."
      suffixes m fuel (← dotted g p)
    | some (.mark "[") =>
      mark "["
      suffixes m fuel (← afterBracket g m p)
    | some (.mark "(") =>
      mark "("
      suffixes m fuel (← callPhrase p (← callArgs g))
    | some (.mark "\x7b") =>
      if takesBraces m p then
        mark "\x7b"
        let t ← ofOption p.type
        suffixes m fuel (.ofExpr p.spot (compositeNode p.spot t (← g.elements)))
      else return p
    | _ => return p

/-! ## Operators -/

def unaryMarks : List String := ["&", "*", "<-", "+", "-", "!", "^"]

/-- A mark of two characters that is no operator here is taken for two marks. -/
def splitMark (spot : Spot) (a b : String) (rest : List Lexeme) : String × List Lexeme :=
  (a, ⟨.mark b, ⟨spot.line, spot.column + 1⟩⟩ :: rest)

/-- The mark at the front, in the place of a unary operator. -/
def unaryAt? (s : List Lexeme) : Option (String × List Lexeme) :=
  match skipNewlines s with
  | l :: rest =>
    match l.token with
    | .mark "&&" => some (splitMark l.spot "&" "&" rest)
    | .mark "&^" => some (splitMark l.spot "&" "^" rest)
    | .mark "++" => some (splitMark l.spot "+" "+" rest)
    | .mark "--" => some (splitMark l.spot "-" "-" rest)
    | .mark "<-" =>
      -- A channel type, and no operator.
      match skipNewlines rest with
      | ⟨.word "chan", _⟩ :: _ => none
      | _ => some ("<-", rest)
    | .mark m => some (m, rest)
    | _ => none
  | [] => none

/-- Take a unary operator if one comes next. -/
def unaryOp? : Parser (Option String) := fun s =>
  match unaryAt? s with
  | some (op, rest) => if unaryMarks.contains op then some (some op, rest) else some (none, s)
  | none => some (none, s)

/-- An operand with all that follows it. A channel type may start with an arrow. -/
def primary (m : Mode) : Parser Phrase := do
  let spot ← here
  let arrow : Bool := (← peek false) = some (.mark "<-")
  let p ← if arrow then pure (Phrase.ofType spot (← g.type false)) else operand g m
  suffixes g m g.fuel p

/-- A unary expression. -/
def unary : (fuel : Nat) → Mode → Parser Phrase
  | 0, _ => fail
  | fuel + 1, m => do
    let spot ← here
    match ← unaryOp? with
    | none => primary g m
    | some op =>
      let p ← unary fuel { m with guard := false }
      if op = "*" then
        let q := p.deref spot
        require q.readable
        return q
      else return .ofExpr spot (Phrase.unaryNode spot op (← ofOption p.expr))

/-- The precedence of a binary operator; a higher one binds closer. -/
def precedence : String → Option Nat
  | "*" | "/" | "%" | "<<" | ">>" | "&" | "&^" => some 5
  | "+" | "-" | "|" | "^" => some 4
  | "==" | "!=" | "<" | "<=" | ">" | ">=" => some 3
  | "&&" => some 2
  | "||" => some 1
  | _ => none

/-- The binary operator at the front. -/
def binaryAt? (m : Mode) (s : List Lexeme) : Option (String × List Lexeme) :=
  match view m.newline s with
  | l :: rest =>
    match l.token with
    | .mark "<-" => if m.effect then none else some (splitMark l.spot "<" "-" rest)
    | .mark "++" => if m.effect then none else some (splitMark l.spot "+" "+" rest)
    | .mark "--" => if m.effect then none else some (splitMark l.spot "-" "-" rest)
    | .mark op => some (op, rest)
    | _ => none
  | [] => none

/-- The phrases `p` and `q` with a binary operator between them. It can be read as a union of types
if both can. -/
def binary (op : String) (p q : Phrase) : Phrase :=
  { spot := p.spot
    expr := do
      return branch .binaryExpression p.spot
        [(← p.expr).as .left, (markNode q.spot op).as .operator, (← q.expr).as .right]
    elem := p.elem && op = "|" && q.elem }

/-- The rest of a chain of operators of one precedence, whose operands `rule` reads, after `p`. -/
def moreOperands (m : Mode) (prec : Nat) (rule : Parser Phrase) :
    (fuel : Nat) → Phrase → Parser Phrase
  | 0, _ => fail
  | fuel + 1, p => fun s =>
    match binaryAt? m s with
    | some (op, rest) =>
      if precedence op = some prec then
        match rule rest with
        | some (q, rest) => moreOperands m prec rule fuel (binary op p q) rest
        | none => none
      else some (p, s)
    | none => some (p, s)

/-- Does an operator of the given precedence come next? -/
def operatorAhead (m : Mode) (prec : Nat) : Parser Bool := fun s =>
  some ((binaryAt? m s).any fun (op, _) => precedence op = some prec, s)

/-- An expression whose operators have a precedence above `5 - k`. -/
def level : (k : Nat) → Mode → Parser Phrase
  | 0, m => unary g g.fuel m
  | k + 1, m => do
    let p ← level k m
    if ← operatorAhead m (5 - k) then
      let rule := level k { m with guard := false }
      let q ← moreOperands m (5 - k) rule g.fuel p
      require q.readable
      return q
    else return p

/-- An expression, or a bare type. -/
def exprRule (m : Mode) : Parser Phrase := level g 5 m

end Grammar

end GoCalls
