import GoCalls.Source.Grammar.Exprs
import GoCalls.Source.Scan

/-!
# The grammar of statements and files

* `stmtRule`: a statement; `blockRule`: a block; `stmtList`: the statements of a block or a clause.
* `items`: what stands at the top level of a file.
* `Grammar.ofFuel`: the rules tied together; `parse?`: the tree of a list of lexemes.
* `parseSource`: the tree of a text.

A newline ends a statement only where the statement can end, so the first rule to look at a newline
decides what it means.
-/

namespace GoCalls.Grammar

open GoCalls.Parser GoCalls.ParseTree

variable (g : Grammar)

/-! ## Variables and constants -/

/-- Expressions with commas between them; only the first may have an effect. -/
def exprs (m : Mode) : Parser (List ParseTree) := do
  let first ← g.value m
  moreCommas m.newline (g.value { m with effect := false }) g.fuel [first]

/-- A list of expressions as a node. -/
def listNode (spot : Spot) (xs : List ParseTree) : ParseTree := branch .expressionList spot xs

/-- A list of expressions. -/
def exprList (m : Mode) : Parser ParseTree := do
  let spot ← here
  return listNode spot (← exprs g m)

/-- The mode of an expression that ends with its line. -/
def lineMode : Mode := { newline := true }

/-- The specification of variables. -/
def varSpec : Parser ParseTree := do
  let first ← wordAt
  let names := (← moreCommas false wordAt g.fuel [first]).map (nameNode .identifier)
  let spec (parts : List ParseTree) : ParseTree := branch .varSpec first.2 (names ++ parts)
  if ← mark? false "=" then return spec [(← exprList g lineMode).as .value]
  let t ← g.type true
  if ← mark? true "=" then return spec [t.as .type, (← exprList g lineMode).as .value]
  else return spec [t.as .type]

/-- The specification of constants; it may be the names alone. The commas between names belong to the
field for names too. -/
def constSpec : Parser ParseTree := do
  let first ← wordAt
  let names := (← moreCommas true wordAt g.fuel [first]).map (nameNode .identifier)
  let spec (parts : List ParseTree) : ParseTree :=
    branch .constSpec first.2 (names.intersperse ((markNode first.2 ",").as .name) ++ parts)
  if ← mark? true "=" then return spec [(← exprList g lineMode).as .value]
  match ← peek true with
  | some t =>
    if startsType t || t = .mark "(" then
      let t ← g.type false
      mark "="
      return spec [t.as .type, (← exprList g lineMode).as .value]
    else return spec []
  | none => return spec []

/-- A declaration of variables, after its keyword. -/
def varDecl (spot : Spot) : Parser ParseTree := do
  if ← mark? false "(" then
    let specs ← specLines (varSpec g) g.fuel []
    return branch .varDeclaration spot [branch .varSpecList spot specs]
  else return branch .varDeclaration spot [← varSpec g]

/-- A declaration of constants, after its keyword. -/
def constDecl (spot : Spot) : Parser ParseTree := do
  if ← mark? false "(" then
    return branch .constDeclaration spot (← specLines (constSpec g) g.fuel [])
  else return branch .constDeclaration spot [← constSpec g]

/-! ## Simple statements -/

/-- A simple statement: an expression, or something else. -/
inductive Simple
  | expr (x : ParseTree)
  | stmt (s : ParseTree)

def Simple.toStmt : Simple → ParseTree
  | .expr x => branch .expressionStatement x.spot [x]
  | .stmt s => s

def Simple.expr? : Simple → Option ParseTree
  | .expr x => some x
  | .stmt _ => none

def assignMarks : List String :=
  ["=", "+=", "-=", "*=", "/=", "%=", "<<=", ">>=", "&=", "&^=", "|=", "^="]

/-- The only member of a list. -/
def only {α : Type} : List α → Parser α
  | [a] => pure a
  | _ => fail

/-- A definition of new variables. -/
def defineNode (spot : Spot) (lhs : List ParseTree) (rhs : ParseTree) : ParseTree :=
  branch .shortVarDeclaration spot
    [(listNode spot lhs).as .left, markNode rhs.spot ":=", rhs.as .right]

/-- A send on a channel. -/
def sendNode (spot : Spot) (chan value : ParseTree) : ParseTree :=
  branch .sendStatement spot [chan.as .channel, value.as .value]

/-- The rest of a simple statement that starts with the expressions `lhs`; `rhs` is the mode of
what stands on the right. -/
def finishSimple (m rhs : Mode) (spot : Spot) (lhs : List ParseTree) : Parser Simple := do
  match ← peek m.newline with
  | some (.mark ":=") =>
    mark ":="
    return .stmt (defineNode spot lhs (← exprList g rhs))
  | some (.mark "<-") =>
    mark "<-"
    return .stmt (sendNode spot (← only lhs) (← g.value rhs))
  | some (.mark "++") =>
    mark "++"
    return .stmt (branch .incStatement spot [← only lhs])
  | some (.mark "--") =>
    mark "--"
    return .stmt (branch .decStatement spot [← only lhs])
  | some (.mark op) =>
    if assignMarks.contains op then
      mark op
      let values ← exprList g rhs
      return .stmt (branch .assignmentStatement spot
        [(listNode spot lhs).as .left, (markNode values.spot op).as .operator, values.as .right])
    else return .expr (← only lhs)
  | _ => return .expr (← only lhs)

/-- A simple statement. -/
def simple (m rhs : Mode) : Parser Simple := do
  let spot ← here
  finishSimple g m rhs spot (← exprs g { m with effect := true })

/-! ## Lists of statements -/

/-- Does the token end a list of statements? In a clause a keyword of the next one does. -/
def endsList (inClause : Bool) : Option Token → Bool
  | none | some (.mark "\x7d") => true
  | some (.word w) => inClause && (w = "case" || w = "default")
  | _ => false

/-- The label of a statement. -/
def labelNode (label : String × Spot) : ParseTree := (leaf .labelName label.2 label.1).as .other

/-- A label with its colon. -/
def label : Parser (String × Spot) := do
  let (w, spot) ← wordAt
  require !(ownWords.contains w || typeWords.contains w)
  require (← mark? true ":")
  return (w, spot)

/-- A label at the end of a list of statements. -/
def emptyLabel (inClause : Bool) : Parser ParseTree := do
  let l ← label
  require (endsList inClause (← peek false))
  return branch .labeledStatement l.2 [labelNode l]

/-- The statements up to the end of a block or clause, after the reversed list `found`. -/
def stmtList (inClause : Bool) : (fuel : Nat) → (found : List ParseTree) → Parser (List ParseTree)
  | 0, _ => fail
  | fuel + 1, found => fun s =>
    if endsList inClause ((skipNewlines s).head?.map (·.token)) then some (found.reverse, s)
    else
      match emptyLabel inClause s with
      | some (label, rest) => some ((label :: found).reverse, rest)
      | none =>
        match g.stmt s with
        | none => none
        | some (stmt, rest) =>
          match terminator? rest with
          | some (true, rest) => stmtList inClause fuel (stmt :: found) rest
          | _ => some ((stmt :: found).reverse, rest)

/-- A block, with its braces. -/
def blockRule : Parser ParseTree := do
  let spot ← here
  mark "\x7b"
  let body ← stmtList g false g.fuel []
  mark "\x7d"
  return branch .block spot body

/-! ## Conditions and loops -/

/-- The mode of a header, where a block follows. -/
def headerMode : Mode := { block := true }

/-- A statement with a condition, after its keyword. -/
def ifStmt (spot : Spot) : Parser ParseTree := do
  let first ← simple g headerMode {}
  let head ← if ← mark? false ";" then do
      pure [first.toStmt.as .initializer, (← g.value headerMode).as .condition]
    else do
      pure [(← ofOption first.expr?).as .condition]
  let body ← g.block
  let head := head ++ [body.as .consequence]
  if ← token? true (.word "else") then
    match ← peek false with
    | some (.word "if") | some (.mark "\x7b") =>
      return branch .ifStatement spot (head ++ [(← g.stmt).as .alternative])
    | _ => fail
  else return branch .ifStatement spot head

/-- The rest of a loop's header, after the first semicolon; `init` is what stands before it. -/
def clauseHeader (spot : Spot) (init : List ParseTree) : Parser (List ParseTree) := do
  let cond ← if ← mark? false ";" then pure []
    else do
      let x ← g.value {}
      mark ";"
      pure [x.as .condition]
  if (← peek false) = some (.mark "\x7b") then return [branch .forClause spot (init ++ cond)]
  else
    let update := (← simple g headerMode headerMode).toStmt
    return [branch .forClause spot (init ++ cond ++ [update.as .update])]

/-- The rest of a loop's header that starts with the expressions `lhs`. -/
def listHeader (spot : Spot) (lhs : List ParseTree) : Parser (List ParseTree) := do
  let rangeOf : Parser String := do
    let op := if ← mark? false ":=" then ":=" else "="
    require (op = ":=" || (← mark? false "="))
    keyword "range"
    return op
  match ← fun s => some (rangeOf s, s) with
  | some (op, _) =>
    let _ ← rangeOf
    let x ← g.value headerMode
    return [branch .rangeClause spot
      [(listNode spot lhs).as .left, markNode x.spot op, x.as .right]]
  | none =>
    let first ← finishSimple g headerMode {} spot lhs
    if ← mark? false ";" then clauseHeader g spot [first.toStmt.as .initializer]
    else return [← ofOption first.expr?]

/-- The header of a loop: a condition, a clause, or nothing. -/
def header : Parser (List ParseTree) := do
  let spot ← here
  match ← peek false with
  | some (.mark "\x7b") => return []
  | some (.mark ";") =>
    mark ";"
    clauseHeader g spot []
  | some (.word "range") =>
    keyword "range"
    return [branch .rangeClause spot [(← g.value headerMode).as .right]]
  | _ => listHeader g spot (← exprs g { headerMode with effect := true })

/-- A loop, after its keyword. -/
def forStmt (spot : Spot) : Parser ParseTree := do
  let head ← header g
  return branch .forStatement spot (head ++ [(← g.block).as .body])

/-! ## Switches -/

/-- The head of a switch, or what stands before its semicolon. -/
inductive Head
  | simple (s : Simple)
  /-- A type switch, with the expressions on the left of its binding. -/
  | types (targets : List ParseTree) (subject : ParseTree)

/-- The marks of a type switch, after its subject. -/
def typeGuard : Parser Unit := do
  mark "."
  mark "("
  keyword "type"
  mark ")"

/-- The head of a switch. -/
def switchHead : Parser Head := do
  let spot ← here
  let lhs ← exprs g { block := true, effect := true, guard := true }
  if ← guardAhead false then
    typeGuard
    return .types [] (← only lhs)
  else if ← mark? false ":=" then
    let right ← here
    let rhs ← exprs g { guard := true }
    if ← guardAhead false then
      typeGuard
      return .types [listNode spot lhs] (← only rhs)
    else return .simple (.stmt (defineNode spot lhs (listNode right rhs)))
  else return .simple (← finishSimple g headerMode {} spot lhs)

/-- The body of a clause, after its colon. -/
def clauseBody : Parser (List ParseTree) := do
  mark ":"
  stmtList g true g.fuel []

/-- The clauses of a kind in braces, after the opening one, whose guards `guardRule` reads. -/
def clauses (kind : Kind) (guardRule : Parser (List ParseTree)) :
    (fuel : Nat) → (found : List ParseTree) → Parser (List ParseTree)
  | 0, _ => fail
  | fuel + 1, found => do
    if ← mark? false "\x7d" then return found.reverse
    let spot ← here
    if ← token? false (.word "default") then
      let body ← clauseBody g
      clauses kind guardRule fuel (branch .defaultCase spot body :: found)
    else
      keyword "case"
      let head ← guardRule
      let body ← clauseBody g
      clauses kind guardRule fuel (branch kind spot (head ++ body) :: found)

/-- The types of a clause. The commas between them belong to the field for types too. -/
def caseTypes : (fuel : Nat) → (found : List ParseTree) → Parser (List ParseTree)
  | 0, _ => fail
  | fuel + 1, found => do
    let t ← g.type false
    let spot ← here
    let found := t.as .type :: found
    if ← mark? false "," then caseTypes fuel ((markNode spot ",").as .type :: found)
    else return found.reverse

/-- The clauses of a switch with a known head; `init` is what stands before it. -/
def switchBody (spot : Spot) (init : List ParseTree) (head : Option Head) : Parser ParseTree := do
  let exprCase : Parser (List ParseTree) := return [(← exprList g {}).as .value]
  match head with
  | none =>
    mark "\x7b"
    let cs ← clauses g .expressionCase exprCase g.fuel []
    return branch .expressionSwitchStatement spot (init ++ cs)
  | some (.simple s) =>
    let tag ← ofOption s.expr?
    mark "\x7b"
    let cs ← clauses g .expressionCase exprCase g.fuel []
    return branch .expressionSwitchStatement spot (init ++ tag.as .value :: cs)
  | some (.types targets subject) =>
    mark "\x7b"
    let cs ← clauses g .typeCase (caseTypes g g.fuel []) g.fuel []
    return branch .typeSwitchStatement spot
      (init ++ targets.map (·.as .alias) ++ subject.as .value :: cs)

/-- A switch or a type switch, after its keyword. -/
def switchStmt (spot : Spot) : Parser ParseTree := do
  if (← peek false) = some (.mark "\x7b") then switchBody g spot [] none
  else
    let head ← switchHead g
    match head with
    | .simple s =>
      if ← mark? false ";" then
        let init := [s.toStmt.as .initializer]
        if (← peek false) = some (.mark "\x7b") then switchBody g spot init none
        else switchBody g spot init (some (← switchHead g))
      else switchBody g spot [] (some head)
    | .types _ _ => switchBody g spot [] (some head)

/-! ## Communication -/

/-- A receive, with the part on its left if it assigns. -/
def receiveNode (spot : Spot) (left : List ParseTree) (x : ParseTree) : ParseTree :=
  branch .receiveStatement spot (left ++ [x.as .right])

/-- The communication of a clause: a send, or a receive that may assign. -/
def communication : Parser ParseTree := do
  let spot ← here
  let lhs ← exprs g { effect := true }
  let left (op : String) : List ParseTree := [(listNode spot lhs).as .left, markNode spot op]
  if ← mark? false "<-" then return sendNode spot (← only lhs) (← g.value {})
  else if ← mark? false ":=" then return receiveNode spot (left ":=") (← g.value {})
  else if ← mark? false "=" then return receiveNode spot (left "=") (← g.value {})
  else return receiveNode spot [] (← only lhs)

/-- A select statement, after its keyword. -/
def selectStmt (spot : Spot) : Parser ParseTree := do
  mark "\x7b"
  let comm : Parser (List ParseTree) := return [(← communication g).as .communication]
  return branch .selectStatement spot (← clauses g .communicationCase comm g.fuel [])

/-! ## Statements -/

/-- Can the token not start the results of a return statement? -/
def endsReturn : Option Token → Bool
  | none | some .newline | some .nul | some (.mark ";") | some (.mark "\x7d") => true
  | _ => false

/-- A statement that starts with no keyword of its own. -/
def plainStmt (spot : Spot) : Parser ParseTree := do
  match ← fun s => some (label s, s) with
  | some (l, _) =>
    let _ ← label
    return branch .labeledStatement spot [labelNode l, ← g.stmt]
  | none => return (← simple g { newline := true } lineMode).toStmt

/-- A jump, which may name a label on its line. -/
def jump (spot : Spot) : Parser ParseTree := do
  match ← peek true with
  | some (.word _) =>
    let label ← wordAt
    return branch .other spot [leaf .labelName label.2 label.1]
  | _ => return branch .other spot []

/-- A statement that starts with the word `w`, after that word. -/
def keywordStmt? (spot : Spot) (w : String) : Option (Parser ParseTree) :=
  match w with
  | "var" => some (varDecl g spot)
  | "const" => some (constDecl g spot)
  | "type" => some do return branch .typeDeclaration spot (← typeSpecs g)
  | "return" => some do
    if endsReturn (← peek true) then return branch .returnStatement spot []
    else return branch .returnStatement spot [← exprList g lineMode]
  | "go" => some do return branch .goStatement spot [← g.value lineMode]
  | "defer" => some do return branch .deferStatement spot [← g.value lineMode]
  | "if" => some (ifStmt g spot)
  | "for" => some (forStmt g spot)
  | "switch" => some (switchStmt g spot)
  | "select" => some (selectStmt g spot)
  | "break" | "continue" => some (jump spot)
  | "goto" => some do
    let label ← wordAt
    return branch .other spot [leaf .labelName label.2 label.1]
  | "fallthrough" => some (return branch .other spot [])
  | _ => none

/-- A statement. -/
def stmtRule : Parser ParseTree := do
  let spot ← here
  match ← peek false with
  | some (.mark "\x7b") => g.block
  | some (.mark ";") =>
    mark ";"
    return branch .other spot []
  | some (.word w) =>
    match keywordStmt? g spot w with
    | some rule =>
      let _ ← word
      rule
    | none => plainStmt g spot
  | _ => plainStmt g spot

/-! ## Files -/

/-- An import specification. -/
def importSpec : Parser ParseTree := do
  let spot ← here
  let localName ← match ← peek false with
    | some (.mark ".") => do
      mark "."
      pure [nameNode .other (".", spot)]
    | some (.word _) => do pure [nameNode .packageIdentifier (← wordAt)]
    | _ => pure []
  let l ← next
  match l.token with
  | .lit .string path =>
    return branch .importSpec spot (localName ++ [(leaf (.literal .string) l.spot path).as .path])
  | _ => fail

/-- The import specifications in parentheses, after the opening one. -/
def importSpecs : (fuel : Nat) → (found : List ParseTree) → Parser (List ParseTree)
  | 0, _ => fail
  | fuel + 1, found => do
    if ← mark? false ")" then return found.reverse
    let spec ← importSpec
    if ← terminator? then importSpecs fuel (spec :: found)
    else
      mark ")"
      return (spec :: found).reverse

/-- The rest of a function declaration, after its name; `front` is what stands before. -/
def funcRest (kind : Kind) (spot : Spot) (front : List ParseTree) : Parser ParseTree := do
  let ps ← params g
  let rs ← results g true
  let front := front ++ ps.as .parameters :: rs
  if (← peek true) = some (.mark "\x7b") then
    return branch kind spot (front ++ [(← g.block).as .body])
  else return branch kind spot front

/-- A function declaration with a name and no receiver. -/
def funcDecl (spot : Spot) : Parser ParseTree := do
  keyword "func"
  let name ← wordAt
  if (← peek false) = some (.mark "[") then
    let _ ← typeParams g
  funcRest g .functionDeclaration spot [nameNode .identifier name]

/-- A method declaration. -/
def methodDecl (spot : Spot) : Parser ParseTree := do
  keyword "func"
  let recv ← params g
  let name ← wordAt
  require ((← peek false) = some (.mark "("))
  funcRest g .methodDeclaration spot [recv.as .receiver, nameNode .fieldIdentifier name]

/-- What stands at top level. -/
def item : Parser ParseTree := do
  let spot ← here
  match ← peek false with
  | some (.word "package") =>
    keyword "package"
    let name ← wordAt
    return branch .packageClause spot [leaf .packageIdentifier name.2 name.1]
  | some (.word "import") =>
    keyword "import"
    if ← mark? false "(" then
      return branch .importDeclaration spot [branch .importSpecList spot (← importSpecs g.fuel [])]
    else return branch .importDeclaration spot [← importSpec]
  | some (.word "func") => orElse (funcDecl g spot) (orElse (methodDecl g spot) g.stmt)
  | _ => g.stmt

/-- All items up to the end of the lexemes, after the reversed list `found`. -/
def items : (fuel : Nat) → (found : List ParseTree) → Parser (List ParseTree)
  | 0, _ => fail
  | fuel + 1, found => fun s =>
    match skipNewlines s with
    | [] => some (found.reverse, [])
    | s =>
      match item g s with
      | none => none
      | some (i, rest) =>
        match terminator? rest with
        | some (true, rest) => items fuel (i :: found) rest
        | _ => none

/-! ## The whole grammar -/

/-- The rules, unfolded `n` times. -/
def ofFuel : (n : Nat) → Grammar
  | 0 =>
    { fuel := 0
      type := fun _ => fail
      expr := fun _ => fail
      elements := fail
      block := fail
      stmt := fail }
  | n + 1 =>
    { fuel := n
      type := fun visible s => typeRule (ofFuel n) visible s
      expr := fun m s => exprRule (ofFuel n) m s
      elements := fun s => elementsRule (ofFuel n) s
      block := fun s => blockRule (ofFuel n) s
      stmt := fun s => stmtRule (ofFuel n) s }

/-- The tree of a list of lexemes. Every few rules take a lexeme, which bounds their nesting. -/
def parse? (s : List Lexeme) : Option ParseTree :=
  let fuel := 4 * s.length + 16
  match items (ofFuel fuel) fuel [] s with
  | some (found, []) => some (branch .sourceFile {} found)
  | _ => none

end GoCalls.Grammar

namespace GoCalls

open ParseTree

/-- The tree of a text that the grammar refuses: its package clause, and one node for all else. -/
def brokenTree (text : String) : ParseTree :=
  let package := (Scan.leadingPackage? text.toList).map fun name =>
    branch .packageClause {} [leaf .packageIdentifier {} name]
  branch .sourceFile {} (package.toList ++ [branch .error {} []])

/-- The tree of a source text. -/
def parseSource (text : String) : ParseTree :=
  ((Scan.lexemes? text.toList).bind Grammar.parse?).getD (brokenTree text)

end GoCalls
