import GoCalls.Source.Grammar.Parser

/-!
# The grammar of types

Types, lists of parameters, struct and interface types, lists of type parameters. Lengths of arrays
and arguments of types are read, and left out of the tree.
-/

namespace GoCalls.Grammar

open GoCalls.Parser GoCalls.ParseTree

variable (g : Grammar)

/-! ## Named types -/

/-- A type, or several with bars between them. -/
def typeElem : Parser (List ParseTree) := do
  moreBars false (g.type false) g.fuel [← g.type false]

/-- The arguments of a generic type, after the opening bracket; they are dropped. -/
def typeArgs : Parser Unit := do
  let (args, _) ← closedList (typeElem g) "]" g.fuel []
  require !args.isEmpty

/-- A type with the name `w`. -/
def typeName (spot : Spot) (w : String) : ParseTree := leaf .typeIdentifier spot w

/-- The type `name` of the package `package`. -/
def qualifiedType (spot : Spot) (package name : String) : ParseTree :=
  branch .qualifiedType spot
    [(leaf .packageIdentifier spot package).as .package, (typeName spot name).as .name]

/-- An instance of a generic type. -/
def genericType (spot : Spot) (head : ParseTree) : ParseTree :=
  branch .genericType spot [head.as .type]

/-- The rest of a named type that starts with the word `w`. -/
def namedType (visible : Bool) (w : String) (spot : Spot) : Parser ParseTree := do
  let head ← if ← mark? visible "." then pure (qualifiedType spot w (← word))
    else pure (typeName spot w)
  if ← mark? visible "[" then
    typeArgs g
    return genericType spot head
  else return head

/-! ## Parameters -/

/-- The words that start a type literal. -/
def typeWords : List String := ["func", "map", "chan", "struct", "interface"]

/-- A word as the name of something. -/
def nameNode (kind : Kind) (word : String × Spot) : ParseTree :=
  (leaf kind word.2 word.1).as .name

/-- An entry of a list of parameters. -/
inductive Entry
  /-- A word that is a type, or a name with the type of a later entry. -/
  | bare (word : String × Spot)
  | named (name : String × Spot) (type : ParseTree)
  | variadic (name : Option (String × Spot)) (type : ParseTree)
  | type (type : ParseTree)

/-- An entry that starts with the word `w`, which starts no type literal. -/
def wordEntry (w : String) (spot : Spot) : Parser Entry := do
  match ← peek false with
  | some (.mark "...") =>
    mark "..."
    return .variadic (w, spot) (← g.type false)
  | some (.mark ",") | some (.mark ")") => return .bare (w, spot)
  | some (.mark ".") => return .type (← namedType g false w spot)
  | some (.mark "[") =>
    orElse (do return .named (w, spot) (← g.type false))
      (do return .type (← namedType g false w spot))
  | _ => return .named (w, spot) (← g.type false)

def entry : Parser Entry := do
  match ← peek false with
  | some (.mark "...") =>
    mark "..."
    return .variadic none (← g.type false)
  | some (.word w) =>
    if typeWords.contains w then return .type (← g.type false)
    else
      let (w, spot) ← wordAt
      wordEntry g w spot
  | _ => return .type (← g.type false)

/-- Parameters of one type. -/
def paramNode (kind : Kind) (names : List (String × Spot)) (type : ParseTree) : ParseTree :=
  branch kind type.spot (names.map (nameNode .identifier) ++ [type.as .type])

/-- A parameter without a name. -/
def bareParam (word : String × Spot) : ParseTree :=
  paramNode .parameterDeclaration [] (typeName word.2 word.1)

/-- The parameters for which a list of entries stands, after the bare words `words` in reverse. -/
def groupEntries (words : List (String × Spot)) : List Entry → List ParseTree
  | [] => words.reverse.map bareParam
  | .bare word :: rest => groupEntries (word :: words) rest
  | .named name t :: rest =>
    paramNode .parameterDeclaration (words.reverse ++ [name]) t :: groupEntries [] rest
  | .variadic name t :: rest =>
    words.reverse.map bareParam ++
      paramNode .variadicParameterDeclaration name.toList t :: groupEntries [] rest
  | .type t :: rest =>
    words.reverse.map bareParam ++ paramNode .parameterDeclaration [] t :: groupEntries [] rest

/-- A list of parameters in parentheses. -/
def params : Parser ParseTree := do
  let spot ← here
  mark "("
  let (entries, _) ← closedList (entry g) ")" g.fuel []
  return branch .parameterList spot (groupEntries [] entries)

/-- Does the token start a type without parentheses? -/
def startsType : Token → Bool
  | .word _ | .mark "*" | .mark "[" | .mark "<-" | .mark "~" => true
  | _ => false

/-- The results of a function: a list in parentheses, one type, or none. -/
def results (visible : Bool) : Parser (List ParseTree) := do
  match ← peek visible with
  | some (.mark "(") => return [(← params g).as .result]
  | some t => if startsType t then return [(← g.type visible).as .result] else return []
  | none => return []

/-- A function type with its parameters and results. -/
def funcType (spot : Spot) (params : ParseTree) (results : List ParseTree) : ParseTree :=
  branch .functionType spot (params.as .parameters :: results)

/-! ## Struct and interface types -/

/-- Can the token follow a field of a struct type? -/
def endsField : Option Token → Bool
  | some .newline | some .nul | some (.mark ";") | some (.mark "\x7d") | some (.lit .string _)
  | none => true
  | _ => false

/-- Fields of one type. -/
def fieldNode (names : List (String × Spot)) (type : ParseTree) : ParseTree :=
  branch .fieldDeclaration type.spot (names.map (nameNode .fieldIdentifier) ++ [type.as .type])

/-- A field that starts with the word `w`. -/
def wordField (w : String) (spot : Spot) : Parser ParseTree := do
  let t ← peek true
  if endsField t then return fieldNode [] (typeName spot w)
  match t with
  | some (.mark ",") =>
    let names ← moreCommas false wordAt g.fuel [(w, spot)]
    return fieldNode names (← g.type true)
  | some (.mark ".") => return fieldNode [] (← namedType g true w spot)
  | some (.mark "[") =>
    orElse
      (do
        let embedded ← namedType g true w spot
        require (endsField (← peek true))
        return fieldNode [] embedded)
      (do return fieldNode [(w, spot)] (← g.type true))
  | _ => return fieldNode [(w, spot)] (← g.type true)

/-- The fields of one line of a struct type, with a tag that is dropped. -/
def structField : Parser ParseTree := do
  let star ← here
  let field ← if ← mark? false "*" then do
      let (w, spot) ← wordAt
      let type ← namedType g true w spot
      pure (branch .fieldDeclaration star [markNode star "*", type.as .type])
    else do
      let (w, spot) ← wordAt
      wordField g w spot
  match ← peek true with
  | some (.lit .string _) =>
    let _ ← next
    return field
  | _ => return field

/-- An element of an interface type: a method, or a union of types. -/
def interfaceElem : Parser ParseTree := do
  let isMethod : Parser Unit := do
    let w ← word
    require !(typeWords.contains w)
    require (← mark? true "(")
  match ← fun s => some (isMethod s, s) with
  | some _ =>
    let name ← wordAt
    let _ ← params g
    let _ ← results g true
    return branch .methodElem name.2 [nameNode .fieldIdentifier name]
  | none =>
    let spot ← here
    return branch .other spot (← moreBars true (g.type true) g.fuel [← g.type true])

/-! ## Types -/

/-- A type that starts with the word `w`. -/
def wordType (visible : Bool) (w : String) (spot : Spot) : Parser ParseTree := do
  match w with
  | "map" =>
    mark "["
    let key ← g.type false
    mark "]"
    return branch .mapType spot [key.as .key, (← g.type visible).as .value]
  | "chan" =>
    let _ ← mark? false "<-"
    return branch .channelType spot [(← g.type visible).as .value]
  | "func" =>
    let ps ← params g
    return funcType spot ps (← results g visible)
  | "struct" =>
    mark "\x7b"
    let fields ← bracedLines (structField g) g.fuel []
    return branch .structType spot [branch .fieldDeclarationList spot fields]
  | "interface" =>
    mark "\x7b"
    return branch .interfaceType spot (← bracedLines (interfaceElem g) g.fuel [])
  | w => namedType g visible w spot

/-- A type; the flag tells whether a newline is visible after it. -/
def typeRule (visible : Bool) : Parser ParseTree := do
  let l ← next
  match l.token with
  | .word w => wordType g visible w l.spot
  | .mark "(" =>
    let t ← g.type false
    mark ")"
    return branch .parenthesizedType l.spot [t]
  | .mark "*" => return branch .pointerType l.spot [← g.type visible]
  | .mark "~" => return branch .other l.spot [← g.type visible]
  | .mark "<-" =>
    keyword "chan"
    return branch .channelType l.spot [(← g.type visible).as .value]
  | .mark "[" =>
    if ← mark? false "]" then
      return branch .sliceType l.spot [(← g.type visible).as .element]
    else
      let _ ← g.value {}
      mark "]"
      return branch .arrayType l.spot [(← g.type visible).as .element]
  | _ => fail

/-! ## Type parameters -/

/-- Type parameters with one constraint. -/
def typeParam : Parser ParseTree := do
  let first ← wordAt
  let names ← moreCommas false wordAt g.fuel [first]
  let spot ← here
  let bound ← typeElem g
  return branch .other first.2
    (names.map (nameNode .identifier) ++ [(branch .other spot bound).as .type])

/-- A list of type parameters in brackets. -/
def typeParams : Parser ParseTree := do
  let spot ← here
  mark "["
  let (decls, _) ← closedList (typeParam g) "]" g.fuel []
  require !decls.isEmpty
  return branch .other spot decls

/-- The specification of a type, where brackets hold the length of an array if they can. -/
def typeSpec : Parser ParseTree := do
  let name ← wordAt
  let spec (kind : Kind) (params : List ParseTree) (type : ParseTree) : ParseTree :=
    branch kind name.2 (nameNode .typeIdentifier name :: params ++ [type.as .type])
  match ← peek false with
  | some (.mark "=") =>
    mark "="
    return spec .typeAlias [] (← g.type true)
  | some (.mark "[") =>
    orElse (do return spec .typeSpec [] (← g.type true))
      (do
        let ps ← typeParams g
        return spec .typeSpec [ps.as .other] (← g.type true))
  | _ => return spec .typeSpec [] (← g.type true)

/-- The specifications of a type declaration, after its keyword. -/
def typeSpecs : Parser (List ParseTree) := do
  if ← mark? false "(" then specLines (typeSpec g) g.fuel [] else return [← typeSpec g]

end GoCalls.Grammar
