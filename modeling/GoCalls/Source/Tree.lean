import GoCalls.Source.Lexeme

/-!
# Parse trees

A parse tree is what a parser makes of a source text. A node has a kind, the field of its parent that
it belongs to, the place where it starts, its text, and its children. Nothing is assumed about which
children a node of some kind has: where a text is broken, a parser still gives a tree, with nodes for
what does not fit or is missing.

* `Kind`, `FieldName`: the kinds of nodes and the fields that are told apart.
* `ParseTree`: a node with all that lies below it.
* `ParseTree.syntaxErrors`: the places where a text is broken.
* `ParseTree.Below`: the nodes below a node, and the ways from a node to those below it.
-/

namespace GoCalls

/-- The kinds of nodes. -/
inductive Kind
  | sourceFile
  | packageClause
  | importDeclaration
  | importSpec
  | importSpecList
  | functionDeclaration
  | methodDeclaration
  | typeDeclaration
  | typeSpec
  | typeAlias
  | varDeclaration
  | varSpec
  | varSpecList
  | constDeclaration
  | constSpec
  | parameterList
  | parameterDeclaration
  | variadicParameterDeclaration
  | typeIdentifier
  | qualifiedType
  | genericType
  | pointerType
  | parenthesizedType
  | sliceType
  | arrayType
  | implicitLengthArrayType
  | mapType
  | channelType
  | functionType
  | structType
  | fieldDeclarationList
  | fieldDeclaration
  | interfaceType
  | methodElem
  | methodSpec
  | statementList
  | expressionStatement
  | assignmentStatement
  | shortVarDeclaration
  | goStatement
  | deferStatement
  | returnStatement
  | block
  | ifStatement
  | forStatement
  | forClause
  | rangeClause
  | expressionSwitchStatement
  | expressionCase
  | defaultCase
  | typeSwitchStatement
  | typeSwitchGuard
  | typeCase
  | selectStatement
  | communicationCase
  | sendStatement
  | receiveStatement
  | incStatement
  | decStatement
  | labeledStatement
  | labelName
  | expressionList
  | identifier
  | fieldIdentifier
  | packageIdentifier
  /-- One of the words `true`, `false`, `nil` and `iota`. -/
  | constant
  | literal (kind : LitKind)
  | selectorExpression
  | callExpression
  | typeConversionExpression
  | funcLiteral
  | compositeLiteral
  | literalValue
  | literalElement
  | keyedElement
  | unaryExpression
  | binaryExpression
  | indexExpression
  | sliceExpression
  | typeAssertionExpression
  | parenthesizedExpression
  | comment
  /-- Text that does not fit. -/
  | error
  /-- A keyword, an operator or another mark, which has no name as a node. -/
  | mark (text : String)
  /-- All other kinds. -/
  | other
  deriving DecidableEq

namespace Kind

def isNamed : Kind → Bool
  | .mark _ => false
  | _ => true

/-- Is it the kind of a type? -/
def isType : Kind → Bool
  | .typeIdentifier | .qualifiedType | .pointerType | .genericType | .sliceType | .arrayType
  | .implicitLengthArrayType | .mapType | .channelType | .functionType | .structType
  | .interfaceType | .parenthesizedType => true
  | _ => false

/-- Is it the kind of a list of specifications? -/
def isSpecList : Kind → Bool
  | .importSpecList | .varSpecList => true
  | _ => false

end Kind

/-- The fields of nodes. -/
inductive FieldName
  | alias
  | alternative
  | arguments
  | body
  | capacity
  | channel
  | communication
  | condition
  | consequence
  | element
  | field
  | function
  | index
  | initializer
  | key
  | left
  | name
  | operand
  | operator
  | package
  | parameters
  | path
  | receiver
  | result
  | right
  | start
  /-- The upper bound of a slice. -/
  | stop
  | type
  | update
  | value
  /-- All other fields. -/
  | other
  deriving DecidableEq

/-- What a node is apart from its children. -/
structure NodeInfo where
  kind : Kind
  field : Option FieldName := none
  spot : Spot := {}
  text : String := ""
  /-- Is the node made up, because the text lacks it? -/
  isMissing : Bool := false

inductive ParseTree
  | node (info : NodeInfo) (children : List ParseTree)

namespace ParseTree

def info : ParseTree → NodeInfo
  | .node info _ => info

def children : ParseTree → List ParseTree
  | .node _ children => children

def kind (t : ParseTree) : Kind := t.info.kind

def field (t : ParseTree) : Option FieldName := t.info.field

def spot (t : ParseTree) : Spot := t.info.spot

def text (t : ParseTree) : String := t.info.text

/-! ## Building trees -/

/-- A node with children. -/
def branch (kind : Kind) (spot : Spot) (children : List ParseTree) : ParseTree :=
  .node { kind, spot } children

/-- A node with a text. -/
def leaf (kind : Kind) (spot : Spot) (text : String) : ParseTree := .node { kind, spot, text } []

/-- A mark. -/
def markNode (spot : Spot) (text : String) : ParseTree := leaf (.mark text) spot text

/-- The node as the given field of its parent. -/
def as (t : ParseTree) (f : FieldName) : ParseTree :=
  .node { t.info with field := some f } t.children

/-! ## Broken texts -/

/-- A node for what does not fit or is missing. -/
def isBroken (t : ParseTree) : Bool := t.info.isMissing || t.kind = .error

mutual

/-- The places of the topmost broken nodes. Nodes to look at are kept on a stack. -/
def brokenSpots : ParseTree → List Spot
  | .node info children =>
    if (ParseTree.node info children).isBroken then [info.spot] else brokenSpotsIn children

def brokenSpotsIn : List ParseTree → List Spot
  | [] => []
  | t :: ts => brokenSpotsIn ts ++ t.brokenSpots

end

/-- Is some node broken? -/
def hasError (t : ParseTree) : Bool := !t.brokenSpots.isEmpty

/-- The places where the text is broken, in its order. -/
def syntaxErrors (t : ParseTree) : List Spot := t.brokenSpots.mergeSort Spot.le

/-! ## Nodes below a node -/

/-- A node lies below `root`. -/
inductive IsBelow (root : ParseTree) : ParseTree → Prop
  | child {t : ParseTree} (h : t ∈ root.children) : IsBelow root t
  | inner {t u : ParseTree} (below : IsBelow root t) (h : u ∈ t.children) : IsBelow root u

theorem sizeOf_lt_of_mem {t root : ParseTree} (h : t ∈ root.children) : sizeOf t < sizeOf root := by
  obtain ⟨info, children⟩ := root
  have hlt := List.sizeOf_lt_of_mem h
  rw [ParseTree.children] at hlt
  rw [ParseTree.node.sizeOf_spec]
  omega

theorem IsBelow.sizeOf_lt {root t : ParseTree} (h : root.IsBelow t) : sizeOf t < sizeOf root := by
  induction h with
  | child h => exact sizeOf_lt_of_mem h
  | inner _ h ih => exact Nat.lt_trans (sizeOf_lt_of_mem h) ih

/-- A node below `root`. -/
structure Below (root : ParseTree) where
  tree : ParseTree
  isBelow : root.IsBelow tree

/-- The children of a node. -/
def parts (root : ParseTree) : List root.Below :=
  root.children.attach.map fun t => ⟨t.1, .child t.2⟩

theorem mem_children {root : ParseTree} {t : root.Below} (h : t ∈ root.parts) :
    t.tree ∈ root.children := by
  obtain ⟨u, -, rfl⟩ := List.mem_map.mp h
  exact u.2

namespace Below

variable {root : ParseTree}

def kind (t : root.Below) : Kind := t.tree.kind

def field (t : root.Below) : Option FieldName := t.tree.field

def text (t : root.Below) : String := t.tree.text

/-- The children of a node below another one. -/
def parts (t : root.Below) : List root.Below :=
  t.tree.children.attach.map fun u => ⟨u.1, .inner t.isBelow u.2⟩

theorem mem_inner {t u : root.Below} (h : u ∈ t.parts) : u.tree ∈ t.tree.children := by
  obtain ⟨v, -, rfl⟩ := List.mem_map.mp h
  exact v.2

theorem sizeOf_lt_of_mem_parts {t u : root.Below} (h : u ∈ t.parts) :
    sizeOf u.tree < sizeOf t.tree :=
  sizeOf_lt_of_mem (mem_inner h)

end Below

section

variable {root : ParseTree} (parts : List root.Below)

/-- The nodes with a name as a kind, without comments. -/
def named : List root.Below := parts.filter fun t => t.kind.isNamed && t.kind ≠ .comment

/-- The named nodes that belong to no field. -/
def unfielded : List root.Below := (named parts).filter fun t => t.field.isNone

/-- The nodes of a field, without comments. -/
def fieldNodes (f : FieldName) : List root.Below :=
  parts.filter fun t => t.field = some f && t.kind ≠ .comment

/-- The first node of a field. -/
def field? (f : FieldName) : Option root.Below := parts.find? fun t => t.field = some f

def hasMark (text : String) : Bool := parts.any fun t => t.kind = .mark text

end

variable {root : ParseTree} {parts : List root.Below} {t : root.Below}

theorem mem_of_mem_named (h : t ∈ named parts) : t ∈ parts := (List.mem_filter.mp h).1

theorem mem_of_field? {f : FieldName} (h : field? parts f = some t) : t ∈ parts :=
  List.mem_of_find?_eq_some h

end ParseTree

end GoCalls
