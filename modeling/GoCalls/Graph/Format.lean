import GoCalls.Graph
import GoCalls.Text.Blank
import GoCalls.Text.Quoted

/-!
# Graphs as texts

A graph can be written in two formats.

* `Graph.toDot`: for Graphviz, with a line for each node, then a line for each edge, whose style
  shows the kind of call.
* `Graph.toJson`: an object with the lists `nodes` and `edges`, indented by two spaces a level.
* `Format.render`: one of the two.
-/

namespace GoCalls

/-! ## The DOT language -/

/-- The style in which edges of a kind are drawn; direct calls have the default one. -/
def CallKind.dotStyle : CallKind → Option String
  | .direct => none
  | .closure => some "dashed"
  | .defer => some "dotted"
  | .go => some "bold"

namespace Dot

/-- A character inside quotes. -/
def quoteChar (c : Char) : List Char :=
  if c = '"' || c = '\\' then ['\\', c] else [c]

/-- A name in quotes. -/
def quote (name : String) : List Char := '"' :: name.toList.flatMap quoteChar ++ ['"']

/-- The attributes of an edge. -/
def attributes (kind : CallKind) : List Char :=
  match kind.dotStyle with
  | some style => " [style=".toList ++ style.toList ++ [']']
  | none => []

def nodeLine (name : String) : List Char := "  ".toList ++ quote name ++ ";\n".toList

def edgeLine (edge : Edge) : List Char :=
  "  ".toList ++ quote edge.source ++ " -> ".toList ++ quote edge.target ++ attributes edge.kind ++
    ";\n".toList

end Dot

/-- The text of a graph in the DOT language. -/
def Graph.toDot (graph : Graph) : String :=
  String.ofList <|
    "digraph G \x7b\n  node [shape=box];\n  rankdir=LR;\n\n".toList ++
      graph.sortedNodes.flatMap Dot.nodeLine ++ ['\n'] ++
      graph.sortedEdges.flatMap Dot.edgeLine ++ "\x7d\n".toList

/-! ## JSON -/

namespace JsonText

/-- A character inside quotes. Control characters without a short form are written by four
hexadecimal digits. -/
def quoteChar (c : Char) : List Char :=
  if c = '"' || c = '\\' then ['\\', c]
  else if c = '\n' then ['\\', 'n']
  else if c = '\r' then ['\\', 'r']
  else if c = '\t' then ['\\', 't']
  else if c = '\x08' then ['\\', 'b']
  else if c = '\x0c' then ['\\', 'f']
  else if c.toNat < 16 then "\\u000".toList ++ (Text.hexDigits c).toList
  else if c.toNat < 32 then "\\u00".toList ++ (Text.hexDigits c).toList
  else [c]

/-- A text in quotes. -/
def quote (text : String) : List Char := '"' :: text.toList.flatMap quoteChar ++ ['"']

/-- A list with one item a line, as a field of the outermost object. -/
def list : List (List Char) → List Char
  | [] => "[]".toList
  | items => "[\n    ".toList ++ List.intercalate ",\n    ".toList items ++ "\n  ]".toList

/-- An edge as an object. -/
def edge (e : Edge) : List Char :=
  "\x7b\n      \"from\": ".toList ++ quote e.source ++
    ",\n      \"to\": ".toList ++ quote e.target ++
    ",\n      \"kind\": ".toList ++ quote e.kind.name ++ "\n    \x7d".toList

end JsonText

/-- The text of a graph as JSON. -/
def Graph.toJson (graph : Graph) : String :=
  String.ofList <|
    "\x7b\n  \"nodes\": ".toList ++ JsonText.list (graph.sortedNodes.map JsonText.quote) ++
      ",\n  \"edges\": ".toList ++ JsonText.list (graph.sortedEdges.map JsonText.edge) ++
      "\n\x7d\n".toList

/-! ## Formats -/

/-- The formats of a graph. -/
inductive Format
  | dot
  | json
  deriving DecidableEq

namespace Format

/-- The key of a format's name: case and white space around it do not matter. -/
def key (name : String) : String :=
  String.ofList ((Text.trim name.toList).map Char.toLower)

/-- The format with a name; an unknown name gives its key. -/
def ofName (name : String) : Except String Format :=
  match key name with
  | "dot" => .ok .dot
  | "json" => .ok .json
  | unknown => .error unknown

/-- The text of a graph in a format. -/
def render : Format → Graph → String
  | .dot => Graph.toDot
  | .json => Graph.toJson

end Format

end GoCalls
