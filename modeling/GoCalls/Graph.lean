import Std.Data.TreeSet

/-!
# Call graphs

The nodes of a call graph are the qualified names of routines. It has one edge for each call, so
there may be several between two nodes, and it keeps them in the order in which they were found.

* `Graph.addNode`, `Graph.addEdge`: a graph grows.
* `Graph.extend`: a graph with all that a `Trace` of some code holds.
* `Graph.sortedNodes`, `Graph.sortedEdges`: the order in which a graph is written.
-/

namespace GoCalls

/-- How a call is made. -/
inductive CallKind
  | direct
  /-- A call of a variable that holds a closure. -/
  | closure
  | defer
  | go
  deriving DecidableEq

/-- The word for a kind of call. -/
def CallKind.name : CallKind → String
  | .direct => "direct"
  | .closure => "closure"
  | .defer => "defer"
  | .go => "go"

/-- A call of `target` in the body of `source`. -/
structure Edge where
  source : String
  target : String
  kind : CallKind
  deriving DecidableEq

/-- The order by source, then by target. -/
def Edge.le (a b : Edge) : Bool :=
  a.source < b.source || (a.source = b.source && a.target ≤ b.target)

/-- What a piece of code adds to a graph: nodes, and edges in order. -/
structure Trace where
  nodes : List String := []
  edges : List Edge := []

/-- One trace after another. -/
def Trace.append (s t : Trace) : Trace := ⟨s.nodes ++ t.nodes, s.edges ++ t.edges⟩

instance : Append Trace := ⟨Trace.append⟩

structure Graph where
  nodes : Std.TreeSet String := ∅
  /-- The edges, in the order in which they were found. -/
  edges : List Edge := []

namespace Graph

def addNode (graph : Graph) (name : String) : Graph :=
  { graph with nodes := graph.nodes.insert name }

/-- Add an edge; its ends become nodes. -/
def addEdge (graph : Graph) (edge : Edge) : Graph :=
  { nodes := (graph.nodes.insert edge.source).insert edge.target
    edges := graph.edges ++ [edge] }

/-- Add all that a trace holds. -/
def extend (graph : Graph) (trace : Trace) : Graph :=
  let nodes := trace.nodes.foldl (·.insert ·) graph.nodes
  { nodes := trace.edges.foldl (fun nodes e => (nodes.insert e.source).insert e.target) nodes
    edges := graph.edges ++ trace.edges }

def containsNode (graph : Graph) (name : String) : Bool := graph.nodes.contains name

def nodeCount (graph : Graph) : Nat := graph.nodes.size

def edgeCount (graph : Graph) : Nat := graph.edges.length

/-- The number of calls of `target` in the body of `source`. -/
def countEdges (graph : Graph) (source target : String) : Nat :=
  graph.edges.countP fun e => e.source = source && e.target = target

def hasEdge (graph : Graph) (edge : Edge) : Bool := graph.edges.contains edge

/-- The nodes in ascending order. -/
def sortedNodes (graph : Graph) : List String := graph.nodes.toList

/-- The edges by source, then by target. Edges between the same nodes keep their order. -/
def sortedEdges (graph : Graph) : List Edge := graph.edges.mergeSort Edge.le

end Graph

end GoCalls
