import GoCalls.Proofs.ByteOrder
import GoCalls.Proofs.GraphOrder

/-!
# The listing of a graph that grows step by step

A graph grows by single nodes and single edges. Its texts list the nodes and the edges in order.

* `Listing`, `Graph.listing`: the nodes and the edges of a graph as its texts list them.
* `Listing.Arranges`: a listing has given names and calls, in the order of bytes.
* `Graph.Step`, `Graph.ofSteps`: a graph that is built from nothing.
* **`Graph.ofSteps_arranges`**: the listing of a graph arranges its steps.
* **`Graph.alike_ofSteps`**: steps that cannot be told apart by names and by kinds of calls.
-/

namespace GoCalls

/-! ## Listings -/

/-- All kinds of calls. -/
def CallKind.all : List CallKind := [.direct, .closure, .defer, .go]

/-- The nodes and the edges of a graph, as its texts list them. -/
structure Listing where
  nodes : List String
  edges : List Edge
  deriving DecidableEq

/-- The nodes and the edges of a graph in order. -/
def Graph.listing (graph : Graph) : Listing := ⟨graph.sortedNodes, graph.sortedEdges⟩

/-- The text of a listing in the DOT language. -/
def Listing.dot (listing : Listing) : List Char :=
  "digraph G \x7b\n  node [shape=box];\n  rankdir=LR;\n\n".toList ++
    listing.nodes.flatMap Dot.nodeLine ++ ['\n'] ++
    listing.edges.flatMap Dot.edgeLine ++ "\x7d\n".toList

/-- The text of a listing as JSON. -/
def Listing.json (listing : Listing) : List Char :=
  "\x7b\n  \"nodes\": ".toList ++ JsonText.list (listing.nodes.map JsonText.quote) ++
    ",\n  \"edges\": ".toList ++ JsonText.list (listing.edges.map JsonText.edge) ++
    "\n\x7d\n".toList

/-- A listing has the given names once each, in the order of bytes, and all given calls, by source
and target. -/
structure Listing.Arranges (listing : Listing) (names : List String) (calls : List Edge) :
    Prop where
  mem_nodes : ∀ name, name ∈ listing.nodes ↔ name ∈ names
  nodes_ascend : listing.nodes.Pairwise fun a b => Text.bytes a < Text.bytes b
  edges_perm : listing.edges.Perm calls
  edges_ascend : listing.edges.Pairwise fun a b =>
    Text.bytes a.source < Text.bytes b.source ∨
      a.source = b.source ∧ Text.bytes a.target ≤ Text.bytes b.target
  edges_between : ∀ source target, listing.edges.filter (Edge.joins source target) =
    calls.filter (Edge.joins source target)

theorem Graph.sortedNodes_pairwise (graph : Graph) :
    graph.sortedNodes.Pairwise fun a b => Text.bytes a < Text.bytes b := by
  refine graph.nodes.ordered_toList.imp fun {a b} h => ?_
  have hlt : a < b := compare_lt_iff_lt.mp h
  exact Text.lt_iff_bytes_lt.mp hlt

theorem Graph.sortedEdges_pairwise (graph : Graph) :
    graph.sortedEdges.Pairwise fun a b => Text.bytes a.source < Text.bytes b.source ∨
      a.source = b.source ∧ Text.bytes a.target ≤ Text.bytes b.target := by
  refine (List.pairwise_mergeSort Edge.le_trans Edge.le_total graph.edges).imp fun {a b} h => ?_
  rwa [← Text.lt_iff_bytes_lt, ← Text.le_iff_bytes_le, ← Edge.le_iff]

/-- **The listing of a graph** arranges its nodes and its edges. -/
theorem Graph.listing_arranges {graph : Graph} {names : List String}
    (h : ∀ name, name ∈ graph.nodes ↔ name ∈ names) :
    graph.listing.Arranges names graph.edges where
  mem_nodes name := by rw [← h, listing, sortedNodes, Std.TreeSet.mem_toList]
  nodes_ascend := graph.sortedNodes_pairwise
  edges_perm := List.mergeSort_perm graph.edges Edge.le
  edges_ascend := graph.sortedEdges_pairwise
  edges_between := Edge.sameCalls_mergeSort graph.edges

/-! ## Steps -/

namespace Graph

/-- One step in which a graph grows. -/
inductive Step
  | node (name : String)
  | edge (edge : Edge)

/-- The graph after a step. -/
def step (graph : Graph) : Step → Graph
  | .node name => graph.addNode name
  | .edge e => graph.addEdge e

/-- The graph after some steps from the empty one. -/
def ofSteps (steps : List Step) : Graph := steps.foldl step {}

namespace Step

/-- The names that occur in a step. -/
def names : Step → List String
  | .node name => [name]
  | .edge e => [e.source, e.target]

/-- The call that a step records. -/
def edge? : Step → Option Edge
  | .node _ => none
  | .edge e => some e

/-- The kinds of the calls of `target` by `source` that some steps record, in their order. -/
def kindsBetween (source target : String) (steps : List Step) : List CallKind :=
  ((steps.filterMap edge?).filter (Edge.joins source target)).map (·.kind)

end Step

theorem mem_nodes_step (graph : Graph) (s : Step) (name : String) :
    name ∈ (graph.step s).nodes ↔ name ∈ graph.nodes ∨ name ∈ s.names := by
  cases s with
  | node n =>
    simp only [step, addNode, Step.names, Std.TreeSet.mem_insert, List.mem_singleton,
      Std.LawfulEqCmp.compare_eq_iff_eq]
    grind
  | edge e =>
    simp only [step, addEdge, Step.names, Std.TreeSet.mem_insert, List.mem_cons,
      Std.LawfulEqCmp.compare_eq_iff_eq]
    grind

theorem edges_step (graph : Graph) (s : Step) :
    (graph.step s).edges = graph.edges ++ s.edge?.toList := by
  cases s with
  | node n => exact (List.append_nil _).symm
  | edge e => rfl

theorem mem_nodes_foldl_step (graph : Graph) (steps : List Step) (name : String) :
    name ∈ (steps.foldl step graph).nodes ↔
      name ∈ graph.nodes ∨ name ∈ steps.flatMap Step.names := by
  induction steps generalizing graph with
  | nil => simp
  | cons s steps ih =>
    rw [List.foldl_cons, ih, mem_nodes_step, List.flatMap_cons, List.mem_append, or_assoc]

theorem edges_foldl_step (graph : Graph) (steps : List Step) :
    (steps.foldl step graph).edges = graph.edges ++ steps.filterMap Step.edge? := by
  induction steps generalizing graph with
  | nil => simp
  | cons s steps ih =>
    rw [List.foldl_cons, ih, edges_step, List.append_assoc]
    cases h : s.edge? <;> simp [h]

theorem mem_nodes_ofSteps (steps : List Step) (name : String) :
    name ∈ (ofSteps steps).nodes ↔ name ∈ steps.flatMap Step.names := by
  rw [ofSteps, mem_nodes_foldl_step]
  simp

theorem edges_ofSteps (steps : List Step) :
    (ofSteps steps).edges = steps.filterMap Step.edge? := edges_foldl_step {} steps

/-- **The listing of a graph** arranges the names and the calls of its steps. -/
theorem ofSteps_arranges (steps : List Step) :
    (ofSteps steps).listing.Arranges (steps.flatMap Step.names) (steps.filterMap Step.edge?) := by
  have h := listing_arranges (mem_nodes_ofSteps steps)
  rwa [edges_ofSteps] at h

end Graph

/-! ## Steps that are alike -/

/-- Calls between two nodes are known by their kinds. -/
theorem Edge.filter_joins_eq_map (source target : String) (edges : List Edge) :
    edges.filter (Edge.joins source target) =
      ((edges.filter (Edge.joins source target)).map (·.kind)).map (Edge.mk source target) := by
  induction edges with
  | nil => rfl
  | cons e edges ih =>
    by_cases h : e.joins source target
    · obtain ⟨rfl, rfl⟩ := Edge.joins_iff.mp h
      rw [List.filter_cons_of_pos h, List.map_cons, List.map_cons, ← ih]
    · rw [List.filter_cons_of_neg h, ← ih]

theorem Edge.sameCalls_of_kinds {as bs : List Edge}
    (h : ∀ source target, (as.filter (Edge.joins source target)).map (·.kind) =
      (bs.filter (Edge.joins source target)).map (·.kind)) : Edge.SameCalls as bs := by
  intro source target
  rw [Edge.filter_joins_eq_map source target as, Edge.filter_joins_eq_map source target bs, h]

/-- Steps with the same names and kinds of calls make graphs that are alike. -/
theorem Graph.alike_ofSteps {as bs : List Graph.Step}
    (hnames : ∀ name, name ∈ as.flatMap Step.names ↔ name ∈ bs.flatMap Step.names)
    (hkinds : ∀ source target, Step.kindsBetween source target as =
      Step.kindsBetween source target bs) :
    (ofSteps as).Alike (ofSteps bs) where
  nodes name := by rw [mem_nodes_ofSteps, mem_nodes_ofSteps, hnames]
  edges := by
    rw [edges_ofSteps, edges_ofSteps]
    exact Edge.sameCalls_of_kinds hkinds

end GoCalls
