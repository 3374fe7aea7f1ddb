import GoCalls.Proofs.DotReading
import GoCalls.Proofs.JsonReading

/-!
# The texts of a graph that grows step by step

However the steps are mixed in which a graph grows, its texts depend only on the names that occur in
them, and on the kinds of the calls between any two names, in the order in which they were found.

* **`texts_of_steps`**: what is read from the texts, and steps with the same texts.
-/

namespace GoCalls

/-- **The texts of a graph depend on its names and on the kinds of calls** between any two of them.
-/
theorem texts_of_steps (as : List Graph.Step) :
    (∃ listing : Listing,
      listing.Arranges (as.flatMap Graph.Step.names) (as.filterMap Graph.Step.edge?) ∧
      Dot.read? (Graph.ofSteps as).toDot = some listing ∧
      Listing.readJson? (Graph.ofSteps as).toJson = some listing) ∧
    ∀ bs : List Graph.Step,
      (∀ name, name ∈ as.flatMap Graph.Step.names ↔ name ∈ bs.flatMap Graph.Step.names) →
      (∀ source target, Graph.Step.kindsBetween source target as =
        Graph.Step.kindsBetween source target bs) →
      (Graph.ofSteps as).toDot = (Graph.ofSteps bs).toDot ∧
        (Graph.ofSteps as).toJson = (Graph.ofSteps bs).toJson := by
  refine ⟨⟨(Graph.ofSteps as).listing, Graph.ofSteps_arranges as, Graph.read?_toDot _,
    Graph.readJson?_toJson _⟩, fun bs hnames hkinds => ?_⟩
  have halike := Graph.alike_ofSteps hnames hkinds
  exact ⟨halike.toDot_eq, halike.toJson_eq⟩

/-- Two calls of `b.G` by `a.F` with another call between them, and a node without calls. -/
def spreadSteps : List Graph.Step :=
  [.edge ⟨"a.F", "b.G", .go⟩, .edge ⟨"b.G", "a.F", .defer⟩, .node "c.\"H\"",
    .edge ⟨"a.F", "b.G", .direct⟩]

/-- The same names and calls, where the other call comes first and names occur more often. -/
def gatheredSteps : List Graph.Step :=
  [.node "c.\"H\"", .node "b.G", .edge ⟨"b.G", "a.F", .defer⟩, .edge ⟨"a.F", "b.G", .go⟩,
    .edge ⟨"a.F", "b.G", .direct⟩, .node "c.\"H\""]

/-- The edges are found in another order, and the texts are the same. -/
theorem texts_of_steps_mixed :
    (∀ name, name ∈ spreadSteps.flatMap Graph.Step.names ↔
        name ∈ gatheredSteps.flatMap Graph.Step.names) ∧
      (∀ source target, Graph.Step.kindsBetween source target spreadSteps =
        Graph.Step.kindsBetween source target gatheredSteps) ∧
      (Graph.ofSteps spreadSteps).edges ≠ (Graph.ofSteps gatheredSteps).edges ∧
      (Graph.ofSteps spreadSteps).toDot = (Graph.ofSteps gatheredSteps).toDot ∧
      (Graph.ofSteps spreadSteps).toJson = (Graph.ofSteps gatheredSteps).toJson := by
  have hnames : ∀ name, name ∈ spreadSteps.flatMap Graph.Step.names ↔
      name ∈ gatheredSteps.flatMap Graph.Step.names := by
    intro name
    simp only [spreadSteps, gatheredSteps, Graph.Step.names, List.flatMap_cons, List.flatMap_nil,
      List.mem_append, List.mem_cons, List.not_mem_nil]
    grind
  have hkinds : ∀ source target, Graph.Step.kindsBetween source target spreadSteps =
      Graph.Step.kindsBetween source target gatheredSteps := by
    intro source target
    have hspread : spreadSteps.filterMap Graph.Step.edge? =
        [⟨"a.F", "b.G", .go⟩, ⟨"b.G", "a.F", .defer⟩, ⟨"a.F", "b.G", .direct⟩] := rfl
    have hgathered : gatheredSteps.filterMap Graph.Step.edge? =
        [⟨"b.G", "a.F", .defer⟩, ⟨"a.F", "b.G", .go⟩, ⟨"a.F", "b.G", .direct⟩] := rfl
    rw [Graph.Step.kindsBetween, Graph.Step.kindsBetween, hspread, hgathered]
    by_cases h : source = "b.G"
    · simp [Edge.joins, List.filter_cons, h]
    · simp [Edge.joins, List.filter_cons, Ne.symm h]
  exact ⟨hnames, hkinds, by decide, (texts_of_steps spreadSteps).2 gatheredSteps hnames hkinds⟩

end GoCalls
