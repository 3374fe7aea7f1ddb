import GoCalls.Graph.Format
import Mathlib.Data.String.Basic

/-!
# Graphs in order

The texts of a graph list its nodes and its edges in order. So they depend on the set of the nodes
alone, and on the calls between any two nodes in the order in which they were found, but not on how
the calls between different nodes were mixed.

* `Trace.Mentions`, `Graph.mem_nodes_extend`: the nodes that a trace adds.
* `Edge.SameCalls`: two lists of edges have the same calls between any two nodes.
* **`Edge.mergeSort_eq_of_sameCalls`**: the order of edges has one arrangement.
* `Graph.Alike`, **`Graph.Alike.toDot_eq`**, **`Graph.Alike.toJson_eq`**: graphs with the same texts.
-/

namespace GoCalls

/-! ## Nodes -/

/-- A name is a node of a trace, or an end of one of its edges. -/
def Trace.Mentions (trace : Trace) (name : String) : Prop :=
  name ∈ trace.nodes ∨ ∃ e ∈ trace.edges, name = e.source ∨ name = e.target

theorem mem_foldl_insert (names : List String) (nodes : Std.TreeSet String) (name : String) :
    name ∈ names.foldl (·.insert ·) nodes ↔ name ∈ nodes ∨ name ∈ names := by
  induction names generalizing nodes with
  | nil => simp
  | cons n names ih =>
    rw [List.foldl_cons, ih, Std.TreeSet.mem_insert, List.mem_cons, Std.LawfulEqCmp.compare_eq_iff_eq]
    grind

theorem mem_foldl_insert_ends (edges : List Edge) (nodes : Std.TreeSet String) (name : String) :
    name ∈ edges.foldl (fun nodes e => (nodes.insert e.source).insert e.target) nodes ↔
      name ∈ nodes ∨ ∃ e ∈ edges, name = e.source ∨ name = e.target := by
  induction edges generalizing nodes with
  | nil => simp
  | cons e edges ih =>
    rw [List.foldl_cons, ih, Std.TreeSet.mem_insert, Std.TreeSet.mem_insert,
      Std.LawfulEqCmp.compare_eq_iff_eq, Std.LawfulEqCmp.compare_eq_iff_eq]
    simp only [List.mem_cons, exists_eq_or_imp]
    grind

theorem Graph.mem_nodes_extend (graph : Graph) (trace : Trace) (name : String) :
    name ∈ (graph.extend trace).nodes ↔ name ∈ graph.nodes ∨ trace.Mentions name := by
  rw [Graph.extend, mem_foldl_insert_ends, mem_foldl_insert, Trace.Mentions, or_assoc]

/-! ## The order of edges -/

/-- Is an edge a call between the given nodes? -/
def Edge.joins (source target : String) (e : Edge) : Bool :=
  e.source = source && e.target = target

/-- Two lists of edges have the same calls between any two nodes, in the same order. -/
def Edge.SameCalls (as bs : List Edge) : Prop :=
  ∀ source target, as.filter (Edge.joins source target) = bs.filter (Edge.joins source target)

namespace Edge

theorem joins_iff {source target : String} {e : Edge} :
    e.joins source target = true ↔ e.source = source ∧ e.target = target := by
  simp [joins]

theorem le_iff {a b : Edge} :
    a.le b = true ↔ a.source < b.source ∨ a.source = b.source ∧ a.target ≤ b.target := by
  simp [Edge.le]

theorem le_trans (a b c : Edge) (hab : a.le b) (hbc : b.le c) : a.le c := by
  rw [le_iff] at *
  grind

theorem le_total (a b : Edge) : (a.le b || b.le a) = true := by
  rw [Bool.or_eq_true, le_iff, le_iff]
  grind

/-- Edges at one place are between the same nodes. -/
theorem joins_of_le_of_le {a b : Edge} (hab : a.le b) (hba : b.le a) :
    b.joins a.source a.target = true := by
  rw [joins_iff]
  rw [le_iff] at hab hba
  grind

theorem le_of_joins {source target : String} {a b : Edge} (ha : a.joins source target)
    (hb : b.joins source target) : a.le b := by
  rw [joins_iff] at ha hb
  rw [le_iff]
  grind

theorem SameCalls.mem {as bs : List Edge} (h : SameCalls as bs) {e : Edge} (he : e ∈ as) : e ∈ bs := by
  have hjoins : e.joins e.source e.target = true := joins_iff.mpr ⟨rfl, rfl⟩
  have hfilter : e ∈ bs.filter (Edge.joins e.source e.target) := by
    rw [← h]
    exact List.mem_filter.mpr ⟨he, hjoins⟩
  exact (List.mem_filter.mp hfilter).1

theorem SameCalls.symm {as bs : List Edge} (h : SameCalls as bs) : SameCalls bs as :=
  fun source target => (h source target).symm

theorem SameCalls.tail {e : Edge} {as bs : List Edge} (h : SameCalls (e :: as) (e :: bs)) :
    SameCalls as bs := by
  intro source target
  have := h source target
  rw [List.filter_cons, List.filter_cons] at this
  split_ifs at this
  · exact (List.cons.inj this).2
  · exact this

/-- The first of a sorted list comes before all others. -/
theorem le_of_mem_sorted {a e : Edge} {as : List Edge} (hs : (a :: as).Pairwise fun a b => a.le b)
    (he : e ∈ a :: as) : a.le e := by
  rcases List.mem_cons.mp he with rfl | he
  · exact le_of_joins (joins_iff.mpr ⟨rfl, rfl⟩) (joins_iff.mpr ⟨rfl, rfl⟩)
  · exact (List.pairwise_cons.mp hs).1 e he

/-- **Sorted lists with the same calls between any two nodes are equal.** -/
theorem SameCalls.eq_of_sorted {as bs : List Edge} (h : SameCalls as bs)
    (ha : as.Pairwise fun a b => a.le b) (hb : bs.Pairwise fun a b => a.le b) : as = bs := by
  induction as generalizing bs with
  | nil =>
    cases bs with
    | nil => rfl
    | cons b bs => exact absurd (h.symm.mem List.mem_cons_self) List.not_mem_nil
  | cons a as ih =>
    cases bs with
    | nil => exact absurd (h.mem List.mem_cons_self) List.not_mem_nil
    | cons b bs =>
      have hab : a.le b := le_of_mem_sorted ha (h.symm.mem List.mem_cons_self)
      have hba : b.le a := le_of_mem_sorted hb (h.mem List.mem_cons_self)
      -- Both heads are calls between the same nodes, so they are the first such calls.
      have hheads := h a.source a.target
      rw [List.filter_cons_of_pos (joins_iff.mpr ⟨rfl, rfl⟩),
        List.filter_cons_of_pos (joins_of_le_of_le hab hba)] at hheads
      obtain rfl := (List.cons.inj hheads).1
      rw [ih h.tail (List.pairwise_cons.mp ha).2 (List.pairwise_cons.mp hb).2]

/-- Sorting keeps the calls between two nodes in their order. -/
theorem sameCalls_mergeSort (es : List Edge) : SameCalls (es.mergeSort Edge.le) es := by
  intro source target
  have hsorted : (es.filter (Edge.joins source target)).Pairwise fun a b => a.le b :=
    List.pairwise_of_forall_mem_list fun a ha b hb =>
      le_of_joins (List.mem_filter.mp ha).2 (List.mem_filter.mp hb).2
  have hsub : (es.filter (Edge.joins source target)).Sublist (es.mergeSort Edge.le) :=
    List.sublist_mergeSort le_trans le_total hsorted List.filter_sublist
  have hfilter := hsub.filter (Edge.joins source target)
  simp only [List.filter_filter, Bool.and_self] at hfilter
  have hlength := ((List.mergeSort_perm es Edge.le).filter (Edge.joins source target)).length_eq
  exact (hfilter.eq_of_length hlength.symm).symm

/-- **The order of edges has one arrangement** for lists with the same calls. -/
theorem mergeSort_eq_of_sameCalls {as bs : List Edge} (h : SameCalls as bs) :
    as.mergeSort Edge.le = bs.mergeSort Edge.le := by
  refine SameCalls.eq_of_sorted ?_ (List.pairwise_mergeSort le_trans le_total as)
    (List.pairwise_mergeSort le_trans le_total bs)
  intro source target
  rw [sameCalls_mergeSort as, sameCalls_mergeSort bs]
  exact h source target

end Edge

/-! ## Texts -/

/-- Two graphs have the same nodes, and the same calls between any two nodes in the same order. -/
structure Graph.Alike (g h : Graph) : Prop where
  nodes : ∀ name, name ∈ g.nodes ↔ name ∈ h.nodes
  edges : Edge.SameCalls g.edges h.edges

namespace Graph.Alike

variable {g h : Graph} (halike : g.Alike h)

include halike

theorem sortedNodes_eq : g.sortedNodes = h.sortedNodes :=
  (Std.TreeSet.Equiv.of_forall_mem_iff halike.nodes).toList_eq

theorem sortedEdges_eq : g.sortedEdges = h.sortedEdges :=
  Edge.mergeSort_eq_of_sameCalls halike.edges

/-- **Graphs that are alike have the same text** in the DOT language. -/
theorem toDot_eq : g.toDot = h.toDot := by
  unfold Graph.toDot
  rw [halike.sortedNodes_eq, halike.sortedEdges_eq]

/-- **Graphs that are alike have the same text** as JSON. -/
theorem toJson_eq : g.toJson = h.toJson := by
  unfold Graph.toJson
  rw [halike.sortedNodes_eq, halike.sortedEdges_eq]

end Graph.Alike

end GoCalls
