import GoCalls.Proofs.GraphListings
import GoCalls.Proofs.Readers

/-!
# Reading the DOT text of a graph

Names may hold any characters, also quotes, line ends and text that looks like a line of the graph.
Only quotes and backslashes are escaped, and that is enough: a name ends at the first quote without an
escaping backslash, so the text can be read from left to right in one way.

* `Dot.char`, `Dot.name`, `Dot.kind`, `Dot.node`, `Dot.edge`: readers of the parts of the text.
* `Dot.listing`, `Dot.read?`: the listing in a text.
* **`Dot.reads_listing`**: the text of any listing is read back.
* **`dot_reads_back`**: so is the text of a graph, and graphs with the same text have the same nodes
  and the same edges in order.
-/

namespace GoCalls

namespace Dot

/-! ## Readers -/

/-- A character of a name. A backslash escapes the character after it. -/
def char : Reader Char
  | '\\' :: c :: rest => some (c, rest)
  | c :: rest => some (c, rest)
  | [] => none

/-- A name: all characters up to the first quote that is not escaped. -/
def name : Reader String := do
  Reader.text ['"']
  return String.ofList (← Reader.itemsUpTo ['"'] char)

/-- The kind of a call, by the end of its line. -/
def kind : Reader CallKind := fun s =>
  CallKind.all.findSome? fun kind =>
    (Text.after? (attributes kind ++ ";\n".toList) s).map (kind, ·)

/-- The line of a node. -/
def node : Reader String := do
  Reader.text "  ".toList
  let name ← name
  Reader.text ";\n".toList
  return name

/-- The line of an edge. -/
def edge : Reader Edge := do
  Reader.text "  ".toList
  let source ← name
  Reader.text " -> ".toList
  let target ← name
  return ⟨source, target, ← kind⟩

/-- The text of a listing. -/
def listing : Reader Listing := do
  Reader.text "digraph G \x7b\n  node [shape=box];\n  rankdir=LR;\n\n".toList
  let nodes ← Reader.itemsUpTo ['\n'] node
  let edges ← Reader.itemsUpTo "\x7d\n".toList edge
  return ⟨nodes, edges⟩

/-- The listing in a text. -/
def read? (text : String) : Option Listing := listing.whole? text

/-! ## Names -/

theorem reads_char (c : Char) : Reads char (quoteChar c) c := by
  intro rest _
  unfold quoteChar
  split_ifs with h
  · rfl
  · have hc : c ≠ '\\' := by
      rintro rfl
      exact h rfl
    rw [List.singleton_append]
    unfold char
    split
    · rename_i heq
      exact absurd (List.cons.inj heq).1 hc
    · rename_i heq
      obtain ⟨rfl, rfl⟩ := List.cons.inj heq
      rfl
    · rename_i heq
      cases heq

theorem after?_quoteChar (c : Char) (rest : List Char) :
    Text.after? ['"'] (quoteChar c ++ rest) = none := by
  unfold quoteChar
  split_ifs with h
  · exact Text.after?_cons_of_ne (by decide) _ _
  · apply Text.after?_cons_of_ne
    rintro rfl
    exact h rfl

/-- **A quoted name is read**, whatever its characters are. -/
theorem reads_name (s : String) : Reads name (quote s) s := by
  have hchars : Reads (Reader.itemsUpTo ['"'] char) (s.toList.flatMap quoteChar ++ ['"'])
      s.toList :=
    (ReadsEach.flatMap reads_char after?_quoteChar s.toList).itemsUpTo
  have hname : Reads name (['"'] ++ (s.toList.flatMap quoteChar ++ ['"']))
      (String.ofList s.toList) :=
    (reads_text ['"']).bind (hchars.map String.ofList)
  rwa [String.ofList_toList] at hname

/-! ## Lines -/

theorem reads_kind (k : CallKind) : Reads kind (attributes k ++ ";\n".toList) k := by
  intro rest _
  cases k <;> rfl

theorem reads_node (s : String) : Reads node (nodeLine s) s := by
  have hline : Reads node ("  ".toList ++ (quote s ++ ";\n".toList)) s :=
    (reads_text _).bind ((reads_name s).bind ((reads_text _).map fun _ => s))
  rwa [← List.append_assoc] at hline

theorem after?_nodeLine (s : String) (rest : List Char) :
    Text.after? ['\n'] (nodeLine s ++ rest) = none :=
  Text.after?_cons_of_ne (by decide) [] _

theorem reads_edge (e : Edge) : Reads edge (edgeLine e) e := by
  have hline : Reads edge ("  ".toList ++ (quote e.source ++ (" -> ".toList ++ (quote e.target ++
      (attributes e.kind ++ ";\n".toList))))) e :=
    (reads_text _).bind ((reads_name _).bind ((reads_text _).bind ((reads_name _).bind
      ((reads_kind e.kind).map (Edge.mk e.source e.target)))))
  simpa only [edgeLine, List.append_assoc] using hline

theorem after?_edgeLine (e : Edge) (rest : List Char) :
    Text.after? "\x7d\n".toList (edgeLine e ++ rest) = none := by
  rw [edgeLine, show "\x7d\n".toList = '\x7d' :: ['\n'] from rfl]
  exact Text.after?_cons_of_ne (by decide) ['\n'] _

/-- **The text of a listing is read back.** -/
theorem reads_listing (l : Listing) : Reads listing l.dot l := by
  have hnodes : Reads (Reader.itemsUpTo ['\n'] node) (l.nodes.flatMap nodeLine ++ ['\n']) l.nodes :=
    (ReadsEach.flatMap reads_node after?_nodeLine l.nodes).itemsUpTo
  have hedges : Reads (Reader.itemsUpTo "\x7d\n".toList edge)
      (l.edges.flatMap edgeLine ++ "\x7d\n".toList) l.edges :=
    (ReadsEach.flatMap reads_edge after?_edgeLine l.edges).itemsUpTo
  have htext : Reads listing
      ("digraph G \x7b\n  node [shape=box];\n  rankdir=LR;\n\n".toList ++
        (l.nodes.flatMap nodeLine ++ ['\n'] ++ (l.edges.flatMap edgeLine ++ "\x7d\n".toList))) l :=
    (reads_text _).bind (hnodes.bind (hedges.map (Listing.mk l.nodes)))
  rwa [← List.append_assoc, ← List.append_assoc, ← List.append_assoc] at htext

end Dot

theorem Graph.read?_toDot (g : Graph) : Dot.read? g.toDot = some g.listing :=
  (Dot.reads_listing g.listing).whole? trivial

/-- **The DOT text of a graph can be read back** to its nodes and edges in order, whatever its names
are. -/
theorem dot_reads_back (g : Graph) :
    Dot.read? g.toDot = some ⟨g.sortedNodes, g.sortedEdges⟩ ∧
      ∀ h : Graph, g.toDot = h.toDot →
        (∀ name, name ∈ g.nodes ↔ name ∈ h.nodes) ∧ g.sortedNodes = h.sortedNodes ∧
          g.sortedEdges = h.sortedEdges := by
  refine ⟨g.read?_toDot, fun h htext => ?_⟩
  have hlisting : g.listing = h.listing := by
    apply Option.some.inj
    calc some g.listing = Dot.read? g.toDot := g.read?_toDot.symm
      _ = Dot.read? h.toDot := by rw [htext]
      _ = some h.listing := h.read?_toDot
  obtain ⟨hnodes, hedges⟩ := Listing.mk.inj hlisting
  refine ⟨fun name => ?_, hnodes, hedges⟩
  rw [← Std.TreeSet.mem_toList, ← Std.TreeSet.mem_toList]
  exact iff_of_eq (congrArg (name ∈ ·) hnodes)

/-- A call between names that look like the end of the text and like lines of it. -/
def lookalikeCall : Edge := ⟨"\n\x7d\n\\", "a\";\n  \"b\" -> \"c\" [style=bold", .defer⟩

/-- The text does not show that a name was added before. -/
theorem dot_reads_back_lookalike :
    let g := Graph.ofSteps [.node lookalikeCall.target, .edge lookalikeCall]
    let h := Graph.ofSteps [.edge lookalikeCall]
    Dot.read? g.toDot = some ⟨[lookalikeCall.source, lookalikeCall.target], [lookalikeCall]⟩ ∧
      g.toDot = h.toDot ∧ (∀ name, name ∈ g.nodes ↔ name ∈ h.nodes) ∧
      g.sortedNodes = h.sortedNodes ∧ g.sortedEdges = h.sortedEdges := by
  intro g h
  have hnodes : g.sortedNodes = [lookalikeCall.source, lookalikeCall.target] := by decide +kernel
  have hedges : g.sortedEdges = [lookalikeCall] := by decide +kernel
  have halike : g.Alike h := by
    refine Graph.alike_ofSteps (fun name => ?_) fun _ _ => rfl
    simp only [Graph.Step.names, List.flatMap_cons, List.flatMap_nil, List.mem_append,
      List.mem_cons, List.not_mem_nil]
    grind
  obtain ⟨hread, hsame⟩ := dot_reads_back g
  rw [hnodes, hedges] at hread
  exact ⟨hread, halike.toDot_eq, hsame h halike.toDot_eq⟩

end GoCalls
