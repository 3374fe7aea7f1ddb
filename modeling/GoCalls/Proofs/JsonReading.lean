import GoCalls.Proofs.GraphListings
import GoCalls.Proofs.JsonGrammar

/-!
# Reading the JSON text of a graph

The text of a graph is one object with the lists of its nodes and its edges. It follows the grammar,
whatever the names are: quotes, backslashes and control characters are escaped, and all else stands
for itself.

* `Edge.toJson`, `Listing.toJson`: edges and listings as values.
* `Listing.ofJson?`, `Listing.readJson?`: the listing in a value and in a text.
* **`JsonText.quotes_quote`**, **`JsonText.value_list`**, **`Listing.spaced_json`**: texts in quotes,
  lists and listings are written by the grammar.
* **`json_reads_back`**: the text of a graph is a JSON text, and its listing is read back.
-/

namespace GoCalls

/-! ## Values -/

/-- An edge as a value. -/
def Edge.toJson (e : Edge) : Json :=
  .object [("from", .string e.source), ("to", .string e.target), ("kind", .string e.kind.name)]

/-- A listing as a value. -/
def Listing.toJson (listing : Listing) : Json :=
  .object [("nodes", .array (listing.nodes.map .string)),
    ("edges", .array (listing.edges.map Edge.toJson))]

namespace Json

/-- The text that a value is. -/
def text? : Json → Option String
  | .string text => some text
  | _ => none

/-- The value of the only field of an object with the given key. -/
def field? (key : String) : Json → Option Json
  | .object fields =>
    match fields.filter (·.1 = key) with
    | [field] => some field.2
    | _ => none
  | _ => none

/-- The items of an array. -/
def items? {α : Type} (item : Json → Option α) : Json → Option (List α)
  | .array items => items.mapM item
  | _ => none

theorem items?_map {α : Type} {item : Json → Option α} {f : α → Json}
    (h : ∀ a, item (f a) = some a) (as : List α) : items? item (.array (as.map f)) = some as := by
  induction as with
  | nil => rfl
  | cons a as ih =>
    rw [items?] at ih ⊢
    rw [List.map_cons, List.mapM_cons, h, ih]
    rfl

end Json

/-- The kind of call with a name. -/
def CallKind.ofName? (name : String) : Option CallKind := CallKind.all.find? (·.name = name)

/-- The edge that a value is. -/
def Edge.ofJson? (x : Json) : Option Edge := do
  let source ← (← x.field? "from").text?
  let target ← (← x.field? "to").text?
  let kind ← CallKind.ofName? (← (← x.field? "kind").text?)
  return ⟨source, target, kind⟩

/-- The listing that a value is. -/
def Listing.ofJson? (x : Json) : Option Listing := do
  let nodes ← (← x.field? "nodes").items? Json.text?
  let edges ← (← x.field? "edges").items? Edge.ofJson?
  return ⟨nodes, edges⟩

/-- The listing in a text. -/
def Listing.readJson? (text : String) : Option Listing := (Json.read? text).bind Listing.ofJson?

theorem CallKind.ofName?_name (kind : CallKind) : CallKind.ofName? kind.name = some kind := by
  cases kind <;> decide

theorem Edge.ofJson?_toJson (e : Edge) : Edge.ofJson? e.toJson = some e := by
  have h : Edge.ofJson? e.toJson = (CallKind.ofName? e.kind.name).bind fun kind =>
      some ⟨e.source, e.target, kind⟩ := rfl
  rw [h, CallKind.ofName?_name]
  rfl

theorem Listing.ofJson?_toJson (listing : Listing) :
    Listing.ofJson? listing.toJson = some listing := by
  have hnodes := Json.items?_map (fun s => (rfl : Json.text? (.string s) = some s)) listing.nodes
  have hedges := Json.items?_map Edge.ofJson?_toJson listing.edges
  have h : Listing.ofJson? listing.toJson =
      (Json.items? Json.text? (.array (listing.nodes.map .string))).bind fun nodes =>
        (Json.items? Edge.ofJson? (.array (listing.edges.map Edge.toJson))).bind fun edges =>
          some ⟨nodes, edges⟩ := rfl
  rw [h, hnodes, hedges]
  rfl

/-! ## Texts -/

namespace JsonText

open Json

theorem unit?_low : ∀ n < 16, Nat.toDigits 16 n = [Nat.digitChar n] ∧
    unit? '0' '0' '0' (Nat.digitChar n) = some n ∧ isHigh n = false ∧ isLow n = false := by
  decide

theorem unit?_high : ∀ n < 32, 16 ≤ n → Nat.toDigits 16 n = ['1', Nat.digitChar (n - 16)] ∧
    unit? '0' '0' '1' (Nat.digitChar (n - 16)) = some n ∧ isHigh n = false ∧ isLow n = false := by
  decide

theorem toList_hexDigits (c : Char) : (Text.hexDigits c).toList = Nat.toDigits 16 c.toNat :=
  String.toList_ofList

theorem writes_quoteChar (c : Char) : Writes c (quoteChar c) := by
  unfold quoteChar
  split_ifs with hself hn hr ht hb hf hlow hhigh
  · have hc : shortEscape? c = some c := by
      simp only [Bool.or_eq_true, decide_eq_true_eq] at hself
      rcases hself with rfl | rfl <;> rfl
    exact .short hc
  · exact hn ▸ .short rfl
  · exact hr ▸ .short rfl
  · exact ht ▸ .short rfl
  · exact hb ▸ .short rfl
  · exact hf ▸ .short rfl
  · obtain ⟨hdigits, hunit, hh, hl⟩ := unit?_low c.toNat hlow
    have hwrites := Writes.unit hunit hh hl
    rw [Char.ofNat_toNat] at hwrites
    rw [toList_hexDigits, hdigits]
    exact hwrites
  · obtain ⟨hdigits, hunit, hh, hl⟩ := unit?_high c.toNat hhigh (by omega)
    have hwrites := Writes.unit hunit hh hl
    rw [Char.ofNat_toNat] at hwrites
    rw [toList_hexDigits, hdigits]
    exact hwrites
  · refine .plain ?_
    simp only [Bool.or_eq_true, decide_eq_true_eq, not_or] at hself
    simp [isPlain, hself, Nat.le_of_not_lt hhigh]

/-- **A text in quotes** follows the grammar. -/
theorem quotes_quote (s : String) : Quotes s (quote s) := by
  have hall (cs : List Char) : WritesAll cs (cs.flatMap quoteChar) := by
    induction cs with
    | nil => exact .nil
    | cons c cs ih => exact .cons (writes_quoteChar c) ih
  have hquotes := Quotes.mk (hall s.toList)
  rwa [String.ofList_toList] at hquotes

theorem value_quote (s : String) : Value (.string s) (quote s) := .string (quotes_quote s)

/-- The items of a list, each on its line. -/
theorem items_intercalate {indent tail : List Char} (hindent : indent.all isSpace)
    (htail : tail.all isSpace) {x : Json} {xs : List Json} {w : List Char} {ws : List (List Char)}
    (hx : Value x w) (hxs : List.Forall₂ Value xs ws) :
    Items (x :: xs) (indent ++ (List.intercalate (',' :: indent) (w :: ws) ++ tail)) := by
  induction hxs generalizing x w with
  | nil =>
    have hlast : Items [x] (indent ++ (w ++ tail)) := .last (.mk hindent hx htail)
    simpa using hlast
  | @cons y v ys vs hy _ ih =>
    have hspaced : Spaced x (indent ++ (w ++ [])) := .mk hindent hx rfl
    have hmore := Items.more hspaced (ih hy)
    simpa [List.intercalate] using hmore

/-- **A list follows the grammar** if its items do. -/
theorem value_list {xs : List Json} {ws : List (List Char)} (h : List.Forall₂ Value xs ws) :
    Value (.array xs) (list ws) := by
  cases h with
  | nil =>
    have hempty : Value (.array []) ('[' :: [] ++ [']']) := .noItems rfl
    exact hempty
  | @cons x w xs ws hx hxs =>
    have hindent : "\n    ".toList.all isSpace := by decide
    have htail : "\n  ".toList.all isSpace := by decide
    have hsplit : list (w :: ws) = ('[' :: "\n    ".toList) ++
        List.intercalate (',' :: "\n    ".toList) (w :: ws) ++ ("\n  ".toList ++ [']']) := rfl
    have hvalue := Value.items (items_intercalate hindent htail hx hxs)
    rw [hsplit]
    simpa only [List.cons_append, List.append_assoc] using hvalue

theorem value_map_list {α : Type} {f : α → Json} {w : α → List Char} (h : ∀ a, Value (f a) (w a))
    (as : List α) : Value (.array (as.map f)) (list (as.map w)) := by
  apply value_list
  induction as with
  | nil => exact .nil
  | cons a as ih => exact .cons (h a) ih

/-- A key and a text with white space around them. -/
def field (indent : List Char) (key : String) (w tail : List Char) : List Char :=
  indent ++ (quote key ++ []) ++ ':' :: ([' '] ++ (w ++ tail))

theorem field_field {indent w tail : List Char} (key : String) {x : Json}
    (hindent : indent.all isSpace) (h : Value x w) (htail : tail.all isSpace) :
    Json.Field (key, x) (field indent key w tail) :=
  .mk hindent (quotes_quote key) rfl (.mk rfl h htail)

theorem edge_eq (e : Edge) : edge e =
    '\x7b' :: (field "\n      ".toList "from" (quote e.source) [] ++ ',' ::
      (field "\n      ".toList "to" (quote e.target) [] ++ ',' ::
        field "\n      ".toList "kind" (quote e.kind.name) "\n    ".toList)) ++ ['\x7d'] := by
  have hsplit : edge e =
      '\x7b' :: ("\n      ".toList ++ (quote "from" ++ [':', ' '])) ++ quote e.source ++
      (',' :: ("\n      ".toList ++ (quote "to" ++ [':', ' ']))) ++ quote e.target ++
      (',' :: ("\n      ".toList ++ (quote "kind" ++ [':', ' ']))) ++ quote e.kind.name ++
      ("\n    ".toList ++ ['\x7d']) := rfl
  rw [hsplit]
  simp only [field, List.append_assoc, List.cons_append, List.nil_append, List.append_nil]

theorem value_edge (e : Edge) : Value e.toJson (edge e) := by
  have hindent : "\n      ".toList.all isSpace := by decide
  rw [edge_eq]
  exact .fields (.more (field_field _ hindent (value_quote e.source) rfl)
    (.more (field_field _ hindent (value_quote e.target) rfl)
      (.last (field_field _ hindent (value_quote e.kind.name) (by decide)))))

end JsonText

theorem Listing.json_eq (l : Listing) : l.json =
    '\x7b' :: (JsonText.field "\n  ".toList "nodes" (JsonText.list (l.nodes.map JsonText.quote)) [] ++
      ',' :: JsonText.field "\n  ".toList "edges" (JsonText.list (l.edges.map JsonText.edge)) ['\n']) ++
      ['\x7d'] ++ ['\n'] := by
  have hsplit : l.json =
      '\x7b' :: ("\n  ".toList ++ (JsonText.quote "nodes" ++ [':', ' '])) ++
        JsonText.list (l.nodes.map JsonText.quote) ++
      (',' :: ("\n  ".toList ++ (JsonText.quote "edges" ++ [':', ' ']))) ++
        JsonText.list (l.edges.map JsonText.edge) ++ (['\n'] ++ (['\x7d'] ++ ['\n'])) := rfl
  rw [hsplit]
  simp only [JsonText.field, List.append_assoc, List.cons_append, List.nil_append, List.append_nil]

/-- **The text of a listing follows the grammar.** -/
theorem Listing.spaced_json (l : Listing) : Json.Spaced l.toJson l.json := by
  have hindent : "\n  ".toList.all Json.isSpace := by decide
  have hnodes := JsonText.value_map_list JsonText.value_quote l.nodes
  have hedges := JsonText.value_map_list JsonText.value_edge l.edges
  rw [Listing.json_eq]
  exact .mk (u := []) rfl (.fields (.more (JsonText.field_field _ hindent hnodes rfl)
    (.last (JsonText.field_field _ hindent hedges (by decide))))) (by decide)

theorem Graph.jsonRead?_toJson (g : Graph) : Json.read? g.toJson = some g.listing.toJson :=
  g.listing.spaced_json.read?

theorem Graph.readJson?_toJson (g : Graph) : Listing.readJson? g.toJson = some g.listing := by
  rw [Listing.readJson?, g.jsonRead?_toJson]
  exact g.listing.ofJson?_toJson

/-- **The JSON text of a graph can be read back** to its nodes and edges in order, by any reading
that the grammar allows. -/
theorem json_reads_back (g : Graph) :
    (∃ x, Json.Spaced x g.toJson.toList) ∧
      (∀ x, Json.Spaced x g.toJson.toList →
        Listing.ofJson? x = some ⟨g.sortedNodes, g.sortedEdges⟩) ∧
      Listing.readJson? g.toJson = some ⟨g.sortedNodes, g.sortedEdges⟩ := by
  have htext : g.toJson.toList = g.listing.json := String.toList_ofList
  refine ⟨⟨g.listing.toJson, htext ▸ g.listing.spaced_json⟩, fun x hx => ?_, g.readJson?_toJson⟩
  have hread : Json.read? g.toJson = some x := by
    rw [htext] at hx
    exact hx.read?
  rw [g.jsonRead?_toJson] at hread
  obtain rfl := Option.some.inj hread
  exact g.listing.ofJson?_toJson

/-- A call between names with quotes, backslashes and control characters. -/
def escapedCall : Edge := ⟨"a\x01\"b\x1f", "\\u0041\n\t", .closure⟩

/-- The text holds the names as they are. -/
theorem json_reads_back_escaped :
    ∃ x, Json.Spaced x (Graph.ofSteps [.edge escapedCall]).toJson.toList ∧
      Listing.ofJson? x = some ⟨[escapedCall.target, escapedCall.source], [escapedCall]⟩ := by
  have hnodes : (Graph.ofSteps [.edge escapedCall]).sortedNodes =
      [escapedCall.target, escapedCall.source] := by decide +kernel
  have hedges : (Graph.ofSteps [.edge escapedCall]).sortedEdges = [escapedCall] := by
    decide +kernel
  obtain ⟨⟨x, hx⟩, hvalue, -⟩ := json_reads_back (Graph.ofSteps [.edge escapedCall])
  rw [hnodes, hedges] at hvalue
  exact ⟨x, hx, hvalue x hx⟩

end GoCalls
