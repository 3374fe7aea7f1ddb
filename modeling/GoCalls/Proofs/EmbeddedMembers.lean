import GoCalls.Typing.Index
import Mathlib.Data.List.Basic

/-!
# Members of embedded fields

A type has the members of its own declaration, and the members of the types that it embeds, at any
depth. Structs may embed each other in circles, so the types that are reached form a graph and no
tree. A chain of embedded fields is given here by the positions of the fields, and leads from a type
to one type at most.

* `Index.HasMember`: the members that a type has itself.
* `Index.along`: the type at the end of a chain of embedded fields.
* `Index.Searched`: the rules of a search, in which the depth counts up.
* **`Index.memberWithin_eq_some_iff`**: a search stops at the first chain that leads to a member.
* **`member_found_iff_chain`**: what is found, and when.
* **`promoted_member_shallowest_iff`**: when no other chain to a member is shorter.
-/

namespace GoCalls

namespace Index

variable {index : Index} {name : String}

/-! ## Members of a type itself -/

/-- A member that a type has itself, behind any number of pointers, with the type of the member. -/
inductive HasMember (index : Index) (name : String) (t : Ty) : Ty → Prop
  | method {decl : NamedDecl} {type : Ty} : index.namedDecl? t.stripPointers = some decl →
      decl.methods[name]? = some type → HasMember index name t type
  | field {decl : NamedDecl} {field : FieldDecl} : index.namedDecl? t.stripPointers = some decl →
      field ∈ decl.fields → field.name = name → HasMember index name t field.type
  | error {package : Option String} : t.stripPointers = .named package none "error" →
      name = "Error" → HasMember index name t (.func [.basic "string"])

/-- The type of the member that a type has itself. A method counts before a field. -/
def ownMember? (index : Index) (name : String) (t : Ty) : Option Ty :=
  match t.stripPointers with
  | .named _ none typeName =>
    if typeName = "error" && name = "Error" then some (.func [.basic "string"]) else none
  | base => (index.namedDecl? base).bind fun decl =>
    (decl.methods[name]?).or ((decl.fields.find? (·.name = name)).map (·.type))

/-- The fields that a type embeds, in their order. -/
def embedded (index : Index) (t : Ty) : List FieldDecl :=
  match index.namedDecl? t.stripPointers with
  | some decl => decl.fields.filter (·.embedded)
  | none => []

theorem ownMember?_of_path_eq_none {t : Ty} {package : Option String} {typeName : String}
    (h : t.stripPointers = .named package none typeName) :
    index.ownMember? name t =
      if typeName = "error" && name = "Error" then some (.func [.basic "string"]) else none := by
  unfold ownMember?
  rw [h]

theorem ownMember?_of_path_ne_none {t : Ty}
    (h : ∀ package typeName, t.stripPointers ≠ .named package none typeName) :
    index.ownMember? name t = (index.namedDecl? t.stripPointers).bind fun decl =>
      (decl.methods[name]?).or ((decl.fields.find? (·.name = name)).map (·.type)) := by
  unfold ownMember?
  split
  · rename_i hbase
    exact absurd hbase (h _ _)
  · rfl

/-- Types of the language are declared in no package. -/
theorem namedDecl?_of_path_eq_none {t : Ty} {package : Option String} {typeName : String}
    (h : t.stripPointers = .named package none typeName) :
    index.namedDecl? t.stripPointers = none := by
  rw [h]
  rfl

theorem ownMember?_of_namedDecl? {t : Ty} {decl : NamedDecl}
    (hd : index.namedDecl? t.stripPointers = some decl) :
    index.ownMember? name t =
      (decl.methods[name]?).or ((decl.fields.find? (·.name = name)).map (·.type)) := by
  rw [ownMember?_of_path_ne_none, hd, Option.bind_some]
  intro package typeName hbase
  rw [namedDecl?_of_path_eq_none hbase] at hd
  cases hd

theorem hasMember_of_ownMember? {t type : Ty} (h : index.ownMember? name t = some type) :
    index.HasMember name t type := by
  by_cases hbase : ∃ package typeName, t.stripPointers = .named package none typeName
  · obtain ⟨package, typeName, hbase⟩ := hbase
    rw [ownMember?_of_path_eq_none hbase] at h
    split_ifs at h with herror
    obtain ⟨rfl, hname⟩ : typeName = "error" ∧ name = "Error" := by simpa using herror
    obtain rfl := Option.some.inj h
    exact .error hbase hname
  · rw [ownMember?_of_path_ne_none (by simpa using hbase)] at h
    obtain ⟨decl, hd, h⟩ := Option.bind_eq_some_iff.mp h
    rcases Option.or_eq_some_iff.mp h with hmethod | ⟨-, hfield⟩
    · exact .method hd hmethod
    · obtain ⟨field, hf, rfl⟩ := Option.map_eq_some_iff.mp hfield
      have hname : field.name = name := by simpa using List.find?_some hf
      exact .field hd (List.mem_of_find?_eq_some hf) hname

theorem isSome_ownMember? {t type : Ty} (h : index.HasMember name t type) :
    (index.ownMember? name t).isSome := by
  cases h with
  | method hd hmethod =>
    rw [ownMember?_of_namedDecl? hd, hmethod]
    rfl
  | @field decl field hd hf hname =>
    have hfound : (decl.fields.find? (·.name = name)).isSome := by
      rw [List.find?_isSome]
      exact ⟨field, hf, by simpa using hname⟩
    rw [ownMember?_of_namedDecl? hd, Option.isSome_or, Option.isSome_map, hfound, Bool.or_true]
  | error hbase hname =>
    rw [ownMember?_of_path_eq_none hbase, hname]
    rfl

theorem HasMember.of_namedDecl? {t type : Ty} {decl : NamedDecl} (h : index.HasMember name t type)
    (hd : index.namedDecl? t.stripPointers = some decl) :
    decl.methods[name]? = some type ∨ ∃ field ∈ decl.fields, field.name = name := by
  cases h with
  | method hd' hmethod =>
    obtain rfl := Option.some.inj (hd.symm.trans hd')
    exact .inl hmethod
  | field hd' hfield hname =>
    obtain rfl := Option.some.inj (hd.symm.trans hd')
    exact .inr ⟨_, hfield, hname⟩
  | error hbase _ =>
    rw [namedDecl?_of_path_eq_none hbase] at hd
    cases hd

/-! ## Chains -/

/-- The type at the end of a chain of embedded fields, which are given by their positions. -/
def along (index : Index) : Ty → List Nat → Option Ty
  | t, [] => some t
  | t, i :: path => (index.embedded t)[i]?.bind fun field => index.along field.type path

/-- A chain leads to a type that has a member itself. -/
def Leads (index : Index) (name : String) (t : Ty) (path : List Nat) : Prop :=
  ∃ u type, index.along t path = some u ∧ index.HasMember name u type

/-- The type of the member at the end of a chain. -/
def memberAlong (index : Index) (name : String) (t : Ty) (path : List Nat) : Option Ty :=
  (index.along t path).bind (index.ownMember? name)

theorem memberAlong_cons (t : Ty) (i : Nat) (path : List Nat) :
    index.memberAlong name t (i :: path) =
      (index.embedded t)[i]?.bind fun field => index.memberAlong name field.type path :=
  Option.bind_assoc _ _ _

theorem leads_iff {t : Ty} {path : List Nat} :
    index.Leads name t path ↔ (index.memberAlong name t path).isSome := by
  constructor
  · rintro ⟨u, type, hu, hm⟩
    rw [memberAlong, hu]
    exact isSome_ownMember? hm
  · intro h
    obtain ⟨type, htype⟩ := Option.isSome_iff_exists.mp h
    obtain ⟨u, hu, hm⟩ := Option.bind_eq_some_iff.mp htype
    exact ⟨u, type, hu, hasMember_of_ownMember? hm⟩

/-! ## The search -/

/-- **One step of the search**: a type comes before all that it embeds. -/
theorem memberWithin_succ (fuel : Nat) (t : Ty) :
    index.memberWithin name (fuel + 1) t =
      (index.ownMember? name t).or
        ((index.embedded t).findSome? fun field => index.memberWithin name fuel field.type) := by
  rw [memberWithin, embedded]
  split
  · rename_i hbase
    rw [ownMember?_of_path_eq_none hbase, namedDecl?_of_path_eq_none hbase, List.findSome?_nil,
      Option.or_none]
  · rename_i hbase
    rw [ownMember?_of_path_ne_none hbase]
    cases index.namedDecl? t.stripPointers with
    | none => rfl
    | some decl => simp [Option.or_assoc]

/-- Nothing is found where no short chain leads to a member. -/
theorem memberWithin_eq_none_iff {fuel : Nat} {t : Ty} :
    index.memberWithin name (fuel + 1) t = none ↔
      ∀ path : List Nat, path.length ≤ fuel → index.memberAlong name t path = none := by
  induction fuel generalizing t with
  | zero =>
    rw [memberWithin_succ, Option.or_eq_none_iff]
    constructor
    · rintro ⟨hown, -⟩ path hpath
      obtain rfl := List.eq_nil_of_length_eq_zero (Nat.le_zero.mp hpath)
      exact hown
    · intro h
      refine ⟨h [] (Nat.le_refl 0), ?_⟩
      exact List.findSome?_eq_none_iff.mpr fun _ _ => rfl
  | succ fuel ih =>
    rw [memberWithin_succ, Option.or_eq_none_iff, List.findSome?_eq_none_iff]
    constructor
    · rintro ⟨hown, hfields⟩ path hpath
      cases path with
      | nil => exact hown
      | cons i path =>
        rw [memberAlong_cons, Option.bind_eq_none_iff]
        intro field hi
        have hnone := hfields field (List.mem_of_getElem? hi)
        exact ih.mp hnone path (by simpa using hpath)
    · intro h
      refine ⟨h [] (Nat.zero_le _), fun field hf => ih.mpr fun path hpath => ?_⟩
      obtain ⟨i, hi⟩ := List.getElem?_of_mem hf
      have hnone := h (i :: path) (by simpa using hpath)
      rw [memberAlong_cons, hi] at hnone
      exact hnone

/-- A chain of at most `fuel` embedded fields leads to a member, and no chain before it in a search
in depth does. -/
structure FirstChain (index : Index) (name : String) (fuel : Nat) (t : Ty) (path : List Nat)
    (type : Ty) : Prop where
  length_le : path.length ≤ fuel
  member : index.memberAlong name t path = some type
  first : ∀ other : List Nat, other.length ≤ fuel → other < path →
    index.memberAlong name t other = none

namespace FirstChain

variable {fuel : Nat} {t type : Ty} {path : List Nat}

theorem of_ownMember? (h : index.ownMember? name t = some type) :
    index.FirstChain name fuel t [] type :=
  ⟨Nat.zero_le _, h, fun _ _ hlt => absurd hlt (List.not_lt_nil _)⟩

theorem embedded {before after : List FieldDecl} {field : FieldDecl}
    (hown : index.ownMember? name t = none) (hsplit : index.embedded t = before ++ field :: after)
    (hbefore : ∀ f ∈ before, index.memberWithin name (fuel + 1) f.type = none)
    (h : index.FirstChain name fuel field.type path type) :
    index.FirstChain name (fuel + 1) t (before.length :: path) type := by
  have hfield : (index.embedded t)[before.length]? = some field := by simp [hsplit]
  refine ⟨by simpa using h.length_le, ?_, fun other hlength hlt => ?_⟩
  · rw [memberAlong_cons, hfield]
    exact h.member
  · cases other with
    | nil => exact hown
    | cons j other =>
      have hlength' : other.length ≤ fuel := by simpa using hlength
      rw [memberAlong_cons, Option.bind_eq_none_iff]
      intro f hf
      rcases List.cons_lt_cons_iff.mp hlt with hj | ⟨rfl, hrest⟩
      · have hmem : f ∈ before := by
          rw [hsplit, List.getElem?_append_left hj] at hf
          exact List.mem_of_getElem? hf
        exact memberWithin_eq_none_iff.mp (hbefore f hmem) other hlength'
      · obtain rfl := Option.some.inj (hfield.symm.trans hf)
        exact h.first other hlength' hrest

theorem cases_on (h : index.FirstChain name fuel t path type) :
    index.ownMember? name t = some type ∨
      index.ownMember? name t = none ∧ ∃ before field after rest fuel', fuel = fuel' + 1 ∧
        index.embedded t = before ++ field :: after ∧
        (∀ f ∈ before, index.memberWithin name (fuel' + 1) f.type = none) ∧
        index.FirstChain name fuel' field.type rest type := by
  cases path with
  | nil => exact .inl h.member
  | cons i rest =>
    have hlength := h.length_le
    have hmember := h.member
    rw [List.length_cons] at hlength
    rw [memberAlong_cons] at hmember
    obtain ⟨fuel', rfl⟩ : ∃ fuel', fuel = fuel' + 1 := ⟨fuel - 1, by omega⟩
    obtain ⟨field, hfield, hmember⟩ := Option.bind_eq_some_iff.mp hmember
    obtain ⟨hi, rfl⟩ := List.getElem?_eq_some_iff.mp hfield
    have hsplit : index.embedded t =
        (index.embedded t).take i ++ (index.embedded t)[i] :: (index.embedded t).drop (i + 1) := by
      rw [List.getElem_cons_drop, List.take_append_drop]
    refine .inr ⟨h.first [] (Nat.zero_le _) (List.nil_lt_cons _ _), _, _, _, rest, fuel', rfl,
      hsplit, fun f hf => ?_, ⟨by omega, hmember, fun other hother hlt => ?_⟩⟩
    · obtain ⟨j, hj⟩ := List.getElem?_of_mem hf
      have hji : j < i := by
        have := (List.getElem?_eq_some_iff.mp hj).1
        rw [List.length_take] at this
        omega
      rw [List.getElem?_take_of_lt hji] at hj
      refine memberWithin_eq_none_iff.mpr fun other hother => ?_
      have hnone := h.first (j :: other) (by simpa using hother)
        (List.cons_lt_cons_iff.mpr (.inl hji))
      rw [memberAlong_cons, hj] at hnone
      exact hnone
    · have hnone := h.first (i :: other) (by simpa using hother)
        (List.cons_lt_cons_iff.mpr (.inr ⟨rfl, hlt⟩))
      rw [memberAlong_cons, hfield] at hnone
      exact hnone

end FirstChain

/-- **A search stops at the first chain that leads to a member.** -/
theorem memberWithin_eq_some_iff {fuel : Nat} {t type : Ty} :
    index.memberWithin name (fuel + 1) t = some type ↔
      ∃ path, index.FirstChain name fuel t path type := by
  induction fuel generalizing t with
  | zero =>
    rw [memberWithin_succ, Option.or_eq_some_iff]
    constructor
    · rintro (hown | ⟨-, hfields⟩)
      · exact ⟨[], .of_ownMember? hown⟩
      · obtain ⟨field, -, hnone⟩ := List.exists_of_findSome?_eq_some hfields
        cases hnone
    · rintro ⟨path, h⟩
      rcases h.cases_on with hown | ⟨-, _, _, _, _, fuel', hfuel, -⟩
      · exact .inl hown
      · cases hfuel
  | succ fuel ih =>
    rw [memberWithin_succ, Option.or_eq_some_iff, List.findSome?_eq_some_iff]
    constructor
    · rintro (hown | ⟨hown, before, field, after, hsplit, hfield, hbefore⟩)
      · exact ⟨[], .of_ownMember? hown⟩
      · obtain ⟨path, h⟩ := ih.mp hfield
        exact ⟨before.length :: path, .embedded hown hsplit hbefore h⟩
    · rintro ⟨path, h⟩
      rcases h.cases_on with
        hown | ⟨hown, before, field, after, rest, fuel', hfuel, hsplit, hbefore, h⟩
      · exact .inl hown
      · obtain rfl : fuel = fuel' := by omega
        exact .inr ⟨hown, before, field, after, hsplit, ih.mpr ⟨rest, h⟩, hbefore⟩

/-- A search that has come to its end, at a depth that counts embedded fields from the start. -/
inductive Searched (index : Index) (name : String) : (depth : Nat) → Ty → Option Ty → Prop
  | tooDeep {depth : Nat} {t : Ty} : maxTypeDepth < depth → Searched index name depth t none
  | own {depth : Nat} {t type : Ty} : depth ≤ maxTypeDepth → index.ownMember? name t = some type →
      Searched index name depth t (some type)
  | found {depth : Nat} {t type : Ty} {before after : List FieldDecl} {field : FieldDecl} :
      depth ≤ maxTypeDepth → index.ownMember? name t = none →
      index.embedded t = before ++ field :: after →
      (∀ f ∈ before, Searched index name (depth + 1) f.type none) →
      Searched index name (depth + 1) field.type (some type) →
      Searched index name depth t (some type)
  | exhausted {depth : Nat} {t : Ty} : depth ≤ maxTypeDepth → index.ownMember? name t = none →
      (∀ f ∈ index.embedded t, Searched index name (depth + 1) f.type none) →
      Searched index name depth t none

theorem searched_memberWithin {depth fuel : Nat} (h : depth + fuel = maxTypeDepth + 1) (t : Ty) :
    index.Searched name depth t (index.memberWithin name fuel t) := by
  -- What is left of the levels and the depth add up to the same number in each step.
  induction fuel generalizing depth t with
  | zero => exact .tooDeep (by omega)
  | succ fuel ih =>
    have hdepth : depth ≤ maxTypeDepth := by omega
    have hstep (f : FieldDecl) :
        index.Searched name (depth + 1) f.type (index.memberWithin name fuel f.type) :=
      ih (by omega) f.type
    rw [memberWithin_succ]
    cases hown : index.ownMember? name t with
    | some type => exact .own hdepth hown
    | none =>
      rw [Option.none_or]
      cases hfound : (index.embedded t).findSome? fun f => index.memberWithin name fuel f.type with
      | none =>
        refine .exhausted hdepth hown fun f hf => ?_
        have := hstep f
        rwa [List.findSome?_eq_none_iff.mp hfound f hf] at this
      | some type =>
        obtain ⟨before, field, after, hsplit, hfield, hbefore⟩ :=
          List.findSome?_eq_some_iff.mp hfound
        refine .found hdepth hown hsplit (fun f hf => ?_) (hfield ▸ hstep field)
        have := hstep f
        rwa [hbefore f hf] at this

end Index

/-! ## What is found -/

/-- **Member lookup is complete up to its depth**: it finds a type exactly where a chain of at most
eight embedded fields leads to a member. -/
theorem member_found_iff_chain (index : Index) (t : Ty) (name : String) :
    index.Searched name 0 t (index.memberType t name) ∧
      ((index.memberType t name).isSome ↔
        ∃ path : List Nat, path.length ≤ 8 ∧ index.Leads name t path) ∧
      ∀ type, index.memberType t name = some type →
        ∃ (path : List Nat) (u : Ty), path.length ≤ 8 ∧ index.along t path = some u ∧
          index.HasMember name u type := by
  have hfound (type : Ty) (h : index.memberType t name = some type) :
      ∃ (path : List Nat) (u : Ty), path.length ≤ 8 ∧ index.along t path = some u ∧
        index.HasMember name u type := by
    obtain ⟨path, hfirst⟩ := Index.memberWithin_eq_some_iff.mp h
    obtain ⟨u, hu, hm⟩ := Option.bind_eq_some_iff.mp hfirst.member
    exact ⟨path, u, hfirst.length_le, hu, Index.hasMember_of_ownMember? hm⟩
  refine ⟨Index.searched_memberWithin (Nat.zero_add _) t, ⟨fun h => ?_, ?_⟩, hfound⟩
  · obtain ⟨type, htype⟩ := Option.isSome_iff_exists.mp h
    obtain ⟨path, u, hlength, hu, hm⟩ := hfound type htype
    exact ⟨path, hlength, u, type, hu, hm⟩
  · rintro ⟨path, hlength, hleads⟩
    by_contra hnone
    rw [Option.not_isSome_iff_eq_none] at hnone
    have hmember := Index.memberWithin_eq_none_iff.mp hnone path hlength
    rw [Index.leads_iff, hmember] at hleads
    cases hleads

/-- Two types that embed each other. -/
def ouroboros : Package where
  name := "app"
  path := "example.com/app"
  files := [{ path := "app.go", package := "app", imports := [], decls := [
    .type ⟨⟨0, "Head"⟩, .struct [.mk none (.pointer (.name none "Tail"))], false⟩,
    .type ⟨⟨1, "Tail"⟩, .struct [.mk none (.pointer (.name none "Head"))], false⟩] }]

example : (Index.ofPackages [ouroboros]).memberType (.declared "app" "example.com/app" "Head")
    "Run" = none := rfl

/-! ## Depth -/

/-- One chain continues the other, or they part. -/
theorem continues_or_parts {path other : List Nat} (h : ¬ other < path) :
    path.length ≤ other.length ∨ ∃ (k : Nat) (hk : k < path.length) (j : Nat) (rest : List Nat),
      path[k] < j ∧ other = path.take k ++ j :: rest := by
  rcases List.le_iff_exists.mp (List.not_lt.mp h) with hcontinues | ⟨k, hk, hk', heq, hlt⟩
  · refine .inl ?_
    rw [hcontinues]
    exact List.length_take_le' _ _
  · refine .inr ⟨k, hk, other[k], other.drop (k + 1), hlt, ?_⟩
    have htake : path.take k = other.take k := by
      refine List.ext_getElem (by simp; omega) fun i hi _ => ?_
      rw [List.length_take] at hi
      rw [List.getElem_take, List.getElem_take, heq i (by omega)]
    rw [htake, List.getElem_cons_drop, List.take_append_drop]

/-- **When a promoted member has the smallest depth**: no later field on the way leads to the name
in fewer steps. -/
theorem promoted_member_shallowest_iff {index : Index} {t : Ty} {name : String} {type : Ty}
    (h : index.memberType t name = some type) :
    ∃ (path : List Nat) (u : Ty), path.length ≤ 8 ∧ index.along t path = some u ∧
      index.HasMember name u type ∧
      (∀ other : List Nat, other.length ≤ 8 → other < path → ¬ index.Leads name t other) ∧
      ((∀ other : List Nat, index.Leads name t other → path.length ≤ other.length) ↔
        ∀ (k : Nat) (hk : k < path.length) (j : Nat) (rest : List Nat), path[k] < j →
          index.Leads name t (path.take k ++ j :: rest) → path.length ≤ k + 1 + rest.length) := by
  obtain ⟨path, hfirst⟩ := Index.memberWithin_eq_some_iff.mp h
  obtain ⟨u, hu, hm⟩ := Option.bind_eq_some_iff.mp hfirst.member
  have hlength : path.length ≤ 8 := hfirst.length_le
  have hnone (other : List Nat) (hother : other.length ≤ 8) (hlt : other < path) :
      ¬ index.Leads name t other := by
    rw [Index.leads_iff, hfirst.first other hother hlt]
    exact Bool.false_ne_true
  refine ⟨path, u, hlength, hu, Index.hasMember_of_ownMember? hm, hnone, fun hshort => ?_,
    fun hlater => ?_⟩
  · intro k hk j rest _ hleads
    have := hshort _ hleads
    rw [List.length_append, List.length_take, List.length_cons] at this
    omega
  · intro other hleads
    by_cases hother : other.length ≤ 8
    · -- A chain that is not before the one found continues it, or leaves it for a later field.
      rcases continues_or_parts fun hlt => hnone other hother hlt hleads with hle | hparts
      · exact hle
      · obtain ⟨k, hk, j, rest, hlt, rfl⟩ := hparts
        have := hlater k hk j rest hlt hleads
        rw [List.length_append, List.length_take, List.length_cons]
        omega
    · omega

/-- Structs with two embedded fields that have a method `Open`: `Shallow` itself, and `Middle` through
one more field. -/
def openers : Package where
  name := "app"
  path := "m/app"
  files := [{ path := "app.go", package := "app", imports := [], decls := [
    .type ⟨⟨0, "Far"⟩, .struct [], false⟩,
    .type ⟨⟨1, "Near"⟩, .struct [], false⟩,
    .type ⟨⟨2, "Deep"⟩, .struct [], false⟩,
    .func { name := ⟨3, "Open"⟩, recv := some ⟨none, .name none "Deep"⟩, params := []
            results := [⟨[], .name none "Far"⟩], body := none },
    .type ⟨⟨4, "Middle"⟩, .struct [.mk none (.name none "Deep")], false⟩,
    .type ⟨⟨5, "Shallow"⟩, .struct [], false⟩,
    .func { name := ⟨6, "Open"⟩, recv := some ⟨none, .name none "Shallow"⟩, params := []
            results := [⟨[], .name none "Near"⟩], body := none },
    .type ⟨⟨7, "Top"⟩, .struct [.mk none (.name none "Middle"), .mk none (.name none "Shallow")],
      false⟩,
    .type ⟨⟨8, "Turned"⟩, .struct [.mk none (.name none "Shallow"), .mk none (.name none "Middle")],
      false⟩] }]

/-- In the other order of fields, the member at the smallest depth is found. -/
theorem promoted_member_shallowest_turned :
    let index := Index.ofPackages [openers]
    let t := Ty.declared "app" "m/app" "Turned"
    index.memberType t "Open" = some (.func [.declared "app" "m/app" "Near"]) ∧
      ∃ (path : List Nat) (u : Ty), path.length ≤ 8 ∧ index.along t path = some u ∧
        index.HasMember "Open" u (.func [.declared "app" "m/app" "Near"]) ∧
        ∀ other : List Nat, index.Leads "Open" t other → path.length ≤ other.length := by
  intro index t
  have h : index.memberType t "Open" = some (.func [.declared "app" "m/app" "Near"]) := rfl
  refine ⟨h, ?_⟩
  obtain ⟨path, u, hlength, hu, hm, hfirst, hiff⟩ := promoted_member_shallowest_iff h
  refine ⟨path, u, hlength, hu, hm, hiff.mpr fun k hk j rest _ _ => ?_⟩
  have hzero : index.Leads "Open" t [0] := Index.leads_iff.mpr rfl
  have hle : path.length ≤ 1 := by
    rcases continues_or_parts (hfirst [0] (by decide) · hzero) with hle | ⟨k, _, j, rest, hlt, heq⟩
    · exact hle
    · cases k with
      | zero =>
        obtain ⟨rfl, -⟩ := List.cons.inj heq
        exact absurd hlt (Nat.not_lt_zero _)
      | succ k =>
        have := congrArg List.length heq
        rw [List.length_singleton, List.length_append, List.length_take, List.length_cons] at this
        omega
  omega

/-- A deeper member of an earlier field comes first. -/
theorem promoted_member_deeper_first :
    let index := Index.ofPackages [openers]
    let t := Ty.declared "app" "m/app" "Top"
    ¬ ∀ type, index.memberType t "Open" = some type →
      ∃ (path : List Nat) (u : Ty), index.along t path = some u ∧ index.HasMember "Open" u type ∧
        ∀ other : List Nat, index.Leads "Open" t other → path.length ≤ other.length := by
  intro index t h
  obtain ⟨path, u, hu, hm, hshort⟩ := h (.func [.declared "app" "m/app" "Far"]) rfl
  have hle : path.length ≤ 1 := hshort [1] (Index.leads_iff.mpr rfl)
  -- Neither the type itself nor its first field has the member, and the second one has another.
  match path, hle with
  | [], _ =>
    obtain rfl : t = u := Option.some.inj hu
    exact absurd (Index.isSome_ownMember? hm) (by decide)
  | [0], _ =>
    obtain rfl : .declared "app" "m/app" "Middle" = u := Option.some.inj hu
    exact absurd (Index.isSome_ownMember? hm) (by decide)
  | [1], _ =>
    obtain rfl : .declared "app" "m/app" "Shallow" = u := Option.some.inj hu
    have hdecl : (index.namedDecl? (Ty.declared "app" "m/app" "Shallow").stripPointers).map
        (fun decl => (decl.methods["Open"]?, decl.fields)) =
          some (some (.func [.declared "app" "m/app" "Near"]), []) := rfl
    obtain ⟨decl, hd, hparts⟩ := Option.map_eq_some_iff.mp hdecl
    obtain ⟨hmethod, hfields⟩ := Prod.mk.inj hparts
    rcases hm.of_namedDecl? hd with hm | ⟨field, hf, -⟩
    · rw [hmethod] at hm
      simp [Ty.declared] at hm
    · rw [hfields] at hf
      cases hf
  | [_ + 2], _ => cases hu
  | _ :: _ :: _, hle => simp at hle

end GoCalls
