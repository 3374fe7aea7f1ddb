import GoCalls.Proofs.Marks
import GoCalls.Typing.Check
import Mathlib.Tactic.SplitIfs

/-!
# What a visit does

A visit of some syntax does two things: it records what the marks of the syntax stand for, and it
declares names in the innermost scope. This is stated once, as a property of computations with rules
for their composition, and for any property `T` of types and `Q` of names with their symbols that the
file keeps (`Keeps`).

* `Tables.Grows`: tables with new entries, each for a mark.
* `Visits`: a computation that only records and declares.
* `Keeps`: what is known in a file has the properties, and typing keeps them.
* **`visitExpr_visits`**, **`visitStmt_visits`**: checking only records and declares.
-/

namespace GoCalls

variable {T : Ty → Prop} {Q : MarkKind → String → Symbol → Prop}

/-! ## Tables -/

/-- Tables with new entries for some marks. -/
structure Tables.Grows (T : Ty → Prop) (Q : MarkKind → String → Symbol → Prop) (marks : List Mark)
    (t t' : Tables) : Prop where
  uses : ∀ id : Nat, t'.uses[id]? = t.uses[id]? ∨
    ∃ kind name symbol, kind ≠ .selector ∧ ⟨id, name, kind⟩ ∈ marks ∧
      t'.uses[id]? = some symbol ∧ Q kind name symbol
  selections : ∀ id : Nat, t'.selections[id]? = t.selections[id]? ∨
    ∃ selection, ⟨id, selection.name, .selector⟩ ∈ marks ∧ t'.selections[id]? = some selection ∧
      T selection.recv

namespace Tables.Grows

variable {marks more : List Mark} {t u w : Tables}

theorem refl (marks : List Mark) (t : Tables) : Grows T Q marks t t :=
  ⟨fun _ => .inl rfl, fun _ => .inl rfl⟩

theorem mono (h : Grows T Q marks t u) (hsub : marks ⊆ more) : Grows T Q more t u where
  uses id := (h.uses id).imp_right fun ⟨kind, name, symbol, hkind, hm, hr⟩ =>
    ⟨kind, name, symbol, hkind, hsub hm, hr⟩
  selections id := (h.selections id).imp_right fun ⟨selection, hm, hr⟩ => ⟨selection, hsub hm, hr⟩

theorem trans (h : Grows T Q marks t u) (h' : Grows T Q marks u w) : Grows T Q marks t w where
  uses id := by
    rcases h'.uses id with he | hnew
    · rw [he]
      exact h.uses id
    · exact .inr hnew
  selections id := by
    rcases h'.selections id with he | hnew
    · rw [he]
      exact h.selections id
    · exact .inr hnew

theorem recordUse (t : Tables) {id : Nat} {kind : MarkKind} {name : String} {symbol : Symbol}
    (hkind : kind ≠ .selector) (hm : ⟨id, name, kind⟩ ∈ marks) (hq : Q kind name symbol) :
    Grows T Q marks t (t.recordUse id symbol) where
  uses k := by
    by_cases hk : k = id
    · subst hk
      exact .inr ⟨kind, name, symbol, hkind, hm, by simp [Tables.recordUse], hq⟩
    · refine .inl ?_
      rw [Tables.recordUse, Std.TreeMap.getElem?_insert]
      simp [Ne.symm hk]
  selections _ := .inl rfl

theorem recordSelection (t : Tables) {id : Nat} {selection : Selection}
    (hm : ⟨id, selection.name, .selector⟩ ∈ marks) (ht : T selection.recv) :
    Grows T Q marks t (t.recordSelection id selection) where
  uses _ := .inl rfl
  selections k := by
    by_cases hk : k = id
    · subst hk
      exact .inr ⟨selection, hm, by simp [Tables.recordSelection], ht⟩
    · refine .inl ?_
      rw [Tables.recordSelection, Std.TreeMap.getElem?_insert]
      simp [Ne.symm hk]

/-- Each use is of a mark. -/
theorem of_use (h : Grows T Q marks {} t) {id : Nat} {symbol : Symbol}
    (hs : t.uses[id]? = some symbol) :
    ∃ kind name, kind ≠ .selector ∧ ⟨id, name, kind⟩ ∈ marks ∧ Q kind name symbol := by
  rcases h.uses id with he | ⟨kind, name, found, hkind, hm, he, hq⟩
  · rw [hs] at he
    simp at he
  · obtain rfl := Option.some.inj (hs.symm.trans he)
    exact ⟨kind, name, hkind, hm, hq⟩

theorem of_selection (h : Grows T Q marks {} t) {id : Nat} {selection : Selection}
    (hs : t.selections[id]? = some selection) :
    ⟨id, selection.name, .selector⟩ ∈ marks ∧ T selection.recv := by
  rcases h.selections id with he | ⟨found, hm, he, ht⟩
  · rw [hs] at he
    simp at he
  · obtain rfl := Option.some.inj (hs.symm.trans he)
    exact ⟨hm, ht⟩

end Tables.Grows

/-! ## Scopes -/

/-- The scopes with new entries in the innermost one. -/
def growScopes (new : Scope) : List Scope → List Scope
  | [] => []
  | scope :: outer => (new ++ scope) :: outer

/-- All entries of some scopes have the property. -/
def SoundScopes (Q : MarkKind → String → Symbol → Prop) (scopes : List Scope) : Prop :=
  ∀ scope ∈ scopes, ∀ entry ∈ scope, Q .name entry.1 entry.2

@[simp] theorem growScopes_nil (scopes : List Scope) : growScopes [] scopes = scopes := by
  cases scopes <;> rfl

theorem growScopes_growScopes (new newer : Scope) (scopes : List Scope) :
    growScopes newer (growScopes new scopes) = growScopes (newer ++ new) scopes := by
  cases scopes <;> simp [growScopes]

theorem SoundScopes.grow {new : Scope} {scopes : List Scope} (h : SoundScopes Q scopes)
    (hnew : ∀ entry ∈ new, Q .name entry.1 entry.2) : SoundScopes Q (growScopes new scopes) := by
  cases scopes with
  | nil => exact h
  | cons scope outer =>
    intro s hs entry he
    rcases List.mem_cons.mp hs with rfl | hs
    · rcases List.mem_append.mp he with he | he
      · exact hnew entry he
      · exact h scope List.mem_cons_self entry he
    · exact h s (List.mem_cons_of_mem _ hs) entry he

theorem SoundScopes.push {scopes : List Scope} (h : SoundScopes Q scopes) :
    SoundScopes Q ([] :: scopes) := by
  intro s hs entry he
  rcases List.mem_cons.mp hs with rfl | hs
  · simp at he
  · exact h s hs entry he

theorem SoundScopes.lookup {scopes : List Scope} (h : SoundScopes Q scopes) {name : String}
    {symbol : Symbol} (hl : lookupScopes scopes name = some symbol) : Q .name name symbol := by
  obtain ⟨scope, hs, hl⟩ := List.exists_of_findSome?_eq_some hl
  obtain ⟨front, back, rfl, -⟩ := List.lookup_eq_some_iff.mp hl
  exact h _ hs (name, symbol) (List.mem_append_right _ List.mem_cons_self)

/-! ## Computations that record and declare -/

/-- From one state of a visit to a later one, marks were recorded and names declared in the innermost
scope. -/
structure Visited (T : Ty → Prop) (Q : MarkKind → String → Symbol → Prop) (marks : List Mark)
    (names : List String) (v v' : Visit) : Prop where
  scopes : ∃ new : Scope, v'.scopes = growScopes new v.scopes ∧
    ∀ entry ∈ new, entry.1 ∈ names ∧ Q .name entry.1 entry.2
  tables : v.tables.Grows T Q marks v'.tables

/-- A computation only records marks and declares names, and its result has the property `post`. -/
def Visits (T : Ty → Prop) (Q : MarkKind → String → Symbol → Prop) (marks : List Mark)
    (names : List String) {α : Type} (post : α → Prop) (m : StateM Visit α) : Prop :=
  ∀ v : Visit, SoundScopes Q v.scopes →
    post (m.run v).1 ∧ Visited T Q marks names v (m.run v).2

theorem Visited.sound {marks : List Mark} {names : List String} {v v' : Visit}
    (h : Visited T Q marks names v v') (hv : SoundScopes Q v.scopes) : SoundScopes Q v'.scopes := by
  obtain ⟨new, hs, hnew⟩ := h.scopes
  rw [hs]
  exact hv.grow fun entry he => (hnew entry he).2

theorem Visited.mono {marks more : List Mark} {names wider : List String} {v v' : Visit}
    (h : Visited T Q marks names v v') (hm : marks ⊆ more) (hn : names ⊆ wider) :
    Visited T Q more wider v v' := by
  obtain ⟨new, hs, hnew⟩ := h.scopes
  exact ⟨⟨new, hs, fun entry he => ⟨hn (hnew entry he).1, (hnew entry he).2⟩⟩, h.tables.mono hm⟩

theorem Visited.trans {marks : List Mark} {names : List String} {v v' v'' : Visit}
    (h : Visited T Q marks names v v') (h' : Visited T Q marks names v' v'') :
    Visited T Q marks names v v'' := by
  obtain ⟨new, hs, hnew⟩ := h.scopes
  obtain ⟨newer, hs', hnewer⟩ := h'.scopes
  refine ⟨⟨newer ++ new, ?_, ?_⟩, h.tables.trans h'.tables⟩
  · rw [hs', hs, growScopes_growScopes]
  · intro entry he
    rcases List.mem_append.mp he with he | he
    · exact hnewer entry he
    · exact hnew entry he

namespace Visits

variable {α β : Type} {marks more : List Mark} {names wider : List String} {post : α → Prop}
  {post' : β → Prop} {m : StateM Visit α} {f : α → StateM Visit β}

theorem pure {a : α} (h : post a) : Visits T Q [] [] post (Pure.pure a) := fun v _ =>
  ⟨h, ⟨[], (growScopes_nil _).symm, by simp⟩, .refl _ _⟩

theorem mono {post' : α → Prop} (h : Visits T Q marks names post m) (hm : marks ⊆ more)
    (hn : names ⊆ wider) (hp : ∀ a, post a → post' a) : Visits T Q more wider post' m :=
  fun v hv => ⟨hp _ (h v hv).1, (h v hv).2.mono hm hn⟩

theorem weaken (h : Visits T Q marks names post m) (hm : marks ⊆ more) (hn : names ⊆ wider) :
    Visits T Q more wider post m := h.mono hm hn fun _ => id

theorem bind (hm : Visits T Q marks names post m)
    (hf : ∀ a, post a → Visits T Q more wider post' (f a)) :
    Visits T Q (marks ++ more) (names ++ wider) post' (m >>= f) := by
  intro v hv
  obtain ⟨hpost, hvis⟩ := hm v hv
  obtain ⟨hpost', hvis'⟩ := hf _ hpost _ (hvis.sound hv)
  refine ⟨hpost', (hvis.mono ?_ ?_).trans (hvis'.mono ?_ ?_)⟩ <;> simp

/-- What is computed from a result without a visit. -/
theorem compute (hm : Visits T Q marks names post m)
    (hf : ∀ a, post a → Visits T Q [] [] post' (f a)) : Visits T Q marks names post' (m >>= f) :=
  (hm.bind hf).weaken (by simp) (by simp)

theorem result {a : α} (h : post a) : Visits T Q marks names post (Pure.pure a) :=
  (pure h).weaken (by simp) (by simp)

theorem drop (h : Visits T Q marks names post m) :
    Visits T Q marks names (fun _ => True) (do let _ ← m) :=
  h.compute fun _ _ => pure trivial

theorem get {f : Visit → StateM Visit α}
    (h : ∀ u : Visit, SoundScopes Q u.scopes → Visits T Q marks names post (f u)) :
    Visits T Q marks names post (MonadState.get >>= f) := fun v hv => h v hv v hv

theorem use {id : Nat} {kind : MarkKind} {name : String} {symbol : Symbol} (hkind : kind ≠ .selector)
    (hq : Q kind name symbol) :
    Visits T Q [⟨id, name, kind⟩] [] (fun _ => True) (Visit.use id symbol) := fun v _ =>
  ⟨trivial, ⟨[], (growScopes_nil _).symm, by simp⟩,
    Tables.Grows.recordUse v.tables hkind List.mem_cons_self hq⟩

theorem select {id : Nat} {selection : Selection} (ht : T selection.recv) :
    Visits T Q [⟨id, selection.name, .selector⟩] [] (fun _ => True) (Visit.select id selection) :=
  fun v _ => ⟨trivial, ⟨[], (growScopes_nil _).symm, by simp⟩,
    Tables.Grows.recordSelection v.tables List.mem_cons_self ht⟩

/-- A scope that is opened is closed again. -/
theorem inScope (h : Visits T Q marks names post m) :
    Visits T Q marks [] post (Visit.inScope m) := by
  intro v hv
  obtain ⟨hpost, hvis⟩ := h { v with scopes := [] :: v.scopes } hv.push
  obtain ⟨new, hs, -⟩ := hvis.scopes
  refine ⟨hpost, ⟨[], ?_, by simp⟩, hvis.tables⟩
  rw [growScopes_nil]
  exact congrArg List.tail hs

end Visits

/-! ## Typing -/

/-- A type has the property, if it is known. -/
def Known (T : Ty → Prop) (t : Option Ty) : Prop := ∀ u ∈ t, T u

/-- A property of types that looks at their parts alone, and that the types of the language have. -/
structure Ty.Closed (T : Ty → Prop) : Prop where
  basic (name : String) : T (.basic name)
  error : T (.named none none "error")
  struct : T .struct
  interface : T .interface
  pointer {t : Ty} : T (.pointer t) ↔ T t
  slice {t : Ty} : T (.slice t) ↔ T t
  map {k v : Ty} : T (.map k v) ↔ T k ∧ T v
  chan {t : Ty} : T (.chan t) ↔ T t
  func {ts : List Ty} : T (.func ts) ↔ ∀ t ∈ ts, T t
  tuple {ts : List Ty} : T (.tuple ts) ↔ ∀ t ∈ ts, T t

/-- All that is known in a file has the properties. -/
structure Keeps (env : FileEnv) (T : Ty → Prop) (Q : MarkKind → String → Symbol → Prop) : Prop where
  closed : Ty.Closed T
  known {kind : MarkKind} {name : String} {symbol : Symbol} : Q kind name symbol →
    Known T symbol.type
  var {name : String} {t : Option Ty} : Known T t →
    Q .name name ⟨name, some env.decls.name, .var, t⟩
  global {name : String} {symbol : Symbol} : env.global? name = some symbol → Q .name name symbol
  member {short imported path name : String} {symbol member : Symbol} : Q .name short symbol →
    symbol.kind = .package imported path → env.index.member? path name = some member →
      Q .member name member
  resolve (t : TypeExpr) : Known T (env.resolve t)
  memberType {t : Ty} (name : String) : T t → Known T (env.index.memberType t name)
  underlying {t : Ty} : T t → T (env.index.underlying t)

theorem Known.none : Known T none := by simp [Known]

theorem Known.map {t : Option Ty} {f : Ty → Ty} (h : Known T t) (hf : ∀ u, T u → T (f u)) :
    Known T (t.map f) := by
  intro u hu
  obtain ⟨w, hw, rfl⟩ := Option.map_eq_some_iff.mp hu
  exact hf w (h w hw)

theorem Known.or {t u : Option Ty} (ht : Known T t) (hu : Known T u) : Known T (t <|> u) := by
  cases t with
  | none => simpa using hu
  | some t => simpa using ht

theorem known_head? {ts : List (Option Ty)} (h : ∀ t ∈ ts, Known T t) : Known T ts.head?.join := by
  cases ts with
  | nil => exact Known.none
  | cons t ts => simpa using h t List.mem_cons_self

theorem signature_known (hc : Ty.Closed T) {env : TypeEnv} (hr : ∀ t, Known T (env.resolve t))
    (results : List Field) : T (env.signature results) := by
  refine hc.func.mpr fun t ht => ?_
  obtain ⟨f, -, ht⟩ := List.mem_flatMap.mp ht
  rw [(List.mem_replicate.mp ht).2]
  cases h : env.resolve f.type with
  | none => exact hc.basic _
  | some u => exact hr f.type u h

theorem TypeEnv.signature_congr {env other : TypeEnv} (h : ∀ t, other.resolve t = env.resolve t)
    (results : List Field) : other.signature results = env.signature results := by
  unfold TypeEnv.signature
  simp only [h]

section Typing

variable {env : FileEnv} (hk : Keeps env T Q) {scopes : List Scope} (hs : SoundScopes Q scopes)

include hk

theorem known_bind_resolve (t : Option TypeExpr) : Known T (t.bind env.resolve) := by
  cases t with
  | none => exact Known.none
  | some t => exact hk.resolve t

theorem known_builtinResult (name : String) {args : List (Option Ty)} (h : ∀ t ∈ args, Known T t) :
    Known T (Universe.builtinResult name args) := by
  have hfirst := known_head? h
  unfold Universe.builtinResult
  split_ifs
  · exact hfirst.map fun _ => hk.closed.pointer.mpr
  · exact hfirst
  · simpa [Known] using hk.closed.basic _
  · simpa [Known] using hk.closed.interface
  · simpa [Known] using hk.closed.basic _
  · simpa [Known] using hk.closed.basic _
  · exact Known.none

theorem known_rangeTypes {t : Option Ty} (h : Known T t) :
    Known T (env.rangeTypes t).1 ∧ Known T (env.rangeTypes t).2 := by
  have hu : Known T (t.map env.index.underlying) := h.map fun _ => hk.underlying
  have hb := hk.closed.basic
  unfold FileEnv.rangeTypes
  split
  case h_1 elem he => exact ⟨by simp [Known, hb], by simpa [Known, hk.closed.slice] using hu _ he⟩
  case h_2 key value he =>
    have := hk.closed.map.mp (hu _ he)
    exact ⟨by simpa [Known] using this.1, by simpa [Known] using this.2⟩
  case h_3 elem he => exact ⟨by simpa [Known, hk.closed.chan] using hu _ he, Known.none⟩
  case h_4 => exact ⟨by simp [Known, hb], by simp [Known, hb]⟩
  case h_5 => exact ⟨by simp [Known, hb], Known.none⟩
  case h_6 => exact ⟨Known.none, Known.none⟩

theorem known_elementType {t : Ty} (h : T t) : Known T (env.elementType t) := by
  have hu := hk.underlying h
  unfold FileEnv.elementType
  split
  case h_1 elem he => rw [he] at hu; simpa [Known] using hk.closed.slice.mp hu
  case h_2 key value he => rw [he] at hu; simpa [Known] using (hk.closed.map.mp hu).2
  case h_3 => simpa [Known] using hk.closed.basic _
  case h_4 elem he =>
    rw [he] at hu
    simpa [Known] using hk.closed.slice.mp (hk.closed.pointer.mp hu)
  case h_5 | h_6 | h_7 => simpa [Known] using h
  case h_8 => exact Known.none

theorem known_callResult {t : Option Ty} (h : Known T t) : Known T (env.callResult t) := by
  have hu : Known T (t.map env.index.underlying) := h.map fun _ => hk.underlying
  unfold FileEnv.callResult
  split
  case h_1 result he => simpa [Known] using hk.closed.func.mp (hu _ he)
  case h_2 first second rest he =>
    simpa [Known] using hk.closed.tuple.mpr (hk.closed.func.mp (hu _ he))
  case h_3 => exact Known.none

theorem known_spreadTypes (targets : Nat) {ts : List (Option Ty)} (h : ∀ t ∈ ts, Known T t) :
    ∀ t ∈ spreadTypes targets ts, Known T t := by
  unfold spreadTypes
  split
  case h_1 t =>
    have ht := h t List.mem_cons_self
    split_ifs
    · split
      · rename_i items
        intro u hu
        obtain ⟨item, hitem, rfl⟩ := List.mem_map.mp hu
        simpa [Known] using hk.closed.tuple.mp (ht _ rfl) item hitem
      · intro u hu
        simp only [List.mem_cons, List.not_mem_nil, or_false] at hu
        rcases hu with rfl | rfl
        · exact ht
        · simpa [Known] using hk.closed.basic _
    · exact h
  case h_2 => exact h

theorem known_litType (kind : LitKind) : T kind.type := by
  cases kind <;> exact hk.closed.basic _

include hs

theorem lookup_sound {name : String} {symbol : Symbol}
    (h : env.lookup scopes name = some symbol) : Q .name name symbol := by
  unfold FileEnv.lookup at h
  cases hl : lookupScopes scopes name with
  | some s =>
    rw [hl] at h
    obtain rfl : s = symbol := by simpa using h
    exact hs.lookup hl
  | none =>
    rw [hl] at h
    exact hk.global (by simpa using h)

theorem packagePath?_sound {name path : String} (h : env.packagePath? scopes name = some path) :
    ∃ symbol imported, Q .name name symbol ∧ symbol.kind = .package imported path := by
  obtain ⟨symbol, hl, h⟩ := Option.bind_eq_some_iff.mp h
  split at h
  · rename_i imported path' hkind
    obtain rfl := Option.some.inj h
    exact ⟨symbol, imported, lookup_sound hk hs hl, hkind⟩
  · cases h

theorem known_denotedType (x : Expr) : Known T (env.denotedType scopes x) := by
  fun_induction FileEnv.denotedType env scopes x with
  | case1 t => exact hk.resolve t
  | case2 i =>
    intro t ht
    simp only [Option.mem_def, Option.bind_eq_bind, Option.bind_eq_some_iff] at ht
    obtain ⟨symbol, hl, ht⟩ := ht
    split_ifs at ht
    exact hk.known (lookup_sound hk hs hl) t ht
  | case3 id x sel =>
    intro t ht
    simp only [Option.mem_def, Option.bind_eq_bind, Option.bind_eq_some_iff] at ht
    obtain ⟨i, -, path, hpath, member, hm, ht⟩ := ht
    obtain ⟨symbol, imported, hq, hkind⟩ := packagePath?_sound hk hs hpath
    split_ifs at ht
    exact hk.known (hk.member hq hkind hm) t ht
  | case4 x ih => exact ih
  | case5 x _ ih => exact ih
  | case6 x ih => exact ih.map fun _ => hk.closed.pointer.mpr
  | case7 => exact Known.none

end Typing

/-! ## Declaring -/

theorem declaredNames_cons (i : Ident) (is : List Ident) :
    declaredNames (i :: is) = declaredNames [i] ++ declaredNames is := by
  simp only [declaredNames, ← List.filter_append, ← List.map_append, List.singleton_append]

theorem declaredNames_append (is js : List Ident) :
    declaredNames (is ++ js) = declaredNames is ++ declaredNames js := by
  simp [declaredNames]

section Declaring

variable {env : FileEnv} (hk : Keeps env T Q)

include hk

theorem declare_visits (i : Ident) {t : Option Ty} (ht : Known T t) :
    Visits T Q [] (declaredNames [i]) (fun _ => True) (Visit.declare env i.name t) := by
  unfold Visit.declare
  split_ifs with h
  · exact Visits.result trivial
  · intro v hv
    have hnew : ∀ entry ∈ [(i.name, (⟨i.name, some env.decls.name, .var, t⟩ : Symbol))],
        entry.1 ∈ declaredNames [i] ∧ Q .name entry.1 entry.2 := by
      simpa [declaredNames, h] using hk.var ht
    obtain ⟨scopes, tables⟩ := v
    cases scopes with
    | nil => exact ⟨trivial, ⟨_, rfl, hnew⟩, .refl _ _⟩
    | cons scope outer => exact ⟨trivial, ⟨_, rfl, hnew⟩, .refl _ _⟩

theorem declareAll_visits {t : Option Ty} (ht : Known T t) (is : List Ident) :
    Visits T Q [] (declaredNames is) (fun _ => True) (Visit.declareAll env t is) := by
  induction is with
  | nil => exact Visits.pure trivial
  | cons i is ih =>
    rw [declaredNames_cons]
    exact (declare_visits hk i ht).bind fun _ _ => ih

theorem declareFields_visits (fields : List Field) :
    Visits T Q [] (fieldNames fields) (fun _ => True) (Visit.declareFields env fields) := by
  induction fields with
  | nil => exact Visits.pure trivial
  | cons f fields ih =>
    exact (declareAll_visits hk (hk.resolve f.type) f.names).bind fun _ _ => ih

theorem declareValues_visits {t : Option Ty} (ht : Known T t) (is : List Ident)
    {types : List (Option Ty)} (htypes : ∀ u ∈ types, Known T u) :
    Visits T Q [] (declaredNames is) (fun _ => True) (Visit.declareValues env t is types) := by
  induction is generalizing types with
  | nil => exact Visits.pure trivial
  | cons i is ih =>
    rw [declaredNames_cons]
    exact (declare_visits hk i (ht.or (known_head? htypes))).bind fun _ _ =>
      ih fun u hu => htypes u (List.mem_of_mem_tail hu)

end Declaring

/-! ## Visiting -/

section Visiting

variable {env : FileEnv}

theorem declaredHere_visits (name : String) :
    Visits T Q [] [] (fun _ => True) (Visit.declaredHere name) :=
  Visits.get fun _ _ => Visits.pure trivial

theorem Expr.ident?_eq_some {x : Expr} {i : Ident} : x.ident? = some i ↔ x = .ident i := by
  cases x <;> simp [Expr.ident?]

mutual

/-- **Visiting an expression** records its marks, and declares nothing. -/
theorem visitExpr_visits (hk : Keeps env T Q) : ∀ x : Expr,
    Visits T Q x.marks [] (Known T) (visitExpr env x)
  | .ident i => by
    rw [visitExpr]
    refine Visits.get fun u hu => ?_
    cases hl : env.lookup u.scopes i.name with
    | none => exact Visits.result Known.none
    | some symbol =>
      have hq := lookup_sound hk hu hl
      exact ((Visits.use (by decide) hq).compute fun _ _ => Visits.pure (hk.known hq)).weaken
        (by simp [Expr.marks, Ident.mark]) (by simp)
  | .selector id x sel => by
    rw [visitExpr]
    refine Visits.get fun u hu => ?_
    dsimp only
    cases hpkg : x.ident?.bind fun i => (env.packagePath? u.scopes i.name).map (i, ·) with
    | some found =>
      obtain ⟨i, hx, hfound⟩ := Option.bind_eq_some_iff.mp hpkg
      obtain ⟨path, hpath, rfl⟩ := Option.map_eq_some_iff.mp hfound
      obtain ⟨_, _, hpackage, hkind⟩ := packagePath?_sound hk hu hpath
      obtain rfl := Expr.ident?_eq_some.mp hx
      have hmember : Visits T Q [⟨sel.id, sel.name, .member⟩] [] (Known T)
          (match env.index.member? path sel.name with
          | some member => do
            Visit.use sel.id member
            return member.type
          | none => return none) := by
        cases hm : env.index.member? path sel.name with
        | none => exact Visits.result Known.none
        | some member =>
          have hq := hk.member hpackage hkind hm
          exact (Visits.use (by decide) hq).compute fun _ _ => Visits.pure (hk.known hq)
      dsimp only
      cases hl : env.lookup u.scopes i.name with
      | none => exact hmember.weaken (by simp [Expr.marks]) (by simp)
      | some symbol =>
        exact ((Visits.use (by decide) (lookup_sound hk hu hl)).bind fun _ _ => hmember).weaken
          (by simp [Expr.marks, Ident.mark]) (by simp)
    | none =>
      have hselect : ∀ operand, Known T operand → Visits T Q [⟨id, sel.name, .selector⟩] [] (Known T)
          (match env.denotedType u.scopes x <|> operand with
          | some recv => do
            Visit.select id ⟨recv, sel.name⟩
            return env.index.memberType recv sel.name
          | none => return none) := by
        intro operand hoperand
        cases hr : env.denotedType u.scopes x <|> operand with
        | none => exact Visits.result Known.none
        | some recv =>
          have ht := (known_denotedType hk hu x).or hoperand recv hr
          exact (Visits.select ht).compute fun _ _ => Visits.pure (hk.memberType sel.name ht)
      exact ((visitExpr_visits hk x).bind hselect).weaken (by simp [Expr.marks]) (by simp)
  | .call fn args => by
    rw [visitExpr]
    refine Visits.get fun u hu => ?_
    refine ((visitExpr_visits hk fn).bind fun fnType hfn => (visitExprs_visits hk args).compute
      fun argTypes hargs => ?_).weaken (by simp [Expr.marks]) (by simp)
    have hconversion := known_denotedType hk hu fn
    split
    · rename_i ht
      exact Visits.pure (ht ▸ hconversion)
    · exact Visits.pure (known_builtinResult hk _ hargs)
    · exact Visits.pure (known_callResult hk hfn)
  | .func params results body => by
    rw [visitExpr]
    have hbody := (declareFields_visits hk params).bind fun _ _ =>
      (declareFields_visits hk results).bind fun _ _ => visitStmts_visits hk body
    refine (hbody.inScope.compute fun _ _ => Visits.pure ?_).weaken (by simp [Expr.marks]) (by simp)
    simpa [Known] using signature_known hk.closed hk.resolve results
  | .composite type elements => by
    rw [visitExpr, Expr.marks]
    exact (visitExprs_visits hk elements).compute fun _ _ => Visits.pure (known_bind_resolve hk type)
  | .keyValue key value => by
    rw [visitExpr]
    have hvalue : Visits T Q value.marks [] (Known T) (do let _ ← visitExpr env value; return none) :=
      (visitExpr_visits hk value).compute fun _ _ => Visits.pure Known.none
    split_ifs
    · exact ((visitExpr_visits hk key).bind fun _ _ => hvalue).weaken (by simp [Expr.marks]) (by simp)
    · exact hvalue.weaken (by simp [Expr.marks]) (by simp)
  | .unary op x => by
    rw [visitExpr, Expr.marks]
    refine (visitExpr_visits hk x).compute fun t ht => ?_
    have hu : Known T (t.map env.index.underlying) := ht.map fun _ => hk.underlying
    split
    · exact Visits.pure (ht.map fun _ => hk.closed.pointer.mpr)
    · rename_i he
      exact Visits.pure (by simpa [Known] using hk.closed.pointer.mp (hu _ he))
    · rename_i he
      exact Visits.pure (by simpa [Known] using hk.closed.chan.mp (hu _ he))
    · exact Visits.pure ht
    · exact Visits.pure Known.none
  | .binary operands => by
    rw [visitExpr, Expr.marks]
    exact (visitExprs_visits hk operands).compute fun _ h => Visits.pure (known_head? h)
  | .index x indices => by
    rw [visitExpr, Expr.marks]
    refine ((visitExpr_visits hk x).bind fun t ht => (visitExprs_visits hk indices).compute fun _ _ =>
      Visits.pure ?_)
    cases t with
    | none => exact Known.none
    | some t => exact known_elementType hk (ht t rfl)
  | .slice x bounds => by
    rw [visitExpr, Expr.marks]
    exact (visitExpr_visits hk x).bind fun _ ht => (visitExprs_visits hk bounds).compute fun _ _ =>
      Visits.pure ht
  | .typeAssert x type => by
    rw [visitExpr, Expr.marks]
    exact (visitExpr_visits hk x).compute fun _ _ => Visits.pure (known_bind_resolve hk type)
  | .paren x => by
    rw [visitExpr, Expr.marks]
    exact visitExpr_visits hk x
  | .lit kind => by
    rw [visitExpr]
    exact Visits.result (by simpa [Known] using known_litType hk kind)
  | .type t => by
    rw [visitExpr]
    exact Visits.result (hk.resolve t)
  | .other parts => by
    rw [visitExpr, Expr.marks]
    exact (visitExprs_visits hk parts).compute fun _ _ => Visits.pure Known.none

theorem visitExprs_visits (hk : Keeps env T Q) : ∀ xs : List Expr,
    Visits T Q (exprsMarks xs) [] (fun ts => ∀ t ∈ ts, Known T t) (visitExprs env xs)
  | [] => by
    rw [visitExprs]
    exact Visits.result (by simp)
  | x :: xs => by
    rw [visitExprs, exprsMarks]
    refine (visitExpr_visits hk x).bind fun t ht => (visitExprs_visits hk xs).compute fun ts hts =>
      Visits.pure ?_
    intro u hu
    rcases List.mem_cons.mp hu with rfl | hu
    · exact ht
    · exact hts u hu

theorem visitExpr?_visits (hk : Keeps env T Q) : ∀ x : Option Expr,
    Visits T Q (expr?Marks x) [] (Known T) (visitExpr? env x)
  | none => by
    rw [visitExpr?]
    exact Visits.result Known.none
  | some x => by
    rw [visitExpr?, expr?Marks]
    exact visitExpr_visits hk x

theorem visitTargets_visits (hk : Keeps env T Q) : ∀ (xs : List Expr) (types : List (Option Ty)),
    (∀ t ∈ types, Known T t) → Visits T Q (exprsMarks xs) (declaredNames (xs.filterMap Expr.ident?))
      (fun _ => True) (visitTargets env xs types)
  | [], types, _ => by
    rw [visitTargets]
    exact Visits.result trivial
  | x :: xs, types, htypes => by
    have hrest := visitTargets_visits hk xs types.tail fun t ht => htypes t (List.mem_of_mem_tail ht)
    rw [visitTargets, exprsMarks]
    cases hx : x.ident? with
    | none =>
      rw [List.filterMap_cons_none hx]
      exact ((visitExpr_visits hk x).bind fun _ _ => hrest).weaken (by simp) (by simp)
    | some i =>
      rw [List.filterMap_cons_some hx, declaredNames_cons]
      refine (declaredHere_visits i.name).bind fun here _ => ?_
      split_ifs
      · exact ((visitExpr_visits hk x).bind fun _ _ => hrest).weaken (by simp) (by simp)
      · exact ((declare_visits hk i (known_head? htypes)).bind fun _ _ => hrest).weaken (by simp)
          (by simp)

/-- **Visiting a statement** records its marks, and declares its names. -/
theorem visitStmt_visits (hk : Keeps env T Q) : ∀ s : Stmt,
    Visits T Q s.marks s.declares (fun _ => True) (visitStmt env s)
  | .expr x | .go x | .defer x | .incDec x => by
    rw [visitStmt, Stmt.marks, Stmt.declares]
    exact (visitExpr_visits hk x).drop
    all_goals simp
  | .assign lhs rhs true => by
    rw [visitStmt, Stmt.declares]
    exact ((visitExprs_visits hk rhs).bind fun types htypes => visitTargets_visits hk lhs _
      (known_spreadTypes hk lhs.length htypes)).weaken (by simp [Stmt.marks]) (by simp)
  | .assign lhs rhs false => by
    rw [visitStmt]
    exact ((visitExprs_visits hk rhs).bind fun _ _ => (visitExprs_visits hk lhs).drop).weaken
      (by simp [Stmt.marks]) (by simp)
  | .declare specs => by
    rw [visitStmt, Stmt.marks, Stmt.declares]
    exact visitSpecs_visits hk specs
  | .ret xs | .other xs => by
    rw [visitStmt, Stmt.marks]
    exact (visitExprs_visits hk xs).drop
  | .block body => by
    rw [visitStmt, Stmt.marks]
    exact (visitStmts_visits hk body).inScope
  | .ifThen init cond body orElse => by
    rw [visitStmt]
    exact ((visitStmt?_visits hk init).bind fun _ _ => (visitExpr_visits hk cond).bind fun _ _ =>
      (visitStmts_visits hk body).inScope.bind fun _ _ => visitStmt?_visits hk orElse).inScope.weaken
      (by simp [Stmt.marks]) (by simp)
  | .loop init cond post body => by
    rw [visitStmt]
    exact ((visitStmt?_visits hk init).bind fun _ _ => (visitExpr?_visits hk cond).bind fun _ _ =>
      (visitStmt?_visits hk post).bind fun _ _ => (visitStmts_visits hk body).inScope).inScope.weaken
      (by simp [Stmt.marks]) (by simp)
  | .range key value true x body => by
    rw [visitStmt]
    exact ((visitExpr_visits hk x).bind fun ranged hranged => Visits.inScope
      ((declareAll_visits hk (known_rangeTypes hk hranged).1 _).bind fun _ _ =>
        (declareAll_visits hk (known_rangeTypes hk hranged).2 _).bind fun _ _ =>
          (visitStmts_visits hk body).inScope)).weaken (by grind [Stmt.marks]) (by simp)
  | .range key value false x body => by
    rw [visitStmt]
    exact ((visitExpr_visits hk x).bind fun _ _ => Visits.inScope
      ((visitExpr?_visits hk key).bind fun _ _ => (visitExpr?_visits hk value).bind fun _ _ =>
        (visitStmts_visits hk body).inScope)).weaken (by grind [Stmt.marks]) (by simp)
  | .switch init tag clauses => by
    rw [visitStmt]
    exact ((visitStmt?_visits hk init).bind fun _ _ => (visitExpr?_visits hk tag).bind fun _ _ =>
      visitClauses_visits hk clauses).inScope.weaken (by simp [Stmt.marks]) (by simp)
  | .typeSwitch init binding subject clauses => by
    rw [visitStmt]
    exact ((visitStmt?_visits hk init).bind fun _ _ => (visitExpr_visits hk subject).bind fun _ ht =>
      visitTypeClauses_visits hk binding ht clauses).inScope.weaken (by simp [Stmt.marks]) (by simp)
  | .select clauses => by
    rw [visitStmt, Stmt.marks]
    exact visitCommClauses_visits hk clauses
  | .send chan value => by
    rw [visitStmt, Stmt.marks]
    exact (visitExpr_visits hk chan).bind fun _ _ => (visitExpr_visits hk value).drop
  | .labeled body => by
    rw [visitStmt, Stmt.marks, Stmt.declares]
    exact visitStmt_visits hk body

theorem visitStmts_visits (hk : Keeps env T Q) : ∀ ss : List Stmt,
    Visits T Q (stmtsMarks ss) (ss.flatMap Stmt.declares) (fun _ => True) (visitStmts env ss)
  | [] => by
    rw [visitStmts]
    exact Visits.result trivial
  | s :: ss => by
    rw [visitStmts, stmtsMarks, List.flatMap_cons]
    exact (visitStmt_visits hk s).bind fun _ _ => visitStmts_visits hk ss

theorem visitStmt?_visits (hk : Keeps env T Q) : ∀ s : Option Stmt,
    Visits T Q (stmt?Marks s) (s.toList.flatMap Stmt.declares) (fun _ => True) (visitStmt? env s)
  | none => by
    rw [visitStmt?]
    exact Visits.result trivial
  | some s => by
    rw [visitStmt?, stmt?Marks]
    exact (visitStmt_visits hk s).weaken (by simp) (by simp)

theorem visitSpecs_visits (hk : Keeps env T Q) : ∀ specs : List ValueSpec,
    Visits T Q (specsMarks specs) (specs.flatMap ValueSpec.declares) (fun _ => True)
      (visitSpecs env specs)
  | [] => by
    rw [visitSpecs]
    exact Visits.result trivial
  | .mk names type values :: specs => by
    rw [visitSpecs]
    exact ((visitExprs_visits hk values).bind fun types htypes =>
      (declareValues_visits hk (known_bind_resolve hk type) names
        (known_spreadTypes hk names.length htypes)).bind fun _ _ => visitSpecs_visits hk specs).weaken
      (by simp [specsMarks]) (by simp [ValueSpec.declares])

theorem visitClauses_visits (hk : Keeps env T Q) : ∀ clauses : List Clause,
    Visits T Q (clausesMarks clauses) [] (fun _ => True) (visitClauses env clauses)
  | [] => by
    rw [visitClauses]
    exact Visits.result trivial
  | .mk exprs body :: clauses => by
    rw [visitClauses]
    exact ((visitExprs_visits hk exprs).bind fun _ _ => (visitStmts_visits hk body).inScope.bind
      fun _ _ => visitClauses_visits hk clauses).weaken (by simp [clausesMarks]) (by simp)

theorem visitTypeClauses_visits (hk : Keeps env T Q) (binding : Option Ident) {subject : Option Ty}
    (hsubject : Known T subject) : ∀ clauses : List TypeClause,
    Visits T Q (typeClausesMarks clauses) [] (fun _ => True)
      (visitTypeClauses env binding subject clauses)
  | [] => by
    rw [visitTypeClauses]
    exact Visits.result trivial
  | .mk types body :: clauses => by
    unfold visitTypeClauses
    have ht : Known T (match types with
        | [t] => env.resolve t
        | _ => subject) := by
      split
      · exact hk.resolve _
      · exact hsubject
    exact (((declareAll_visits hk ht binding.toList).bind fun _ _ =>
      visitStmts_visits hk body).inScope.bind fun _ _ =>
        visitTypeClauses_visits hk binding hsubject clauses).weaken (by simp [typeClausesMarks])
          (by simp)

theorem visitCommClauses_visits (hk : Keeps env T Q) : ∀ clauses : List CommClause,
    Visits T Q (commClausesMarks clauses) [] (fun _ => True) (visitCommClauses env clauses)
  | [] => by
    rw [visitCommClauses]
    exact Visits.result trivial
  | .mk comm body :: clauses => by
    rw [visitCommClauses]
    exact (((visitStmt?_visits hk comm).bind fun _ _ => visitStmts_visits hk body).inScope.bind
      fun _ _ => visitCommClauses_visits hk clauses).weaken (by simp [commClausesMarks]) (by simp)

end

end Visiting

end GoCalls
