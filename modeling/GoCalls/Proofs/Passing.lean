import GoCalls.Proofs.Visits

/-!
# Computations that pass a piece of code

A computation passes a piece of code when it visits the code on its way, and makes no other entries
for it. Where no two marks share a number, what is visited before and after a piece of code leaves
the entries of the piece alone, so passing goes through composition.

* `Covers`: scopes that declare no names but some given ones.
* `Tables.AgreeOn`: tables with the same entries for some marks.
* `Passes`: a computation visits the code at a point on its way, in scopes that declare no names but
  those of the point.
* **`Passes.left`**, **`Passes.right`**: a point in the first or the second of two computations.
-/

namespace GoCalls

/-! ## Names in scopes -/

/-- The scopes declare no names but the given ones. -/
def Covers (names : List String) (scopes : List Scope) : Prop :=
  ∀ name, name ∉ names → lookupScopes scopes name = none

theorem Covers.nil (names : List String) : Covers names [] := fun _ _ => rfl

theorem Covers.lookup {names : List String} {scopes : List Scope} (h : Covers names scopes)
    {name : String} (hn : name ∉ names) (env : FileEnv) :
    env.lookup scopes name = env.global? name := by
  unfold FileEnv.lookup
  rw [h name hn]
  rfl

theorem Covers.push {names : List String} {scopes : List Scope} (h : Covers names scopes) :
    Covers names ([] :: scopes) := fun name hn => h name hn

theorem Covers.grow {names more : List String} {scopes : List Scope} (h : Covers names scopes)
    {new : Scope} (hnew : ∀ entry ∈ new, entry.1 ∈ more) :
    Covers (names ++ more) (growScopes new scopes) := by
  intro name hn
  rw [List.mem_append, not_or] at hn
  have hold := h name hn.1
  have hlookup : new.lookup name = none := by
    refine List.lookup_eq_none_iff.mpr fun entry he => ?_
    have hne : name ≠ entry.1 := fun heq => hn.2 (heq ▸ hnew entry he)
    simpa using hne
  cases scopes with
  | nil => rfl
  | cons scope outer =>
    simp only [growScopes, lookupScopes, List.findSome?_cons, List.lookup_append, hlookup,
      Option.none_or] at hold ⊢
    exact hold

/-! ## Marks with different numbers -/

/-- No mark of the one list shares its number with a mark of the other. -/
def Apart (as bs : List Mark) : Prop := ∀ a ∈ as, ∀ b ∈ bs, a.id ≠ b.id

theorem Apart.symm {as bs : List Mark} (h : Apart as bs) : Apart bs as :=
  fun b hb a ha => (h a ha b hb).symm

theorem Apart.mono {as bs as' bs' : List Mark} (h : Apart as bs) (ha : as' ⊆ as) (hb : bs' ⊆ bs) :
    Apart as' bs' := fun a ha' b hb' => h a (ha ha') b (hb hb')

theorem uniqueIds_append {as bs : List Mark} :
    UniqueIds (as ++ bs) ↔ UniqueIds as ∧ UniqueIds bs ∧ Apart as bs := by
  unfold UniqueIds Apart
  rw [List.map_append, List.nodup_append]
  simp

theorem UniqueIds.left {as bs : List Mark} (h : UniqueIds (as ++ bs)) : UniqueIds as :=
  (uniqueIds_append.mp h).1

theorem UniqueIds.right {as bs : List Mark} (h : UniqueIds (as ++ bs)) : UniqueIds bs :=
  (uniqueIds_append.mp h).2.1

theorem UniqueIds.apart {as bs : List Mark} (h : UniqueIds (as ++ bs)) : Apart as bs :=
  (uniqueIds_append.mp h).2.2

theorem UniqueIds.sublist {as bs : List Mark} (h : UniqueIds bs) (hs : as.Sublist bs) :
    UniqueIds as := List.Nodup.sublist (hs.map _) h

/-- Two tables have the same entries for some marks. -/
def Tables.AgreeOn (marks : List Mark) (t t' : Tables) : Prop :=
  ∀ m ∈ marks, t'.uses[m.id]? = t.uses[m.id]? ∧ t'.selections[m.id]? = t.selections[m.id]?

namespace Tables.AgreeOn

variable {marks more : List Mark} {t u w : Tables}

theorem refl (marks : List Mark) (t : Tables) : AgreeOn marks t t := fun _ _ => ⟨rfl, rfl⟩

theorem trans (h : AgreeOn marks t u) (h' : AgreeOn marks u w) : AgreeOn marks t w := fun m hm =>
  ⟨(h' m hm).1.trans (h m hm).1, (h' m hm).2.trans (h m hm).2⟩

theorem mono (h : AgreeOn more t u) (hsub : marks ⊆ more) : AgreeOn marks t u :=
  fun m hm => h m (hsub hm)

end Tables.AgreeOn

/-- New entries leave all other marks alone. -/
theorem Tables.Grows.agreeOn {T : Ty → Prop} {Q : MarkKind → String → Symbol → Prop}
    {marks others : List Mark} {t u : Tables} (h : t.Grows T Q marks u) (ha : Apart marks others) :
    AgreeOn others t u := by
  intro m hm
  constructor
  · rcases h.uses m.id with he | ⟨kind, name, symbol, -, hmark, -⟩
    · exact he
    · exact absurd rfl (ha _ hmark m hm)
  · rcases h.selections m.id with he | ⟨selection, hmark, -⟩
    · exact he
    · exact absurd rfl (ha _ hmark m hm)

/-! ## Computations that pass a point -/

/-- The names in scope at the beginning of the code at a point. -/
def Point.entry (p : Point) : List String := p.locals ++ p.code.binders

/-- Checking a piece of code, whose own scope is open. -/
def Code.visit (env : FileEnv) : Code → StateM Visit Unit
  | .expr x | .operand _ x | .target _ x => do let _ ← visitExpr env x
  | .stmt s => visitStmt env s
  | .spec s => visitSpecs env [s]
  | .block _ body | .closure _ _ body => visitStmts env body

/-- A computation records only marks and declares only names. -/
def Touches (marks : List Mark) (names : List String) {α : Type} (m : StateM Visit α) : Prop :=
  Visits (fun _ => True) (fun _ _ _ => True) marks names (fun _ => True) m

/-- A computation visits the code at a point on its way, and makes no other entries for it. -/
structure Passes (env : FileEnv) (marks : List Mark) (names : List String) {α : Type}
    (m : StateM Visit α) (q : Point) : Prop where
  sub : q.code.marks.Sublist marks
  run : ∀ v : Visit, Covers names v.scopes → ∃ u : Visit, Covers q.entry u.scopes ∧
    v.tables.AgreeOn q.code.marks u.tables ∧
    ((q.code.visit env).run u).2.tables.AgreeOn q.code.marks (m.run v).2.tables

theorem keeps_true (env : FileEnv) : Keeps env (fun _ => True) (fun _ _ _ => True) where
  closed := by constructor <;> simp
  known _ _ _ := trivial
  var _ := trivial
  global _ := trivial
  member _ _ _ := trivial
  resolve _ _ _ := trivial
  memberType _ _ _ _ := trivial
  underlying _ := trivial

theorem Visits.touches {α : Type} {marks : List Mark} {names : List String} {post : α → Prop}
    {m : StateM Visit α} (h : Visits (fun _ => True) (fun _ _ _ => True) marks names post m) :
    Touches marks names m := h.mono (List.Subset.refl _) (List.Subset.refl _) fun _ _ => trivial

namespace Touches

variable {α : Type} {marks : List Mark} {names : List String} {m : StateM Visit α}

theorem visited (h : Touches marks names m) (v : Visit) :
    Visited (fun _ => True) (fun _ _ _ => True) marks names v (m.run v).2 :=
  (h v fun _ _ _ _ => trivial).2

theorem covers (h : Touches marks names m) {before : List String} {v : Visit}
    (hv : Covers before v.scopes) : Covers (before ++ names) (m.run v).2.scopes := by
  obtain ⟨new, hs, hnew⟩ := (h.visited v).scopes
  rw [hs]
  exact hv.grow fun entry he => (hnew entry he).1

theorem agreeOn (h : Touches marks names m) {others : List Mark} (ha : Apart marks others)
    (v : Visit) : v.tables.AgreeOn others (m.run v).2.tables := (h.visited v).tables.agreeOn ha

end Touches

namespace Passes

variable {env : FileEnv} {marks more : List Mark} {names wider : List String} {α β : Type}
  {m : StateM Visit α} {f : α → StateM Visit β} {q r : Point}

theorem self (env : FileEnv) (q : Point) {names : List String} (h : q.entry = names) :
    Passes env q.code.marks names (q.code.visit env) q where
  sub := List.Sublist.refl _
  run v hv := ⟨v, h ▸ hv, .refl _ _, .refl _ _⟩

theorem expr (env : FileEnv) (ctx : Context) (locals : List String) (x : Expr) :
    Passes env x.marks locals (visitExpr env x) ⟨ctx, locals, .expr x⟩ where
  sub := List.Sublist.refl _
  run v hv := ⟨v, by simpa [Point.entry, Code.binders] using hv, .refl _ _, .refl _ _⟩

/-- A point below a point that is passed. -/
theorem trans (h : Passes env marks names m q)
    (h' : Passes env q.code.marks q.entry (q.code.visit env) r) : Passes env marks names m r where
  sub := h'.sub.trans h.sub
  run v hv := by
    obtain ⟨u, hu, hbefore, hafter⟩ := h.run v hv
    obtain ⟨w, hw, hbefore', hafter'⟩ := h'.run u hu
    have hsub := h'.sub.subset
    exact ⟨w, hw, (hbefore.mono hsub).trans hbefore', hafter'.trans (hafter.mono hsub)⟩

theorem trans_expr {ctx : Context} {locals : List String} {x : Expr}
    (h : Passes env marks names m ⟨ctx, locals, .expr x⟩)
    (h' : Passes env x.marks locals (visitExpr env x) r) : Passes env marks names m r := by
  refine h.trans ⟨h'.sub, fun v hv => h'.run v ?_⟩
  rwa [Point.entry, Code.binders, List.append_nil] at hv
  all_goals simp

theorem mono (h : Passes env marks names m q) (hsub : marks.Sublist more) :
    Passes env more names m q :=
  ⟨h.sub.trans hsub, h.run⟩

/-- A point in the first of two computations. -/
theorem left (h : Passes env marks names m q) (hf : ∀ a, Touches more wider (f a))
    (hu : UniqueIds (marks ++ more)) : Passes env (marks ++ more) names (m >>= f) q where
  sub := h.sub.trans (List.sublist_append_left _ _)
  run v hv := by
    obtain ⟨u, hcovers, hbefore, hafter⟩ := h.run v hv
    have hapart := hu.apart.symm.mono (List.Subset.refl _) h.sub.subset
    exact ⟨u, hcovers, hbefore, hafter.trans ((hf _).agreeOn hapart _)⟩

/-- A point in the second of two computations. -/
theorem right (hm : Touches marks wider m) (hf : ∀ a, Passes env more (names ++ wider) (f a) q)
    (hu : UniqueIds (marks ++ more)) : Passes env (marks ++ more) names (m >>= f) q where
  sub := (hf (m.run {}).1).sub.trans (List.sublist_append_right _ _)
  run v hv := by
    have hq := hf (m.run v).1
    obtain ⟨u, hcovers, hbefore, hafter⟩ := hq.run _ (hm.covers hv)
    have hapart := hu.apart.mono (List.Subset.refl _) hq.sub.subset
    exact ⟨u, hcovers, (hm.agreeOn hapart v).trans hbefore, hafter⟩

theorem after (hm : Touches marks [] m) (hf : ∀ a, Passes env more names (f a) q)
    (hu : UniqueIds (marks ++ more)) : Passes env (marks ++ more) names (m >>= f) q :=
  right hm (by simpa using hf) hu

/-- A point after some names have been declared. -/
theorem declaring (hm : Touches [] wider m) (hf : ∀ a, Passes env marks (names ++ wider) (f a) q) :
    Passes env marks names (m >>= f) q where
  sub := (hf (m.run {}).1).sub
  run v hv := by
    obtain ⟨u, hcovers, hbefore, hafter⟩ := (hf (m.run v).1).run _ (hm.covers hv)
    exact ⟨u, hcovers, (hm.agreeOn (by simp [Apart]) v).trans hbefore, hafter⟩

theorem compute (h : Passes env marks names m q) (hf : ∀ a, Touches [] [] (f a)) :
    Passes env marks names (m >>= f) q where
  sub := h.sub
  run v hv := by
    obtain ⟨u, hcovers, hbefore, hafter⟩ := h.run v hv
    exact ⟨u, hcovers, hbefore, hafter.trans ((hf _).agreeOn (by simp [Apart]) _)⟩

/-- What is computed from the state. -/
theorem get {f : Visit → StateM Visit α} (h : ∀ u, Passes env marks names (f u) q) :
    Passes env marks names (MonadState.get >>= f) q where
  sub := (h {}).sub
  run v hv := (h v).run v hv

theorem inScope (h : Passes env marks names m q) : Passes env marks names (Visit.inScope m) q where
  sub := h.sub
  run v hv := h.run { v with scopes := [] :: v.scopes } hv.push

end Passes

end GoCalls
