import GoCalls.Typing.Check
import Mathlib.Logic.Relation
import Mathlib.Order.Preorder.Finite

/-!
# Underlying types

A declared type may be defined as another declared type, and that one as a third, in other files and
packages. The chain ends where no type is defined through itself. The underlying type is one step
along the chain, so it is the end of the chain where there is one step at most.

* `Index.definition?`: what a declared type is defined as.
* `Index.Acyclic`: no type is defined through itself.
* `Index.EndsIn`: the end of a chain of definitions, with the number of steps to it.
* **`Index.Acyclic.exists_endsIn`**: each chain has an end.
* `FileEnv.SeesThrough`, `FileEnv.SeesNothing`: what ranging, indexing, dereferencing, receiving and
  calling make of a type.
* **`underlying_idempotent_iff`**: when an underlying type is at the end of the chain.
-/

namespace GoCalls

namespace Index

variable {index : Index}

/-! ## Chains of definitions -/

/-- What a declared type is defined as. Structs and interfaces have no such definition. -/
def definition? (index : Index) (t : Ty) : Option Ty := (index.namedDecl? t).bind (·.underlying)

/-- One type is defined as another. -/
def Defines (index : Index) (t u : Ty) : Prop := index.definition? t = some u

/-- No type is defined through itself. -/
def Acyclic (index : Index) : Prop := ∀ t, ¬ Relation.TransGen index.Defines t t

/-- A chain of definitions leads in some steps from a type to one that has no definition. -/
inductive EndsIn (index : Index) : (steps : Nat) → Ty → Ty → Prop
  | here {t : Ty} : index.definition? t = none → EndsIn index 0 t t
  | step {steps : Nat} {t u e : Ty} : index.Defines t u → EndsIn index steps u e →
      EndsIn index (steps + 1) t e

theorem underlying_of_defines {t u : Ty} (h : index.Defines t u) : index.underlying t = u := by
  change (index.definition? t).getD t = u
  rw [h, Option.getD_some]

theorem underlying_of_definition? {t : Ty} (h : index.definition? t = none) :
    index.underlying t = t := by
  change (index.definition? t).getD t = t
  rw [h, Option.getD_none]

theorem exists_named_of_defines {t u : Ty} (h : index.Defines t u) :
    ∃ package path name, t = .named package (some path) name := by
  obtain ⟨decl, hd, -⟩ := Option.bind_eq_some_iff.mp h
  unfold Index.namedDecl? at hd
  split at hd
  · exact ⟨_, _, _, rfl⟩
  · cases hd

namespace EndsIn

variable {steps : Nat} {t e : Ty}

theorem definition?_end (h : index.EndsIn steps t e) : index.definition? e = none := by
  induction h with
  | here h => exact h
  | step _ _ ih => exact ih

theorem steps_eq {steps' : Nat} {e' : Ty} (h : index.EndsIn steps t e)
    (h' : index.EndsIn steps' t e') : steps = steps' := by
  induction h generalizing steps' with
  | here hnone =>
    cases h' with
    | here _ => rfl
    | step hdef _ => exact absurd (hnone.symm.trans hdef) nofun
  | step hdef _ ih =>
    cases h' with
    | here hnone => exact absurd (hnone.symm.trans hdef) nofun
    | step hdef' h' =>
      obtain rfl := Option.some.inj (hdef.symm.trans hdef')
      rw [ih h']

/-- One step: the underlying type is the end. -/
theorem underlying_eq (h : index.EndsIn steps t e) (hsteps : steps ≤ 1) :
    index.underlying t = e := by
  cases h with
  | here hnone => exact underlying_of_definition? hnone
  | step hdef h =>
    obtain ⟨⟩ | ⟨-, -⟩ := h
    · exact underlying_of_defines hdef
    · omega

/-- More steps: the underlying type has a definition. -/
theorem exists_defines (h : index.EndsIn steps t e) (hsteps : 2 ≤ steps) :
    ∃ u v, index.underlying t = u ∧ index.Defines u v ∧ u ≠ v := by
  obtain _ | ⟨hdef, h⟩ := h
  · omega
  · obtain _ | ⟨hdef', h'⟩ := h
    · omega
    · refine ⟨_, _, underlying_of_defines hdef, hdef', fun heq => ?_⟩
      subst heq
      have := (step hdef' h').steps_eq h'
      omega

end EndsIn

/-! ## Ends -/

/-- All definitions of declared types, by the paths of their packages and their names. -/
def definitions (index : Index) : List ((String × String) × Ty) :=
  index.packages.toList.flatMap fun p =>
    p.2.types.toList.filterMap fun d => d.2.underlying.map ((p.1, d.1), ·)

theorem mem_definitions {package : Option String} {path name : String} {u : Ty}
    (h : index.Defines (.named package (some path) name) u) :
    ((path, name), u) ∈ index.definitions := by
  obtain ⟨decl, hd, hu⟩ := Option.bind_eq_some_iff.mp h
  obtain ⟨decls, hdecls, hdecl⟩ := Option.bind_eq_some_iff.mp hd
  have hp : (path, decls) ∈ index.packages.toList :=
    Std.TreeMap.mem_toList_iff_getElem?_eq_some.mpr hdecls
  have ht : (name, decl) ∈ decls.types.toList :=
    Std.TreeMap.mem_toList_iff_getElem?_eq_some.mpr hdecl
  refine List.mem_flatMap.mpr ⟨_, hp, List.mem_filterMap.mpr ⟨_, ht, ?_⟩⟩
  rw [hu, Option.map_some]

theorem mem_map_definitions {t u : Ty} (h : index.Defines t u) :
    u ∈ index.definitions.map Prod.snd := by
  obtain ⟨package, path, name, rfl⟩ := exists_named_of_defines h
  exact List.mem_map_of_mem (mem_definitions h)

theorem defines_underlying {t : Ty} (h : ¬ ∃ steps e, index.EndsIn steps t e) :
    index.Defines t (index.underlying t) ∧
      ¬ ∃ steps e, index.EndsIn steps (index.underlying t) e := by
  cases hdef : index.definition? t with
  | none => exact absurd ⟨0, t, .here hdef⟩ h
  | some u =>
    rw [underlying_of_defines hdef]
    refine ⟨hdef, fun ⟨steps, e, hends⟩ => ?_⟩
    exact h ⟨steps + 1, e, .step hdef hends⟩

/-- **Each chain of definitions has an end**: one without an end would meet a definition twice. -/
theorem Acyclic.exists_endsIn (h : index.Acyclic) (t : Ty) : ∃ steps e, index.EndsIn steps t e := by
  by_contra hno
  let f (n : Nat) : Ty := index.underlying^[n] t
  have hf (n : Nat) : f (n + 1) = index.underlying (f n) := Function.iterate_succ_apply' _ _ _
  have hno' (n : Nat) : ¬ ∃ steps e, index.EndsIn steps (f n) e := by
    induction n with
    | zero => exact hno
    | succ n ih =>
      rw [hf]
      exact (defines_underlying ih).2
  have hstep (n : Nat) : index.Defines (f n) (f (n + 1)) := by
    rw [hf]
    exact (defines_underlying (hno' n)).1
  have hmem (n : Nat) : f (n + 1) ∈ {u | u ∈ index.definitions.map Prod.snd} :=
    mem_map_definitions (hstep n)
  obtain ⟨a, b, hab, heq⟩ := Set.Finite.exists_lt_map_eq_of_forall_mem hmem (List.finite_toSet _)
  have hcycle : Relation.TransGen index.Defines (f (a + 1)) (f (b + 1)) :=
    Nat.rel_of_forall_rel_succ_of_lt _ (fun n => .single (hstep n)) (Nat.succ_lt_succ hab)
  exact h _ (heq ▸ hcycle)

/-- A falling rank shows that there is no cycle. -/
theorem acyclic_of_rank (rank : Ty → Nat) (h : ∀ t u, index.Defines t u → rank u < rank t) :
    index.Acyclic := by
  have hless {t u : Ty} (hgen : Relation.TransGen index.Defines t u) : rank u < rank t := by
    induction hgen with
    | single hdef => exact h _ _ hdef
    | tail _ hdef ih => exact (h _ _ hdef).trans ih
  exact fun t hcycle => Nat.lt_irrefl _ (hless hcycle)

end Index

/-! ## Typing -/

theorem type_visitExpr_unary (env : FileEnv) (op : UnaryOp) (x : Expr) (v : Visit) :
    ((visitExpr env (.unary op x)).run v).1 =
      let t := ((visitExpr env x).run v).1
      match op, t.map env.index.underlying with
      | .addr, _ => t.map .pointer
      | .deref, some (.pointer target) => some target
      | .recv, some (.chan elem) => some elem
      | .other, _ => t
      | _, _ => none := by
  rw [visitExpr, StateT.run_bind]
  generalize (visitExpr env x).run v = r
  obtain ⟨t, w⟩ := r
  simp only [bind]
  generalize t.map env.index.underlying = u
  cases op <;> cases u with
  | none => rfl
  | some u => cases u <;> rfl

namespace FileEnv

/-- All that is made of values makes the same of a type as of the end of its chain. -/
structure SeesThrough (env : FileEnv) (t e : Ty) : Prop where
  range : env.rangeTypes (some t) = env.rangeTypes (some e)
  slice {elem : Ty} : e = .slice elem → env.elementType t = some elem
  map {key value : Ty} : e = .map key value → env.elementType t = some value
  deref {target : Ty} : e = .pointer target → ∀ (x : Expr) (v : Visit),
    ((visitExpr env x).run v).1 = some t → ((visitExpr env (.unary .deref x)).run v).1 = some target
  recv {elem : Ty} : e = .chan elem → ∀ (x : Expr) (v : Visit),
    ((visitExpr env x).run v).1 = some t → ((visitExpr env (.unary .recv x)).run v).1 = some elem
  call : env.callResult (some t) = env.callResult (some e)

/-- Ranging, dereferencing, receiving and calling make nothing of a type, and indexing takes it for a
generic one. -/
structure SeesNothing (env : FileEnv) (t : Ty) : Prop where
  range : env.rangeTypes (some t) = (none, none)
  index : env.elementType t = some t
  deref (x : Expr) (v : Visit) : ((visitExpr env x).run v).1 = some t →
    ((visitExpr env (.unary .deref x)).run v).1 = none
  recv (x : Expr) (v : Visit) : ((visitExpr env x).run v).1 = some t →
    ((visitExpr env (.unary .recv x)).run v).1 = none
  call : env.callResult (some t) = none

variable {env : FileEnv} {t e : Ty}

theorem seesThrough (ht : env.index.underlying t = e) (he : env.index.underlying e = e) :
    env.SeesThrough t e where
  range := by
    unfold rangeTypes
    rw [Option.map_some, Option.map_some, ht, he]
  slice := by
    rintro elem rfl
    unfold elementType
    rw [ht]
  map := by
    rintro key value rfl
    unfold elementType
    rw [ht]
  deref := by
    rintro target rfl x v hx
    rw [type_visitExpr_unary, hx]
    simp only [Option.map_some, ht]
  recv := by
    rintro elem rfl x v hx
    rw [type_visitExpr_unary, hx]
    simp only [Option.map_some, ht]
  call := by
    unfold callResult
    rw [Option.map_some, Option.map_some, ht, he]

theorem seesNothing {package path : Option String} {name : String}
    (ht : env.index.underlying t = .named package path name) : env.SeesNothing t where
  range := by
    unfold rangeTypes
    rw [Option.map_some, ht]
  index := by
    unfold elementType
    rw [ht]
  deref x v hx := by
    rw [type_visitExpr_unary, hx]
    simp only [Option.map_some, ht]
  recv x v hx := by
    rw [type_visitExpr_unary, hx]
    simp only [Option.map_some, ht]
  call := by
    unfold callResult
    rw [Option.map_some, ht]

end FileEnv

/-- **When an underlying type is fully resolved**: exactly where the chain of definitions has one
step at most. -/
theorem underlying_idempotent_iff {index : Index} (hacyclic : index.Acyclic) (t : Ty) :
    ∃ (steps : Nat) (e : Ty), index.EndsIn steps t e ∧
      (index.underlying (index.underlying t) = index.underlying t ↔ steps ≤ 1) ∧
      (index.underlying t = e ↔ steps ≤ 1) ∧
      ∀ env : FileEnv, env.index = index →
        (steps ≤ 1 → env.SeesThrough t e) ∧ (2 ≤ steps → env.SeesNothing t) := by
  obtain ⟨steps, e, hends⟩ := hacyclic.exists_endsIn t
  have hend := Index.underlying_of_definition? hends.definition?_end
  refine ⟨steps, e, hends, ?_⟩
  by_cases hsteps : steps ≤ 1
  · have ht := hends.underlying_eq hsteps
    refine ⟨?_, ?_, ?_⟩
    · rw [ht, hend]
      exact iff_of_true rfl hsteps
    · exact iff_of_true ht hsteps
    · rintro env rfl
      exact ⟨fun _ => FileEnv.seesThrough ht hend, fun hmore => by omega⟩
  · obtain ⟨u, v, ht, hdef, hne⟩ := hends.exists_defines (by omega)
    refine ⟨?_, ?_, ?_⟩
    · rw [ht, Index.underlying_of_defines hdef]
      exact iff_of_false hne.symm hsteps
    · refine iff_of_false (fun heq => ?_) hsteps
      rw [ht] at heq
      subst heq
      exact absurd (hends.definition?_end.symm.trans hdef) nofun
    · rintro env rfl
      obtain ⟨package, path, name, hu⟩ := Index.exists_named_of_defines hdef
      exact ⟨fun hless => absurd hless hsteps, fun _ => FileEnv.seesNothing (ht.trans hu)⟩

/-- A list type that is defined as another list type. -/
def lists : Package where
  name := "app"
  path := "m/app"
  files := [{ path := "app.go", package := "app", imports := [], decls := [
    .type ⟨⟨0, "Item"⟩, .struct [], false⟩,
    .type ⟨⟨1, "Base"⟩, .slice (.name none "Item"), false⟩,
    .type ⟨⟨2, "List"⟩, .name none "Base", false⟩] }]

theorem definitions_lists : (Index.ofPackages [lists]).definitions =
    [(("m/app", "Base"), .slice (.declared "app" "m/app" "Item")),
      (("m/app", "List"), .declared "app" "m/app" "Base")] := rfl

/-- How many definitions can follow each other from a type. -/
def listsRank : Ty → Nat
  | .named _ _ name => if name = "List" then 2 else if name = "Base" then 1 else 0
  | _ => 0

theorem acyclic_lists : (Index.ofPackages [lists]).Acyclic := by
  refine Index.acyclic_of_rank listsRank fun t u h => ?_
  obtain ⟨package, path, name, rfl⟩ := Index.exists_named_of_defines h
  have hmem := Index.mem_definitions h
  rw [definitions_lists, List.mem_cons, List.mem_singleton, Prod.mk.injEq, Prod.mk.injEq,
    Prod.mk.injEq, Prod.mk.injEq] at hmem
  rcases hmem with ⟨⟨rfl, rfl⟩, rfl⟩ | ⟨⟨rfl, rfl⟩, rfl⟩
  · exact Nat.zero_lt_one
  · exact Nat.one_lt_two

/-- A type that is defined as a slice is fully resolved. -/
theorem underlying_idempotent_base :
    let index := Index.ofPackages [lists]
    index.Acyclic ∧ index.underlying (index.underlying (.declared "app" "m/app" "Base")) =
      index.underlying (.declared "app" "m/app" "Base") := by
  intro index
  obtain ⟨steps, e, hends, hiff, -⟩ :=
    underlying_idempotent_iff acyclic_lists (.declared "app" "m/app" "Base")
  have hone : index.EndsIn 1 (.declared "app" "m/app" "Base")
      (.slice (.declared "app" "m/app" "Item")) := .step rfl (.here rfl)
  exact ⟨acyclic_lists, hiff.mpr (hends.steps_eq hone).le⟩

/-- A type that is defined as another declared type is not. -/
theorem underlying_not_idempotent :
    ¬ ∀ index : Index, index.Acyclic → ∀ t,
      index.underlying (index.underlying t) = index.underlying t := by
  intro h
  have hlist := h (Index.ofPackages [lists]) acyclic_lists (.declared "app" "m/app" "List")
  have hslice : Ty.slice (.declared "app" "m/app" "Item") = .declared "app" "m/app" "Base" := hlist
  cases hslice

end GoCalls
