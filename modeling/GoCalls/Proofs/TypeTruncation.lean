import GoCalls.Typing.Resolve
import Mathlib.Data.Fintype.Card
import Mathlib.Data.Fintype.EquivFin
import Mathlib.Data.Fintype.Sets
import Mathlib.Data.List.Chain
import Mathlib.Logic.Relation

/-!
# Types cut at a depth

Resolving a type stops below a number of steps, where a step leads into a type or from an alias to
its target. Here the resolution is told by its runs, which may stop at a depth or not at all. A run
that never stops ends when no alias leads back to itself, and what is resolved up to the limit is
then the result of this run, or the same type with parts of it cut off.

* `TypeEnv.step`: one step of the resolution; `TypeEnv.entered`: the types that it asks for.
* `TypeEnv.Resolves`: the runs of the resolution; a run is finite.
* `TypeEnv.Acyclic`, **`TypeEnv.Acyclic.wellFounded`**: aliases that do not lead back to themselves.
* `Ty.Truncates`: a type is another one with parts of it cut off.
* **`resolve_truncates`**: the resolution up to the limit and the one without it.
-/

namespace GoCalls

open Relation

/-! ## Steps -/

/-- The types inside a type that are looked at when it is resolved. -/
def TypeExpr.inner : TypeExpr → List TypeExpr
  | .pointer t | .slice t | .array t | .chan t | .ellipsis t => [t]
  | .map k v => [k, v]
  | .func _ results => results
  | .name _ _ | .struct _ | .interface _ | .unknown => []

theorem TypeExpr.sizeOf_lt_of_mem_inner {t u : TypeExpr} (h : u ∈ t.inner) :
    sizeOf u < sizeOf t := by
  cases t with
  | name package name => cases h
  | struct fields => cases h
  | interface methods => cases h
  | unknown => cases h
  | func params results =>
    have hlt : sizeOf u < sizeOf results := List.sizeOf_lt_of_mem h
    simp only [TypeExpr.func.sizeOf_spec]
    omega
  | map k v =>
    rcases List.mem_pair.mp h with rfl | rfl <;> simp only [TypeExpr.map.sizeOf_spec] <;> omega
  | pointer t | slice t | array t | chan t | ellipsis t =>
    obtain rfl := List.mem_singleton.mp h
    simp

namespace TypeEnv

variable (env : TypeEnv)

/-- The target of the alias that a type is. -/
def aliasTarget? : TypeExpr → Option TypeExpr
  | .name none name => env.localTypes[name]?.join
  | _ => none

/-- The types that are asked for when a type is resolved: the target of an alias, or the types
inside. -/
def entered (t : TypeExpr) : List TypeExpr := (env.aliasTarget? t).toList ++ t.inner

variable {env} in
theorem mem_entered_name {a : String} {u : TypeExpr} :
    u ∈ env.entered (.name none a) ↔ env.localTypes[a]? = some (some u) := by
  rw [entered, List.mem_append, Option.mem_toList, aliasTarget?, Option.join_eq_some_iff]
  simp [TypeExpr.inner]

variable {env} in
theorem entered_eq_inner {t : TypeExpr} (h : ∀ a, t ≠ .name none a) : env.entered t = t.inner := by
  have hnone : env.aliasTarget? t = none := by
    unfold aliasTarget?
    split
    · next a => exact absurd rfl (h a)
    · rfl
  rw [entered, hnone]
  rfl

/-- One step of the resolution of a type, where `known` says what the types stand for that it asks
for. -/
def step (known : TypeExpr → Option Ty) (t : TypeExpr) : Option Ty :=
  let part (u : TypeExpr) : Ty := (known u).getD .invalid
  match t with
  | .name none name =>
    match env.localTypes[name]? with
    | some (some target) => known target
    | some none => some (.declared env.package env.path name)
    | none => Universe.type? name
  | .name (some package) name =>
    env.imports.named[package]?.map fun imported => .declared imported.name imported.path name
  | .pointer u => some (.pointer (part u))
  | .slice u | .array u | .ellipsis u => some (.slice (part u))
  | .map k v => some (.map (part k) (part v))
  | .chan u => some (.chan (part u))
  | .func _ results => some (.func (results.map part))
  | .struct _ => some .struct
  | .interface _ => some .interface
  | .unknown => none

theorem resolveWithin_succ (fuel : Nat) (t : TypeExpr) :
    env.resolveWithin (fuel + 1) t = env.step (env.resolveWithin fuel) t := by
  unfold resolveWithin step
  rfl

theorem step_congr {f g : TypeExpr → Option Ty} {t : TypeExpr}
    (h : ∀ u ∈ env.entered t, f u = g u) : env.step f t = env.step g t := by
  cases t with
  | name package name =>
    cases package with
    | some package => rfl
    | none =>
      unfold step
      dsimp only
      split
      · next target htarget => exact h target (mem_entered_name.mpr htarget)
      · rfl
      · rfl
  | pointer u | slice u | array u | chan u | ellipsis u =>
    have hu : f u = g u := h u List.mem_cons_self
    simp only [step, hu]
  | map k v =>
    have hk : f k = g k := h k List.mem_cons_self
    have hv : f v = g v := h v (List.mem_cons_of_mem _ List.mem_cons_self)
    simp only [step, hk, hv]
  | func params results =>
    have hresults : results.map (fun u => (f u).getD .invalid) =
        results.map fun u => (g u).getD .invalid :=
      List.map_congr_left fun u hu => by rw [h u hu]
    simp only [step, hresults]
  | struct fields => rfl
  | interface methods => rfl
  | unknown => rfl

/-! ## Runs -/

/-- The runs of the resolution of a type, as finite trees; `stop` tells the depths at which nothing
is resolved. -/
inductive Resolves (stop : Nat → Prop) : Nat → TypeExpr → Option Ty → Prop
  | stopped {depth : Nat} {t : TypeExpr} (h : stop depth) : Resolves stop depth t none
  | step {depth : Nat} {t : TypeExpr} (h : ¬ stop depth) (known : TypeExpr → Option Ty)
      (parts : ∀ u ∈ env.entered t, Resolves stop (depth + 1) u (known u)) :
      Resolves stop depth t (env.step known t)

variable {env} {stop : Nat → Prop}

theorem Resolves.unique {depth : Nat} {t : TypeExpr} {r r' : Option Ty}
    (h : env.Resolves stop depth t r) (h' : env.Resolves stop depth t r') : r = r' := by
  induction h generalizing r' with
  | stopped hstop =>
    cases h' with
    | stopped _ => rfl
    | step hgo _ _ => exact absurd hstop hgo
  | step hgo known parts ih =>
    cases h' with
    | stopped hstop => exact absurd hstop hgo
    | step _ known' parts' => exact env.step_congr fun u hu => ih u hu (parts' u hu)

/-- **Resolving up to the limit ends**, also with cycles. -/
theorem resolves_resolveWithin {fuel depth : Nat} (h : depth + fuel = maxTypeDepth + 1)
    (t : TypeExpr) : env.Resolves (maxTypeDepth < ·) depth t (env.resolveWithin fuel t) := by
  induction fuel generalizing depth t with
  | zero => exact .stopped (by omega)
  | succ fuel ih =>
    rw [resolveWithin_succ]
    exact .step (by omega) _ fun u _ => ih (by omega) u

/-! ## Aliases -/

variable (env) in
/-- Resolving the target of the alias `a` can come to the name `b` inside of it. -/
def AliasLeads (a b : String) : Prop :=
  ∃ target, env.localTypes[a]? = some (some target) ∧
    ReflTransGen (fun t u => u ∈ t.inner) target (.name none b)

variable (env) in
/-- No alias leads back to itself. -/
def Acyclic : Prop := ∀ a, ¬ TransGen env.AliasLeads a a

/-- There are only finitely many aliases. -/
theorem Acyclic.wellFounded_aliasLeads (h : env.Acyclic) :
    WellFounded fun b a => env.AliasLeads a b := by
  let keys := env.localTypes.keys
  let Key := { a : String // a ∈ keys }
  let leads : Key → Key → Prop := fun b a => TransGen env.AliasLeads a.1 b.1
  have hwf : WellFounded leads := by
    have hfinite : Finite Key := @Finite.of_fintype Key (List.Subtype.fintype keys)
    have htrans : IsTrans Key leads := ⟨fun _ _ _ hab hbc => hbc.trans hab⟩
    have hirrefl : Std.Irrefl leads := ⟨fun a ha => h a.1 ha⟩
    exact Finite.wellFounded_of_trans_of_irrefl leads
  -- What is no alias leads nowhere.
  have hother : ∀ a, a ∉ keys → Acc (fun b a => env.AliasLeads a b) a := by
    intro a ha
    refine ⟨a, fun b hb => absurd ?_ ha⟩
    obtain ⟨target, htarget, -⟩ := hb
    rw [Std.TreeMap.mem_keys, Std.TreeMap.mem_iff_isSome_getElem?, htarget]
    rfl
  have hkey : ∀ a : Key, Acc (fun b a => env.AliasLeads a b) a.1 := by
    intro a
    induction a using hwf.induction with
    | h a ih =>
      refine ⟨a.1, fun b hb => ?_⟩
      by_cases hmem : b ∈ keys
      · exact ih ⟨b, hmem⟩ (.single hb)
      · exact hother b hmem
  refine ⟨fun a => ?_⟩
  by_cases hmem : a ∈ keys
  · exact hkey ⟨a, hmem⟩
  · exact hother a hmem

theorem acc_of_names (t : TypeExpr)
    (h : ∀ b, ReflTransGen (fun t u => u ∈ t.inner) t (.name none b) →
      Acc (fun u t => u ∈ env.entered t) (.name none b)) :
    Acc (fun u t => u ∈ env.entered t) t := by
  by_cases hname : ∃ b, t = .name none b
  · obtain ⟨b, rfl⟩ := hname
    exact h b .refl
  · refine ⟨t, fun u hu => ?_⟩
    have hinner : u ∈ t.inner := by
      rwa [entered_eq_inner fun b e => hname ⟨b, e⟩] at hu
    have hlt : sizeOf u < sizeOf t := TypeExpr.sizeOf_lt_of_mem_inner hinner
    exact acc_of_names u fun b hb => h b (.head hinner hb)
termination_by sizeOf t

/-- **Resolving without a limit ends** where no alias leads back to itself. -/
theorem Acyclic.wellFounded (h : env.Acyclic) : WellFounded fun u t => u ∈ env.entered t := by
  have hname : ∀ a, Acc (fun u t => u ∈ env.entered t) (.name none a) := by
    intro a
    induction a using h.wellFounded_aliasLeads.induction with
    | h a ih =>
      refine ⟨_, fun target htarget => acc_of_names target fun b hb => ih b ⟨target, ?_, hb⟩⟩
      exact mem_entered_name.mp htarget
  exact ⟨fun t => acc_of_names t fun b _ => hname b⟩

theorem Acyclic.exists_resolves (h : env.Acyclic) (t : TypeExpr) (depth : Nat) :
    ∃ r, env.Resolves (fun _ => False) depth t r := by
  induction t using h.wellFounded.induction generalizing depth with
  | h t ih =>
    classical
    let known (u : TypeExpr) : Option Ty :=
      if hu : u ∈ env.entered t then (ih u hu (depth + 1)).choose else none
    refine ⟨_, .step not_false known fun u hu => ?_⟩
    have hknown : known u = (ih u hu (depth + 1)).choose := dif_pos hu
    rw [hknown]
    exact (ih u hu (depth + 1)).choose_spec

end TypeEnv

/-! ## Parts cut off -/

namespace Ty

/-- A type is another one, with some parts of it replaced by the invalid type. -/
inductive Truncates : Ty → Ty → Prop
  | cut (full : Ty) : Truncates .invalid full
  | refl (full : Ty) : Truncates full full
  | pointer {t u : Ty} (h : Truncates t u) : Truncates (.pointer t) (.pointer u)
  | slice {t u : Ty} (h : Truncates t u) : Truncates (.slice t) (.slice u)
  | chan {t u : Ty} (h : Truncates t u) : Truncates (.chan t) (.chan u)
  | map {k l t u : Ty} (hk : Truncates k l) (ht : Truncates t u) :
      Truncates (.map k t) (.map l u)
  | func {ts us : List Ty} (h : List.Forall₂ Truncates ts us) : Truncates (.func ts) (.func us)

/-- The types directly inside a type. -/
def parts : Ty → List Ty
  | .pointer t | .slice t | .chan t => [t]
  | .map k t => [k, t]
  | .func ts | .tuple ts => ts
  | .named _ _ _ | .struct | .basic _ | .interface => []

/-- The part of a type at a place, which says which part to go into at each level. -/
def at? (t : Ty) : List Nat → Option Ty
  | [] => some t
  | i :: place => t.parts[i]?.bind (·.at? place)

theorem Truncates.parts {t u : Ty} (h : t.Truncates u) :
    t = .invalid ∨ List.Forall₂ Truncates t.parts u.parts := by
  cases h with
  | cut full => exact .inl rfl
  | refl full => exact .inr (List.forall₂_same.mpr fun t _ => .refl t)
  | pointer h | slice h | chan h => exact .inr (.cons h .nil)
  | map hk ht => exact .inr (.cons hk (.cons ht .nil))
  | func h => exact .inr h

/-- Declared types stand at the same place. -/
theorem Truncates.at?_named {t u : Ty} (h : t.Truncates u) {place : List Nat}
    {package path : Option String} {name : String}
    (ht : t.at? place = some (.named package path name)) :
    u.at? place = some (.named package path name) := by
  induction place generalizing t u with
  | nil =>
    obtain rfl := Option.some.inj ht
    cases h with
    | refl _ => rfl
  | cons i place ih =>
    obtain ⟨part, hpart, ht⟩ := Option.bind_eq_some_iff.mp ht
    rcases h.parts with rfl | hparts
    · cases hpart
    · obtain ⟨hlength, hget⟩ := List.forall₂_iff_get.mp hparts
      obtain ⟨hi, rfl⟩ := List.getElem?_eq_some_iff.mp hpart
      have hi' : i < u.parts.length := hlength ▸ hi
      exact Option.bind_eq_some_iff.mpr
        ⟨u.parts[i], List.getElem?_eq_getElem hi', ih (hget i hi hi') ht⟩

/-- What is shown of a type, if anything, is a truncation of it. -/
def Shows (shown full : Option Ty) : Prop :=
  shown = none ∨ ∃ t u, shown = some t ∧ full = some u ∧ t.Truncates u

theorem Shows.refl (full : Option Ty) : Shows full full := by
  cases full with
  | none => exact .inl rfl
  | some t => exact .inr ⟨t, t, rfl, rfl, .refl t⟩

theorem Shows.some {t u : Ty} (h : t.Truncates u) : Shows (some t) (some u) :=
  .inr ⟨t, u, rfl, rfl, h⟩

theorem Shows.part {shown full : Option Ty} (h : Shows shown full) :
    (shown.getD .invalid).Truncates (full.getD .invalid) := by
  rcases h with rfl | ⟨t, u, rfl, rfl, h⟩
  · exact .cut _
  · exact h

end Ty

namespace TypeEnv

variable {env : TypeEnv}

/-- A step keeps truncations. -/
theorem shows_step {f g : TypeExpr → Option Ty} {t : TypeExpr}
    (h : ∀ u ∈ env.entered t, Ty.Shows (f u) (g u)) : Ty.Shows (env.step f t) (env.step g t) := by
  cases t with
  | name package name =>
    cases package with
    | some package => exact .refl _
    | none =>
      unfold step
      dsimp only
      split
      · next target htarget => exact h target (mem_entered_name.mpr htarget)
      · exact .refl _
      · exact .refl _
  | pointer u => exact .some (.pointer (h u List.mem_cons_self).part)
  | slice u | array u | ellipsis u => exact .some (.slice (h u List.mem_cons_self).part)
  | chan u => exact .some (.chan (h u List.mem_cons_self).part)
  | map k v =>
    exact .some (.map (h k List.mem_cons_self).part
      (h v (List.mem_cons_of_mem _ List.mem_cons_self)).part)
  | func params results =>
    refine .some (.func ?_)
    rw [List.forall₂_map_left_iff, List.forall₂_map_right_iff, List.forall₂_same]
    exact fun u hu => (h u hu).part
  | struct fields => exact .refl _
  | interface methods => exact .refl _
  | unknown => exact .refl _

/-- **What is resolved up to a depth** is a truncation of the whole type. -/
theorem shows_resolveWithin {depth : Nat} {t : TypeExpr} {full : Option Ty}
    (h : env.Resolves (fun _ => False) depth t full) (fuel : Nat) :
    Ty.Shows (env.resolveWithin fuel t) full := by
  induction h generalizing fuel with
  | stopped hstop => exact hstop.elim
  | step hgo known parts ih =>
    cases fuel with
    | zero => exact .inl rfl
    | succ fuel =>
      rw [resolveWithin_succ]
      exact shows_step fun u hu => ih u hu fuel

variable (env) in
/-- A way through a type: each type is asked for when the one before it is resolved. -/
def IsPath (t : TypeExpr) (path : List TypeExpr) : Prop :=
  List.IsChain (fun t u => u ∈ env.entered t) (t :: path)

/-- Where no way is longer, nothing is cut off. -/
theorem resolveWithin_eq {depth : Nat} {t : TypeExpr} {full : Option Ty}
    (h : env.Resolves (fun _ => False) depth t full) {fuel : Nat}
    (hshort : ∀ path, env.IsPath t path → path.length < fuel) :
    env.resolveWithin fuel t = full := by
  induction h generalizing fuel with
  | stopped hstop => exact hstop.elim
  | step hgo known parts ih =>
    cases fuel with
    | zero => exact absurd (hshort [] (List.isChain_singleton _)) (Nat.not_lt_zero _)
    | succ fuel =>
      rw [resolveWithin_succ]
      refine env.step_congr fun u hu => ih u hu fun path hpath => ?_
      exact Nat.lt_of_succ_lt_succ (hshort (u :: path) (List.isChain_cons_cons.mpr ⟨hu, hpath⟩))

end TypeEnv

/-- **Resolving a type up to the limit** always ends. It gives what resolving without a limit gives,
or cuts parts off where a way through the type is longer. -/
theorem resolve_truncates (env : TypeEnv) :
    (∀ t r, env.Resolves (maxTypeDepth < ·) 0 t r ↔ r = env.resolve t) ∧
      (env.Acyclic → ∀ t, ∃ ideal, (∀ r, env.Resolves (fun _ => False) 0 t r ↔ r = ideal) ∧
        ((∀ path, env.IsPath t path → path.length ≤ maxTypeDepth) → env.resolve t = ideal) ∧
        (env.resolve t = none ∨ ∃ shown full, env.resolve t = some shown ∧ ideal = some full ∧
          shown.Truncates full ∧ ∀ place package path name,
            shown.at? place = some (.named package path name) →
              full.at? place = some (.named package path name))) := by
  have hcapped : ∀ t, env.Resolves (maxTypeDepth < ·) 0 t (env.resolve t) :=
    fun t => TypeEnv.resolves_resolveWithin (Nat.zero_add _) t
  refine ⟨fun t r => ⟨fun h => h.unique (hcapped t), fun h => h ▸ hcapped t⟩, fun hacyclic t => ?_⟩
  obtain ⟨ideal, hideal⟩ := hacyclic.exists_resolves t 0
  refine ⟨ideal, fun r => ⟨fun h => h.unique hideal, fun h => h ▸ hideal⟩, fun hshort => ?_, ?_⟩
  · exact TypeEnv.resolveWithin_eq hideal fun path hpath => Nat.lt_succ_of_le (hshort path hpath)
  · rcases TypeEnv.shows_resolveWithin hideal (maxTypeDepth + 1) with
      hnone | ⟨shown, full, hshown, hfull, htruncates⟩
    · exact .inl hnone
    · exact .inr ⟨shown, full, hshown, hfull, htruncates,
        fun place package path name hnamed => htruncates.at?_named hnamed⟩

/-- A slice of slices of the type `T`. -/
def slicesOfT : Nat → TypeExpr
  | 0 => .name none "T"
  | n + 1 => .slice (slicesOfT n)

/-- A file with a declared type `T` and an alias whose target has more levels than are resolved. -/
def deepAlias : TypeEnv :=
  { package := "p"
    path := "m/p"
    localTypes := ((∅ : Std.TreeMap String (Option TypeExpr)).insert "A"
      (some (.map (.name none "T") (slicesOfT 8)))).insert "T" none
    imports := {} }

theorem deepAlias_leads {a b : String} (h : deepAlias.AliasLeads a b) : a = "A" ∧ b = "T" := by
  obtain ⟨target, htarget, hb⟩ := h
  have hsource : a = "A" ∧ target = .map (.name none "T") (slicesOfT 8) := by
    simp only [deepAlias, Std.TreeMap.getElem?_insert] at htarget
    split_ifs at htarget with hT hA
    · cases htarget
    · exact ⟨(Std.LawfulEqCmp.eq_of_compare hA).symm, by simpa using htarget.symm⟩
    · simp at htarget
  obtain ⟨rfl, rfl⟩ := hsource
  -- All that is inside the target is the target itself or slices of `T`.
  have hinside : ∀ u,
      ReflTransGen (fun t u => u ∈ t.inner) (.map (.name none "T") (slicesOfT 8)) u →
      u = .map (.name none "T") (slicesOfT 8) ∨ ∃ n, u = slicesOfT n := by
    intro u hu
    induction hu with
    | refl => exact .inl rfl
    | tail _ hmem ih =>
      rcases ih with rfl | ⟨n, rfl⟩
      · rcases List.mem_pair.mp hmem with rfl | rfl
        · exact .inr ⟨0, rfl⟩
        · exact .inr ⟨8, rfl⟩
      · cases n with
        | zero => cases hmem
        | succ n => exact .inr ⟨n, List.mem_singleton.mp hmem⟩
  rcases hinside _ hb with h | ⟨n, h⟩
  · cases h
  · cases n with
    | zero => exact ⟨rfl, by simpa [slicesOfT] using h⟩
    | succ n => cases h

theorem deepAlias_acyclic : deepAlias.Acyclic := by
  intro a h
  obtain ⟨b, hfirst, -⟩ := TransGen.head'_iff.mp h
  obtain ⟨c, -, hlast⟩ := TransGen.tail'_iff.mp h
  have hA : a = "A" := (deepAlias_leads hfirst).1
  have hT : a = "T" := (deepAlias_leads hlast).2
  exact absurd (hA.symm.trans hT) (by decide)

/-- The last levels of the alias are cut off. -/
theorem resolve_truncates_deep :
    deepAlias.Acyclic ∧ ∃ shown full, deepAlias.resolve (.name none "A") = some shown ∧
      deepAlias.Resolves (fun _ => False) 0 (.name none "A") (some full) ∧ shown.Truncates full ∧
      shown.at? [1, 0, 0, 0, 0, 0, 0, 0] = some .invalid ∧
      full.at? [0] = some (.declared "p" "m/p" "T") := by
  obtain ⟨ideal, hideal, -, hnone | ⟨shown, full, hshown, rfl, htruncates, hnamed⟩⟩ :=
    (resolve_truncates deepAlias).2 deepAlias_acyclic (.name none "A")
  · cases hnone
  · have hplaces : (deepAlias.resolve (.name none "A")).map (fun t =>
        (t.at? [1, 0, 0, 0, 0, 0, 0, 0], t.at? [0])) =
        some (some .invalid, some (.declared "p" "m/p" "T")) := rfl
    rw [hshown, Option.map_some, Option.some.injEq, Prod.mk.injEq] at hplaces
    exact ⟨deepAlias_acyclic, shown, full, hshown, (hideal _).mpr rfl, htruncates, hplaces.1,
      hnamed _ _ _ _ hplaces.2⟩

end GoCalls
