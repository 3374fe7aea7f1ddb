import GoCalls.Proofs.Levels
import GoCalls.Proofs.SyntaxNodes
import Mathlib.Data.List.Intervals
import Mathlib.Data.List.Perm.Subperm

/-!
# Lowering nodes

Lowering draws numbers in many places and counts levels up and down again. Still, what comes of each
of its computations can be said in one form, which is passed on from a computation to those that it
is made of.

* `LoweringResult`, `Lowers`: what comes of a computation.
* `Lowers.bind`, `Lowers.nested`: computations one after the other, and one level down.
* **`LowersBelow.typeRule`**, **`LowersBelow.exprRule`**: types and expressions.
* **`LowersBelow.chain`**: chains of operators.
-/

namespace GoCalls

open Lowering ParseTree Syntactic
open scoped List

/-! ## Computations -/

/-- What comes of lowering from the state `s` on. -/
structure LoweringResult {α : Type} [Syntactic α] (s : Lowerer) (ok : Prop) (before : List Nat)
    (Q : α → Prop) (r : α × Lowerer) : Prop where
  /-- The counter of levels is as before. -/
  depth_eq : r.2.depth = s.depth
  /-- Nothing lies too deep just when `ok`. -/
  tooDeep_iff : r.2.tooDeep = none ↔ s.tooDeep = none ∧ ok
  next_le : s.next ≤ r.2.next
  /-- The numbers in the result were drawn or are in `before`, and each is used as often. -/
  drawn : ids r.1 <+~ before ++ List.Ico s.next r.2.next
  value : Q r.1

/-- What comes of a computation at a depth. -/
def Lowers {α : Type} [Syntactic α] (depth : Nat) (ok : Prop) (before : List Nat) (Q : α → Prop)
    (x : Lowering α) : Prop :=
  ∀ s : Lowerer, s.depth = depth → LoweringResult s ok before Q (x s)

namespace Lowers

variable {α β ι : Type} [Syntactic α] [Syntactic β] {depth : Nat} {p q : Prop}
  {before : List Nat} {Q : α → Prop} {Q' : β → Prop}

theorem congr {x : Lowering α} (h : Lowers depth p before Q x) (hiff : p ↔ q) :
    Lowers depth q before Q x := by
  obtain rfl : p = q := propext hiff
  exact h

theorem imp {P : α → Prop} {x : Lowering α} (h : Lowers depth p before P x)
    (hQ : ∀ a, P a → Q a) : Lowers depth p before Q x :=
  fun s hs => { h s hs with value := hQ _ (h s hs).value }

theorem pure {a : α} (hids : ∀ i, (ids a).count i ≤ before.count i) (hQ : Q a) :
    Lowers depth True before Q (Pure.pure a) := by
  intro s hs
  refine ⟨rfl, (and_iff_left trivial).symm, Nat.le_refl _, ?_, hQ⟩
  show ids a <+~ before ++ List.Ico s.next s.next
  rw [List.Ico.self_empty, List.append_nil]
  exact List.subperm_iff_count.mpr hids

/-- The numbers of the first computation are at hand for the second. -/
theorem bind {x : Lowering α} {f : α → Lowering β} (hx : Lowers depth p [] Q x)
    (hf : ∀ a, Q a → Lowers depth q (before ++ ids a) Q' (f a)) :
    Lowers depth (p ∧ q) before Q' (x >>= f) := by
  intro s hs
  have h := hx s hs
  have h' := hf (x s).1 h.value (x s).2 (h.depth_eq.trans hs)
  show LoweringResult s _ before Q' (f (x s).1 (x s).2)
  refine ⟨h'.depth_eq.trans h.depth_eq, ?_, h.next_le.trans h'.next_le, h'.drawn.trans ?_, h'.value⟩
  · rw [h'.tooDeep_iff, h.tooDeep_iff, and_assoc]
  · rw [← List.Ico.append_consecutive h.next_le h'.next_le, ← List.append_assoc]
    exact (List.subperm_append_right _).mpr ((List.subperm_append_left _).mpr h.drawn)

theorem map {x : Lowering α} {f : α → β} (hx : Lowers depth p [] Q x)
    (hids : ∀ a i, (ids (f a)).count i ≤ (before ++ ids a).count i) (hQ : ∀ a, Q a → Q' (f a)) :
    Lowers depth p before Q' (x >>= fun a => Pure.pure (f a)) :=
  (hx.bind fun a ha => .pure (hids a) (hQ a ha)).congr (and_iff_left trivial)

theorem mapM_length {f : ι → Lowering α} {P : ι → Prop} {is : List ι}
    (h : ∀ i ∈ is, Lowers depth (P i) [] Q (f i)) :
    Lowers depth (∀ i ∈ is, P i) [] (fun as => as.length = is.length ∧ ∀ a ∈ as, Q a)
      (is.mapM f) := by
  induction is with
  | nil => exact Lowers.congr (.pure (fun _ => Nat.le_refl _) ⟨rfl, nofun⟩) (by simp)
  | cons i is ih =>
    obtain ⟨hi, his⟩ := List.forall_mem_cons.mp h
    rw [List.mapM_cons]
    refine (hi.bind fun a ha => (ih his).map (fun as j => ?_) fun as has => ?_).congr
      List.forall_mem_cons.symm
    · rw [ids_cons, List.nil_append]
    · exact ⟨congrArg Nat.succ has.1, List.forall_mem_cons.mpr ⟨ha, has.2⟩⟩

theorem mapM {f : ι → Lowering α} {P : ι → Prop} {is : List ι}
    (h : ∀ i ∈ is, Lowers depth (P i) [] Q (f i)) :
    Lowers depth (∀ i ∈ is, P i) [] (fun as => ∀ a ∈ as, Q a) (is.mapM f) :=
  (mapM_length h).imp fun _ => And.right

theorem mapM? {f : ι → Lowering α} {P : ι → Prop} {o : Option ι}
    (h : ∀ i ∈ o, Lowers depth (P i) [] Q (f i)) :
    Lowers depth (∀ i ∈ o, P i) [] (fun a => ∀ b ∈ a, Q b) (o.mapM f) := by
  cases o with
  | none => exact Lowers.congr (.pure (fun _ => Nat.le_refl _) nofun) (by simp)
  | some i =>
    refine ((h i rfl).map (fun a j => ?_) fun a ha b hb => ?_).congr (by simp)
    · rw [ids_some, List.nil_append]
    · rwa [← Option.some.inj hb]

end Lowers

theorem lowers_fresh (depth : Nat) : Lowers depth True [] (fun _ => True) fresh := by
  intro s hs
  refine ⟨rfl, (and_iff_left trivial).symm, Nat.le_succ _, ?_, trivial⟩
  show [s.next] <+~ [] ++ List.Ico s.next (s.next + 1)
  rw [List.Ico.succ_singleton]
  exact List.Subperm.refl _

theorem lowers_ident (depth : Nat) (name : String) :
    Lowers depth True [] (fun _ => True) (ident name) :=
  (lowers_fresh depth).map (fun _ _ => Nat.le_refl _) fun _ _ => trivial

theorem nested_of_lt {α : Type} {s : Lowerer} (h : s.depth < maxNesting) (spot : Spot) (stub : α)
    (x : Lowering α) :
    Lowering.nested spot stub x s =
      ((x { s with depth := s.depth + 1 }).1,
        { (x { s with depth := s.depth + 1 }).2 with
          depth := (x { s with depth := s.depth + 1 }).2.depth - 1 }) := by
  have hdescend : descend spot s = (true, { s with depth := s.depth + 1 }) :=
    if_neg (Nat.not_le.mpr h)
  show (fun b : Bool × Lowerer => (if b.1 then (do let a ← x; ascend; return a) else return stub :
    Lowering α) b.2) (descend spot s) = _
  rw [hdescend]
  rfl

theorem nested_of_le {α : Type} {s : Lowerer} (h : maxNesting ≤ s.depth) (spot : Spot) (stub : α)
    (x : Lowering α) :
    Lowering.nested spot stub x s = (stub, { s with tooDeep := s.tooDeep <|> some spot }) := by
  have hdescend : descend spot s = (false, { s with tooDeep := s.tooDeep <|> some spot }) :=
    if_pos h
  show (fun b : Bool × Lowerer => (if b.1 then (do let a ← x; ascend; return a) else return stub :
    Lowering α) b.2) (descend spot s) = _
  rw [hdescend]
  rfl

/-- A level of nesting. -/
theorem Lowers.nested {α : Type} [Syntactic α] {depth : Nat} {p : Prop} {Q : α → Prop} {stub : α}
    {x : Lowering α} (spot : Spot) (hids : ids stub = []) (hstub : Q stub)
    (hx : depth < maxNesting → Lowers (depth + 1) p [] Q x) :
    Lowers depth (depth < maxNesting ∧ p) [] Q (Lowering.nested spot stub x) := by
  rintro s rfl
  by_cases hlt : s.depth < maxNesting
  · have h := hx hlt { s with depth := s.depth + 1 } rfl
    rw [nested_of_lt hlt]
    refine ⟨?_, ?_, h.next_le, h.drawn, h.value⟩
    · dsimp only
      rw [h.depth_eq, Nat.add_sub_cancel]
    · dsimp only
      rw [h.tooDeep_iff, and_iff_right hlt]
  · rw [nested_of_le (Nat.not_lt.mp hlt)]
    refine ⟨rfl, ?_, Nat.le_refl _, ?_, hstub⟩
    · cases s.tooDeep <;> simp [hlt]
    · rw [hids]
      exact List.nil_subperm

/-! ## Chains of operators -/

namespace ParseTree

mutual

/-- No left operand of a binary operator is an element of a literal. -/
def hasPlainOperands : ParseTree → Bool
  | .node info children =>
    (info.kind ≠ .binaryExpression ||
      children.all fun t => t.field ≠ some .left || t.kind ≠ .literalElement) &&
      havePlainOperands children

def havePlainOperands : List ParseTree → Bool
  | [] => true
  | t :: ts => t.hasPlainOperands && havePlainOperands ts

end

theorem havePlainOperands_eq_all (ts : List ParseTree) :
    havePlainOperands ts = ts.all hasPlainOperands := by
  induction ts with
  | nil => rw [havePlainOperands, List.all_nil]
  | cons t ts ih => rw [havePlainOperands, List.all_cons, ih]

theorem hasPlainOperands_iff {root : ParseTree} :
    root.hasPlainOperands ↔
      (root.kind = .binaryExpression → ∀ t ∈ root.children, t.field = some .left →
        t.kind ≠ .literalElement) ∧ ∀ t ∈ root.children, t.hasPlainOperands := by
  obtain ⟨info, children⟩ := root
  rw [hasPlainOperands, havePlainOperands_eq_all, Bool.and_eq_true_iff, List.all_eq_true]
  refine and_congr_left fun _ => ?_
  rw [Bool.or_eq_true, decide_eq_true_iff, ← imp_iff_not_or, List.all_eq_true]
  refine forall_congr' fun _ => forall₂_congr fun t _ => ?_
  rw [Bool.or_eq_true, decide_eq_true_iff, decide_eq_true_iff, ← imp_iff_not_or]

theorem IsBelow.hasPlainOperands {root t : ParseTree} (ht : root.IsBelow t)
    (h : root.hasPlainOperands) : t.hasPlainOperands := by
  induction ht with
  | child ht => exact (hasPlainOperands_iff.mp h).2 _ ht
  | inner _ ht ih => exact (hasPlainOperands_iff.mp ih).2 _ ht

end ParseTree

section Spine

variable {root : ParseTree}

/-- A left operand is no element of a literal. -/
theorem kind_left_ne {t : ParseTree} (h : t.hasPlainOperands) (hkind : t.kind = .binaryExpression)
    {parts : List root.Below} (hparts : ∀ u ∈ parts, u.tree ∈ t.children) :
    ∀ u ∈ field? parts .left, u.kind ≠ .literalElement := by
  intro u hu
  have hfield : u.field = some .left := by simpa using List.find?_some hu
  exact (hasPlainOperands_iff.mp h).1 hkind u.tree (hparts u (mem_of_field? hu)) hfield

theorem spine_length (rights : List (Option root.Below)) (left : Option root.Below) :
    rights.length ≤ (spine rights left).1.length := by
  fun_induction spine rights left with
  | case1 | case4 => exact Nat.le_refl _
  | case2 rights t hkind left hleft ih => exact (Nat.le_succ _).trans ih
  | case3 => exact Nat.le_succ _

/-- The walk ends at no binary operator. -/
theorem spine_left (hplain : root.hasPlainOperands) (rights : List (Option root.Below))
    (left : Option root.Below) (hleft : ∀ t ∈ left, t.kind ≠ .literalElement) :
    ∀ t ∈ (spine rights left).2, t.kind ≠ .binaryExpression ∧ t.kind ≠ .literalElement := by
  fun_induction spine rights left with
  | case1 | case3 => exact nofun
  | case2 rights t hkind left hfield ih =>
    refine ih ?_
    rw [← hfield]
    exact kind_left_ne (t.isBelow.hasPlainOperands hplain) hkind fun _ => Below.mem_inner
  | case4 rights t hkind =>
    rintro u ⟨⟩
    exact ⟨hkind, hleft t rfl⟩

end Spine

/-! ## Types -/

/-- Paths in the expression of a node of the given kind are short. -/
def IsExprOf (plain : Prop) (n : Nat) (kind : Kind) (x : Expr) : Prop :=
  FitsIn plain n x ∧
    (kind ≠ .binaryExpression → kind ≠ .literalElement → ∀ xs, x ≠ .binary xs)

/-- An expression is a chain of operators. -/
def Expr.isChain : Expr → Bool
  | .binary _ => true
  | _ => false

theorem Expr.ne_binary_of_isChain {x : Expr} (h : x.isChain = false) (xs : List Expr) :
    x ≠ .binary xs := by
  rintro rfl
  cases h

theorem isExprOf_of_children {plain : Prop} {n : Nat} {kind : Kind} {x : Expr}
    (hchain : x.isChain = false) (h : ∀ c ∈ x.children, c.Fits plain n) :
    IsExprOf plain (n + 1) kind x := by
  have hne := Expr.ne_binary_of_isChain hchain
  refine ⟨fitsIn_expr ?_ h, fun _ _ => hne⟩
  unfold SyntaxNode.IsFlat
  split
  · next xs hx => exact absurd (SyntaxNode.expr.inj hx) (hne xs)
  · trivial

/-- What is assumed of lowering below `root`: a node leads to nothing too deep just when it is `ok`.
-/
structure LowersBelow {root : ParseTree} (plain : Prop) (depth n : Nat)
    (ok : Role × root.Below → Prop) (lower : root.Below → Lowered) : Prop where
  type : ∀ t, Lowers depth (ok (.type, t)) [] (FitsIn plain (n + 1)) (lower t).type
  expr : ∀ t, Lowers depth (ok (.expr, t)) [] (IsExprOf plain (n + 1) t.kind) (lower t).expr
  stmt : ∀ t, Lowers depth (ok (.stmt, t)) [] (FitsIn plain (n + 1)) (lower t).stmt

theorem lowers_idents (depth : Nat) {root : ParseTree} (parts : List root.Below) :
    Lowers depth True [] (fun _ => True) (idents parts) := by
  refine Lowers.congr (.imp (.mapM fun t _ => lowers_ident depth t.text) fun _ _ => trivial) ?_
  simp

section Rules

variable {root : ParseTree} {plain : Prop} {depth n : Nat} {ok : Role × root.Below → Prop}
  {lower : root.Below → Lowered}

theorem fitsIn_fieldTypes {fields : List Field} (h : FitsIn plain n fields) :
    FitsIn plain n (fieldTypes fields) := by
  refine fitsIn_list.mpr (List.forall_mem_flatMap.mpr fun f hf t ht => ?_)
  rw [List.eq_of_mem_replicate ht]
  exact fitsIn_list.mp h f hf

theorem forall_inRole {role : Role} {ts : List root.Below} :
    (∀ c ∈ inRole role ts, ok c) ↔ ∀ t ∈ ts, ok (role, t) := List.forall_mem_map

theorem forall_fieldSteps {role : Role} {parts : List root.Below} {f : FieldName} :
    (∀ c ∈ fieldSteps role parts f, ok c) ↔ ∀ t ∈ field? parts f, ok (role, t) := by
  rw [fieldSteps, forall_inRole]
  simp only [Option.mem_toList, Option.mem_def]

namespace LowersBelow

variable (h : LowersBelow plain depth n ok lower)
include h

theorem typeOr (t : Option root.Below) :
    Lowers depth (∀ u ∈ t, ok (.type, u)) [] (FitsIn plain (n + 1)) (typeOr lower t) := by
  cases t with
  | none => exact Lowers.congr (.pure (fun _ => Nat.le_refl _) fitsIn_unknown) (by simp)
  | some t => exact (h.type t).congr (by simp)

theorem type? (t : Option root.Below) :
    Lowers depth (∀ u ∈ t, ok (.type, u)) [] (FitsIn plain (n + 2)) (type? lower t) :=
  (Lowers.mapM? fun t _ => h.type t).imp fun _ ht => (fitsIn_option.mpr ht).succ

theorem types (ts : List root.Below) :
    Lowers depth (∀ t ∈ ts, ok (.type, t)) [] (FitsIn plain (n + 2)) (types lower ts) :=
  (Lowers.mapM fun t _ => h.type t).imp fun _ ht => (fitsIn_list.mpr ht).succ

/-- The type of a variadic parameter is one node more. -/
theorem param (t : root.Below) :
    Lowers depth (∀ c ∈ fieldSteps .type t.parts .type, ok c) [] (FitsIn plain (n + 2))
      (param lower t) := by
  refine Lowers.congr ((lowers_idents depth t.parts).bind fun names _ =>
    (h.typeOr (field? t.parts .type)).map (fun type i => ?_) fun type htype => ?_) ?_
  · simp [ids]
  · split
    · exact fitsIn_type htype
    · exact htype.succ
  · simp [fieldSteps, inRole]

theorem params (list : root.Below) :
    Lowers depth (∀ c ∈ paramSteps list, ok c) [] (FitsIn plain (n + 2)) (params lower list) :=
  ((Lowers.mapM fun t _ => h.param t).imp fun _ => fitsIn_list.mpr).congr List.forall_mem_flatMap.symm

theorem paramsOr (list : Option root.Below) :
    Lowers depth (∀ c ∈ list.toList.flatMap paramSteps, ok c) [] (FitsIn plain (n + 2))
      (paramsOr lower list) := by
  cases list with
  | none => exact Lowers.congr (.pure (fun _ => Nat.le_refl _) fitsIn_nil) (by simp)
  | some list => exact (h.params list).congr (by simp)

theorem results (parts : List root.Below) :
    Lowers depth (∀ c ∈ resultSteps parts, ok c) [] (FitsIn plain (n + 2)) (results lower parts) := by
  unfold GoCalls.results resultSteps
  cases field? parts .result with
  | none => exact Lowers.congr (.pure (fun _ => Nat.le_refl _) fitsIn_nil) (by simp)
  | some t =>
    by_cases hkind : t.kind = .parameterList
    · simpa [hkind] using h.params t
    · simp only [hkind, if_false]
      refine Lowers.congr ((h.type t).map (fun type i => ?_) fun type htype => ?_) (by simp [hkind])
      · simp [fieldsMarks]
      · exact fitsIn_list.mpr (List.forall_mem_singleton.mpr htype.succ)

/-- An embedded pointer is one node more. -/
theorem structFields (t : root.Below) :
    Lowers depth (∀ c ∈ fieldSteps .type t.parts .type, ok c) [] (FitsIn plain (n + 2))
      (structFields lower t) := by
  refine Lowers.congr ((h.typeOr (field? t.parts .type)).bind (q := True) fun type htype => ?_) ?_
  · split
    · refine .pure (by simp) (fitsIn_list.mpr (List.forall_mem_singleton.mpr ?_))
      split
      · exact fitsIn_type htype
      · exact htype.succ
    · exact .pure (by simp) (fitsIn_list.mpr (List.forall_mem_map.mpr fun name _ => htype.succ))
  · simp [fieldSteps, inRole]

/-- **The type of a node.** -/
theorem typeRule :
    Lowers depth (∀ c ∈ root.typeSteps, ok c) [] (FitsIn plain (n + 3)) (typeRule lower) := by
  unfold GoCalls.typeRule
  split
  case h_1 hkind | h_2 hkind | h_3 hkind | h_14 hkind => -- names and interfaces
    simp only [typeSteps, hkind]
    exact Lowers.congr (.pure (by simp) (fitsIn_type (List.forall_mem_nil _))) (by simp)
  case h_4 hkind => -- instances of generic types
    simp only [typeSteps, hkind]
    exact ((h.typeOr _).imp fun _ ht => ht.succ.succ).congr (by simp [fieldSteps, inRole])
  case h_6 hkind => -- parentheses
    simp only [typeSteps, hkind]
    exact ((h.typeOr _).imp fun _ ht => ht.succ.succ).congr (by simp [inRole])
  case h_5 hkind => -- pointers
    simp only [typeSteps, hkind]
    exact Lowers.congr ((h.typeOr _).map (by simp) fun _ ht => fitsIn_type ht.succ) (by simp [inRole])
  case h_7 hkind | h_8 hkind | h_9 hkind | h_11 hkind => -- slices, arrays and channels
    simp only [typeSteps, hkind]
    exact Lowers.congr ((h.typeOr _).map (by simp) fun _ ht => fitsIn_type ht.succ)
      (by simp [fieldSteps, inRole])
  case h_10 hkind => -- maps
    simp only [typeSteps, hkind]
    refine Lowers.congr ((h.typeOr _).bind fun key hkey => (h.typeOr _).map (by simp)
      fun value hvalue => fitsIn_type (List.forall_mem_append.mpr ⟨hkey.succ, hvalue.succ⟩)) ?_
    simp [fieldSteps, inRole, or_imp, forall_and]
  case h_12 hkind => -- functions
    simp only [typeSteps, hkind]
    refine Lowers.congr ((h.paramsOr _).bind fun params hparams => (h.results _).map (by simp)
      fun results hresults => fitsIn_type (List.forall_mem_append.mpr
        ⟨fitsIn_fieldTypes hparams, fitsIn_fieldTypes hresults⟩)) ?_
    rw [signatureSteps, List.forall_mem_append]
  case h_13 hkind => -- structs
    simp only [typeSteps, hkind]
    refine Lowers.congr ((Lowers.mapM fun t _ => h.structFields t).map (by simp)
      fun fields hfields => fitsIn_type (fitsIn_flatten hfields)) List.forall_mem_flatMap.symm
  case h_15 => -- all other kinds
    refine Lowers.congr (.pure (by simp) fitsIn_unknown) ?_
    unfold typeSteps
    split <;> simp_all

/-! ## Expressions -/

theorem anyExpr (t : root.Below) :
    Lowers depth (ok (.expr, t)) [] (FitsIn plain (n + 2)) (lower t).expr :=
  (h.expr t).imp fun _ hx => hx.1.succ

theorem exprOr (t : Option root.Below) :
    Lowers depth (∀ u ∈ t, ok (.expr, u)) [] (FitsIn plain (n + 2)) (exprOr lower t) := by
  cases t with
  | none => exact Lowers.congr (.pure (by simp [Expr.marks, exprsMarks]) fitsIn_other) (by simp)
  | some t => exact (h.anyExpr t).congr (by simp)

theorem expr? (t : Option root.Below) :
    Lowers depth (∀ u ∈ t, ok (.expr, u)) [] (FitsIn plain (n + 2)) (expr? lower t) :=
  (Lowers.mapM? fun t _ => h.anyExpr t).imp fun _ => fitsIn_option.mpr

theorem exprs (ts : List root.Below) :
    Lowers depth (∀ t ∈ ts, ok (.expr, t)) [] (FitsIn plain (n + 2)) (exprs lower ts) :=
  (Lowers.mapM fun t _ => h.anyExpr t).imp fun _ => fitsIn_list.mpr

theorem exprsIn (t : Option root.Below) :
    Lowers depth (∀ c ∈ exprsInSteps t, ok c) [] (FitsIn plain (n + 2)) (exprsIn lower t) := by
  cases t with
  | none =>
    exact Lowers.congr (.pure (by simp [exprsMarks]) fitsIn_nil) (by simp [exprsInSteps, inRole])
  | some t => exact (h.exprs (named t.parts)).congr (by simp [exprsInSteps, inRole])

theorem exprListOr (t : Option root.Below) :
    Lowers depth (∀ c ∈ exprListSteps t, ok c) [] (FitsIn plain (n + 2)) (exprListOr lower t) := by
  cases t with
  | none =>
    exact Lowers.congr (.pure (by simp [exprsMarks]) fitsIn_nil) (by simp [exprListSteps, inRole])
  | some t =>
    rw [GoCalls.exprListOr, exprList]
    split_ifs with hkind
    · exact (h.exprs (named t.parts)).congr (by simp [exprListSteps, inRole, hkind])
    · refine Lowers.congr ((h.anyExpr t).map (by simp [exprsMarks]) fun x hx => ?_)
        (by simp [exprListSteps, inRole, hkind])
      exact fitsIn_list.mpr (List.forall_mem_singleton.mpr hx)

theorem stmts (ts : List root.Below) :
    Lowers depth (∀ c ∈ stmtListSteps ts, ok c) [] (FitsIn plain (n + 2)) (stmts lower ts) :=
  ((Lowers.mapM fun t _ => h.stmt t).imp fun _ hs => (fitsIn_list.mpr hs).succ).congr
    List.forall_mem_map.symm

theorem blockOr (t : Option root.Below) :
    Lowers depth (∀ c ∈ blockSteps t, ok c) [] (FitsIn plain (n + 2)) (blockOr lower t) := by
  cases t with
  | none => exact Lowers.congr (.pure (by simp [stmtsMarks]) fitsIn_nil) (by simp [blockSteps])
  | some t => exact (h.stmts (named t.parts)).congr (by simp [blockSteps])

/-- **A chain of operators** has two operands at least. -/
theorem chain (hplain : plain → root.hasPlainOperands) (hkind : root.kind = .binaryExpression) :
    Lowers depth (∀ c ∈ root.exprSteps, ok c) [] (IsExprOf plain (n + 3) root.kind)
      (chain lower) := by
  have hrights := spine_length [field? root.parts .right] (field? root.parts .left)
  have hleft (h : plain) := spine_left (hplain h) [field? root.parts .right] _
    (kind_left_ne (hplain h) hkind fun _ => mem_children)
  simp only [exprSteps, hkind]
  unfold GoCalls.chain
  generalize spine [field? root.parts .right] (field? root.parts .left) = walked at hrights hleft ⊢
  obtain ⟨rights, left⟩ := walked
  have hfirst : Lowers depth (∀ t ∈ left, ok (.expr, t)) []
      (fun x => FitsIn plain (n + 2) x ∧ (plain → ∀ xs, x ≠ .binary xs))
      (GoCalls.exprOr lower left) := by
    cases left with
    | none =>
      exact Lowers.congr (.pure (by simp [Expr.marks, exprsMarks])
        ⟨fitsIn_other, fun _ => Expr.ne_binary_of_isChain rfl⟩) (by simp)
    | some t =>
      refine Lowers.congr ((h.expr t).imp fun x hx => ⟨hx.1.succ, fun hp => ?_⟩) (by simp)
      exact hx.2 (hleft hp t rfl).1 (hleft hp t rfl).2
  refine Lowers.congr (hfirst.bind fun x hx => (Lowers.mapM_length fun t _ => h.exprOr t).map
    (by simp [Expr.marks, exprsMarks]) fun xs hxs => ?_) ?_
  · refine ⟨fitsIn_expr ⟨?_, fun hp inner hinner => ?_⟩ ?_, fun hne => absurd rfl hne⟩
    · rw [List.length_cons, hxs.1]
      exact Nat.succ_le_succ hrights
    · exact hx.2 hp inner (Option.some.inj hinner)
    · exact fitsIn_list.mpr (List.forall_mem_cons.mpr ⟨hx.1, hxs.2⟩)
  · rw [forall_inRole, List.forall_mem_append]
    simp only [Option.mem_toList, Option.mem_def, List.reduceOption_mem_iff]
    refine and_congr_right fun _ => ⟨fun hall t ht => hall _ ht t rfl, fun hall t ht u hu => ?_⟩
    exact hall u (hu ▸ ht)

omit h in
/-- A type in the place of an expression. -/
theorem exprRule_of_isType (htype : root.kind.isType) {p : Prop} {self : Lowering TypeExpr}
    (hself : Lowers depth p [] (FitsIn plain (n + 1)) self) :
    Lowers depth p [] (IsExprOf plain (n + 3) root.kind) (exprRule lower self) := by
  have hrule : exprRule lower self = (do return .type (← self)) := by
    unfold GoCalls.exprRule
    split <;> simp_all [Kind.isType]
  rw [hrule]
  exact hself.map (by simp [Expr.marks]) fun t ht => isExprOf_of_children rfl ht.succ

/-- **The expression of a node.** -/
theorem exprRule (hplain : plain → root.hasPlainOperands) (htype : ¬ root.kind.isType)
    (self : Lowering TypeExpr) :
    Lowers depth (∀ c ∈ root.exprSteps, ok c) [] (IsExprOf plain (n + 3) root.kind)
      (exprRule lower self) := by
  unfold GoCalls.exprRule
  split
  case h_1 hkind | h_2 hkind | h_3 hkind | h_4 hkind => -- names
    simp only [exprSteps, hkind]
    exact Lowers.congr ((lowers_ident depth _).map (by simp [Expr.marks, Ident.mark])
      fun _ _ => isExprOf_of_children rfl (List.forall_mem_nil _)) (by simp)
  case h_5 hkind => -- literals
    simp only [exprSteps, hkind]
    exact Lowers.congr (.pure (by simp [Expr.marks])
      (isExprOf_of_children rfl (List.forall_mem_nil _))) (by simp)
  case h_6 hkind => -- selectors
    simp only [exprSteps, hkind]
    refine Lowers.congr ((lowers_fresh depth).bind fun id _ => (h.exprOr _).bind fun x hx =>
      (lowers_ident depth _).map (fun sel i => ?_) fun _ _ => isExprOf_of_children rfl hx) ?_
    · simp [Expr.marks, ids, List.count_cons]
      omega
    · simp only [forall_fieldSteps, and_true, true_and]
  case h_7 hkind => -- calls
    simp only [exprSteps, hkind]
    refine Lowers.congr ((h.exprOr _).bind fun fn hfn => (h.exprsIn _).map (by simp [Expr.marks])
      fun args hargs => isExprOf_of_children rfl (List.forall_mem_append.mpr ⟨hfn, hargs⟩)) ?_
    simp only [List.forall_mem_append, forall_fieldSteps]
  case h_8 hkind => -- conversions
    simp only [exprSteps, hkind]
    refine Lowers.congr ((h.typeOr _).bind fun type htype => (h.expr? _).map (by simp [Expr.marks])
      fun x hx => isExprOf_of_children rfl ?_) ?_
    · exact List.forall_mem_append.mpr ⟨fitsIn_expr trivial htype, hx⟩
    · simp only [List.forall_mem_append, forall_fieldSteps]
  case h_9 hkind => -- function literals
    simp only [exprSteps, hkind]
    refine Lowers.congr ((h.paramsOr _).bind fun params hparams => (h.results _).bind
      fun results hresults => (h.blockOr _).map (by simp [Expr.marks]) fun body hbody =>
      isExprOf_of_children rfl ?_) ?_
    · exact List.forall_mem_append.mpr ⟨List.forall_mem_append.mpr ⟨hparams, hresults⟩, hbody⟩
    · rw [signatureSteps, List.append_assoc, List.forall_mem_append, List.forall_mem_append]
  case h_10 hkind => -- composite literals
    simp only [exprSteps, hkind]
    refine Lowers.congr ((h.type? _).bind fun type htype => (h.exprsIn _).map (by simp [Expr.marks])
      fun xs hxs => isExprOf_of_children rfl (List.forall_mem_append.mpr ⟨htype, hxs⟩)) ?_
    simp only [List.forall_mem_append, forall_fieldSteps]
  case h_11 hkind => -- literal values
    simp only [exprSteps, hkind]
    exact Lowers.congr ((h.exprs _).map (by simp [Expr.marks]) fun xs hxs =>
      isExprOf_of_children rfl (List.forall_mem_append.mpr ⟨List.forall_mem_nil _, hxs⟩))
      forall_inRole.symm
  case h_12 hkind => -- elements of literals
    simp only [exprSteps, hkind]
    exact ((h.exprOr _).imp fun x hx => ⟨hx.succ, fun _ hne => absurd rfl hne⟩).congr
      (by simp only [forall_inRole, Option.mem_toList, Option.mem_def])
  case h_13 hkind => -- elements with keys
    simp only [exprSteps, hkind]
    rcases hparts : named root.parts with _ | ⟨key, _ | ⟨value, rest⟩⟩
    · exact Lowers.congr ((h.exprs []).map (by simp [Expr.marks]) fun xs hxs =>
        isExprOf_of_children rfl hxs) forall_inRole.symm
    · exact Lowers.congr ((h.exprs [key]).map (by simp [Expr.marks]) fun xs hxs =>
        isExprOf_of_children rfl hxs) forall_inRole.symm
    · exact Lowers.congr ((h.anyExpr key).bind fun k hk => (h.anyExpr value).map
        (by simp [Expr.marks]) fun v hv =>
          isExprOf_of_children rfl (List.forall_mem_append.mpr ⟨hk, hv⟩)) (by simp [inRole])
  case h_14 hkind => -- unary operators
    simp only [exprSteps, hkind]
    exact Lowers.congr ((h.exprOr _).map (by simp [Expr.marks]) fun x hx =>
      isExprOf_of_children rfl hx) forall_fieldSteps.symm
  case h_15 hkind => exact h.chain hplain hkind
  case h_16 hkind | h_17 hkind => -- index and slice expressions
    simp only [exprSteps, hkind]
    refine Lowers.congr ((h.exprOr _).bind fun x hx => (h.exprs _).map (by simp [Expr.marks])
      fun xs hxs => isExprOf_of_children rfl (List.forall_mem_append.mpr ⟨hx, hxs⟩)) ?_
    simp only [List.forall_mem_append, forall_fieldSteps, forall_inRole]
  case h_18 hkind => -- type assertions
    simp only [exprSteps, hkind]
    refine Lowers.congr ((h.exprOr _).bind fun x hx => (h.type? _).map (by simp [Expr.marks])
      fun t ht => isExprOf_of_children rfl (List.forall_mem_append.mpr ⟨hx, ht⟩)) ?_
    simp only [List.forall_mem_append, forall_fieldSteps]
  case h_19 hkind => -- parentheses
    simp only [exprSteps, hkind]
    exact Lowers.congr ((h.exprOr _).map (by simp [Expr.marks]) fun x hx =>
      isExprOf_of_children rfl hx)
      (by simp only [forall_inRole, Option.mem_toList, Option.mem_def])
  case h_20 => -- all other kinds
    have hsteps : root.exprSteps = inRole .expr (named root.parts) := by
      unfold exprSteps
      split <;> simp_all
    rw [if_neg htype, hsteps]
    exact Lowers.congr ((h.exprs _).map (by simp [Expr.marks]) fun xs hxs =>
      isExprOf_of_children rfl hxs) forall_inRole.symm

end LowersBelow

end Rules

end GoCalls
