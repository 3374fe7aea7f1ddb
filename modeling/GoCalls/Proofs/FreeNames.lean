import GoCalls.Proofs.PassingParts

/-!
# Names that are read past all scopes

A name that no scope declares at its place stands for what the file declares or imports. Keys of
composite literals and members that a selector picks are no such names, nor are targets that a
definition declares.

* `Expr.reads`, `Stmt.reads`: the marks of these names, in code where some names are declared.
* `Notes`: a computation records what such a mark stands for in the file.
* **`visitExpr_notes`**, **`visitStmt_notes`**: checking records all that it reads.
-/

namespace GoCalls

mutual

/-- The names that an expression reads past all scopes, where `names` are declared. -/
def Expr.reads (names : List String) : Expr → List Mark
  | .ident i => if i.name ∈ names then [] else [i.mark]
  | .selector _ x _ | .unary _ x | .paren x | .typeAssert x _ => x.reads names
  | .call x xs | .index x xs | .slice x xs => x.reads names ++ exprsReads names xs
  | .func params results body => stmtsReads (names ++ fieldNames params ++ fieldNames results) body
  | .composite _ xs | .binary xs | .other xs => exprsReads names xs
  | .keyValue key value => (if key.ident?.isNone then key.reads names else []) ++ value.reads names
  | .lit _ | .type _ => []

def exprsReads (names : List String) : List Expr → List Mark
  | [] => []
  | x :: xs => x.reads names ++ exprsReads names xs

def expr?Reads (names : List String) : Option Expr → List Mark
  | none => []
  | some x => x.reads names

/-- The names that the targets of a definition read. -/
def targetsReads (names : List String) : List Expr → List Mark
  | [] => []
  | x :: xs => (if x.ident?.isNone then x.reads names else []) ++
    targetsReads (names ++ declaredNames x.ident?.toList) xs

/-- The names that a statement reads past all scopes, where `names` are declared. -/
def Stmt.reads (names : List String) : Stmt → List Mark
  | .expr x | .go x | .defer x | .incDec x => x.reads names
  | .assign lhs rhs define =>
    exprsReads names rhs ++ if define then targetsReads names lhs else exprsReads names lhs
  | .declare specs => specsReads names specs
  | .ret xs | .other xs => exprsReads names xs
  | .block body => stmtsReads names body
  | .ifThen init cond body orElse =>
    let inner := names ++ init.toList.flatMap Stmt.declares
    stmt?Reads names init ++ cond.reads inner ++ stmtsReads inner body ++ stmt?Reads inner orElse
  | .loop init cond post body =>
    let inner := names ++ init.toList.flatMap Stmt.declares
    stmt?Reads names init ++ expr?Reads inner cond ++ stmt?Reads inner post ++
      stmtsReads (inner ++ post.toList.flatMap Stmt.declares) body
  | .range key value define x body =>
    x.reads names ++ (if define then [] else expr?Reads names key ++ expr?Reads names value) ++
      stmtsReads (names ++ rangeNames define key value) body
  | .switch init tag clauses =>
    let inner := names ++ init.toList.flatMap Stmt.declares
    stmt?Reads names init ++ expr?Reads inner tag ++ clausesReads inner clauses
  | .typeSwitch init binding subject clauses =>
    let inner := names ++ init.toList.flatMap Stmt.declares
    stmt?Reads names init ++ subject.reads inner ++
      typeClausesReads (inner ++ declaredNames binding.toList) clauses
  | .select clauses => commClausesReads names clauses
  | .send chan value => chan.reads names ++ value.reads names
  | .labeled body => body.reads names

def stmtsReads (names : List String) : List Stmt → List Mark
  | [] => []
  | s :: ss => s.reads names ++ stmtsReads (names ++ s.declares) ss

def stmt?Reads (names : List String) : Option Stmt → List Mark
  | none => []
  | some s => s.reads names

def specsReads (names : List String) : List ValueSpec → List Mark
  | [] => []
  | .mk is _ values :: specs =>
    exprsReads names values ++ specsReads (names ++ declaredNames is) specs

def clausesReads (names : List String) : List Clause → List Mark
  | [] => []
  | .mk exprs body :: clauses =>
    exprsReads names exprs ++ stmtsReads names body ++ clausesReads names clauses

def typeClausesReads (names : List String) : List TypeClause → List Mark
  | [] => []
  | .mk _ body :: clauses => stmtsReads names body ++ typeClausesReads names clauses

def commClausesReads (names : List String) : List CommClause → List Mark
  | [] => []
  | .mk comm body :: clauses =>
    stmt?Reads names comm ++ stmtsReads (names ++ comm.toList.flatMap Stmt.declares) body ++
      commClausesReads names clauses

end

/-! ## Computations that record what they read -/

/-- A computation records what the names that it reads past the given ones stand for in the file. -/
structure Notes (env : FileEnv) (marks reads : List Mark) (names new : List String) {α : Type}
    (m : StateM Visit α) : Prop where
  touches : Touches marks new m
  subset : reads ⊆ marks
  run : UniqueIds marks → ∀ v : Visit, Covers names v.scopes → ∀ read ∈ reads,
    (m.run v).2.tables.uses[read.id]? = (env.global? read.name).or v.tables.uses[read.id]?

namespace Notes

variable {env : FileEnv} {marks more reads others : List Mark} {names new wider : List String}
  {α β : Type} {m : StateM Visit α} {f : α → StateM Visit β}

theorem of_touches (h : Touches marks new m) : Notes env marks [] names new m :=
  ⟨h, List.nil_subset _, fun _ _ _ => List.forall_mem_nil _⟩

theorem bind (h : Notes env marks reads names new m)
    (hf : ∀ a, Notes env more others (names ++ new) wider (f a)) :
    Notes env (marks ++ more) (reads ++ others) names (new ++ wider) (m >>= f) where
  touches := h.touches.bind fun a _ => (hf a).touches
  subset := List.append_subset.mpr ⟨List.subset_append_of_subset_left _ h.subset,
    List.subset_append_of_subset_right _ (hf (m.run {}).1).subset⟩
  run hu v hv := by
    have hnext := hf (m.run v).1
    refine List.forall_mem_append.mpr ⟨fun read hread => ?_, fun read hread => ?_⟩
    · have hkept := hnext.touches.agreeOn hu.apart.symm (m.run v).2 read (h.subset hread)
      exact hkept.1.trans (h.run hu.left v hv read hread)
    · have hkept := h.touches.agreeOn hu.apart v read (hnext.subset hread)
      rw [← hkept.1]
      exact hnext.run hu.right _ (h.touches.covers hv) read hread

theorem congr {marks' reads' : List Mark} {new' : List String}
    (h : Notes env marks reads names new m) (hmarks : marks.Sublist marks') (hreads : reads = reads')
    (hnew : new = new') : Notes env marks' reads' names new' m := by
  subst hreads hnew
  exact ⟨h.touches.weaken hmarks.subset (List.Subset.refl _),
    List.Subset.trans h.subset hmarks.subset, fun hu => h.run (hu.sublist hmarks)⟩

/-- The first of two computations declares nothing. -/
theorem andThen (h : Notes env marks reads names [] m)
    (hf : ∀ a, Notes env more others names wider (f a)) :
    Notes env (marks ++ more) (reads ++ others) names wider (m >>= f) :=
  h.bind (by simpa using hf)

theorem compute (h : Notes env marks reads names new m) (hf : ∀ a, Touches [] [] (f a)) :
    Notes env marks reads names new (m >>= f) :=
  (h.bind fun a => of_touches (hf a)).congr (by simp) (by simp) (by simp)

theorem get {f : Visit → StateM Visit α} (htouches : Touches marks new (MonadState.get >>= f))
    (hsubset : reads ⊆ marks)
    (h : ∀ u, Covers names u.scopes → Notes env marks reads names new (f u)) :
    Notes env marks reads names new (MonadState.get >>= f) :=
  ⟨htouches, hsubset, fun hu v hv => (h v hv).run hu v hv⟩

theorem inScope (h : Notes env marks reads names new m) :
    Notes env marks reads names [] (Visit.inScope m) :=
  ⟨h.touches.inScope, h.subset, fun hu v hv => h.run hu { v with scopes := [] :: v.scopes } hv.push⟩

/-- What a name stands for is recorded for its mark. -/
theorem use {i : Ident} {symbol : Symbol} (h : env.global? i.name = some symbol) :
    Notes env [i.mark] [i.mark] names [] (Visit.use i.id symbol) where
  touches := Visits.use (by decide) trivial
  subset := List.Subset.refl _
  run _ v _ := by
    refine List.forall_mem_singleton.mpr ?_
    have hglobal : env.global? i.mark.name = some symbol := h
    rw [hglobal, Option.some_or]
    exact Std.TreeMap.getElem?_insert_self

theorem unknown {i : Ident} (h : env.global? i.name = none) (a : α) :
    Notes env [i.mark] [i.mark] names [] (Pure.pure a) where
  touches := Visits.result trivial
  subset := List.Subset.refl _
  run _ v _ := by
    refine List.forall_mem_singleton.mpr ?_
    have hglobal : env.global? i.mark.name = none := h
    rw [hglobal, Option.none_or]
    rfl

end Notes

/-! ## Visiting -/

section Visiting

variable (env : FileEnv)

theorem visitIdent_notes (names : List String) (i : Ident) :
    Notes env (Expr.ident i).marks ((Expr.ident i).reads names) names []
      (visitExpr env (.ident i)) := by
  have htouches := touches_expr env (.ident i)
  rw [Expr.reads]
  split_ifs with hname
  · exact .of_touches htouches
  · rw [visitExpr, Expr.marks] at *
    refine Notes.get htouches (List.Subset.refl _) fun u hu => ?_
    rw [hu.lookup hname env]
    cases hglobal : env.global? i.name with
    | none => exact .unknown hglobal none
    | some symbol => exact (Notes.use hglobal).compute fun _ => touches_pure _

theorem visitSelector_notes {names : List String} {x : Expr}
    (hx : Notes env x.marks (x.reads names) names [] (visitExpr env x)) (id : Nat) (sel : Ident) :
    Notes env (Expr.selector id x sel).marks (x.reads names) names []
      (visitExpr env (.selector id x sel)) := by
  have htouches := touches_expr env (.selector id x sel)
  have hsubset : x.reads names ⊆ (Expr.selector id x sel).marks := by
    rw [Expr.marks]
    exact List.subset_append_of_subset_left _ hx.subset
  have hnone : Touches [⟨id, sel.name, .selector⟩, ⟨sel.id, sel.name, .member⟩] []
      (pure none : StateM Visit (Option Ty)) := Visits.result trivial
  have hselect (recv : Ty) : Touches [⟨id, sel.name, .selector⟩, ⟨sel.id, sel.name, .member⟩] [] (do
      Visit.select id ⟨recv, sel.name⟩
      return env.index.memberType recv sel.name) := by
    have hselection : Touches [⟨id, sel.name, .selector⟩] [] (Visit.select id ⟨recv, sel.name⟩) :=
      @Visits.select (fun _ => True) (fun _ _ _ => True) id ⟨recv, sel.name⟩ trivial
    exact (hselection.compute fun _ _ => touches_pure _).weaken (by simp) (by simp)
  have hmember (member : Symbol) :
      Touches [⟨id, sel.name, .selector⟩, ⟨sel.id, sel.name, .member⟩] [] (do
        Visit.use sel.id member
        return member.type) := by
    have huse : Touches [⟨sel.id, sel.name, .member⟩] [] (Visit.use sel.id member) :=
      Visits.use (by decide) trivial
    exact (huse.compute fun _ _ => touches_pure _).weaken (by simp) (by simp)
  cases hident : x.ident? with
  | none =>
    rw [visitExpr] at htouches ⊢
    simp only [hident, Option.bind_none] at htouches ⊢
    refine Notes.get htouches hsubset fun u hu => ?_
    rw [Expr.marks, ← List.append_nil (x.reads names)]
    refine hx.andThen fun operand => .of_touches ?_
    cases env.denotedType u.scopes x <|> operand with
    | none => exact hnone
    | some recv => exact hselect recv
  | some i =>
    obtain rfl := Expr.ident?_eq_some.mp hident
    by_cases hname : i.name ∈ names
    · rw [Expr.reads, if_pos hname]
      exact .of_touches htouches
    · rw [visitExpr] at htouches ⊢
      simp only [hident, Option.bind_some] at htouches ⊢
      refine Notes.get htouches hsubset fun u hu => ?_
      have hread : (Expr.ident i).reads names = [i.mark] := by rw [Expr.reads, if_neg hname]
      have hmarks : (Expr.ident i).marks = [i.mark] := by rw [Expr.marks]
      rw [Expr.marks]
      cases hpath : env.packagePath? u.scopes i.name with
      | none =>
        rw [← List.append_nil ((Expr.ident i).reads names)]
        refine hx.andThen fun operand => .of_touches ?_
        cases env.denotedType u.scopes (.ident i) <|> operand with
        | none => exact hnone
        | some recv => exact hselect recv
      | some path =>
        obtain ⟨symbol, hlookup, -⟩ := Option.bind_eq_some_iff.mp hpath
        have hglobal := (hu.lookup hname env).symm.trans hlookup
        simp only [Option.map_some, hlookup, hread, hmarks]
        rw [← List.append_nil [i.mark]]
        refine (Notes.use hglobal).andThen fun _ => .of_touches ?_
        cases env.index.member? path sel.name with
        | none => exact hnone
        | some member => exact hmember member

mutual

/-- **Visiting an expression** records what it reads. -/
theorem visitExpr_notes : ∀ (names : List String) (x : Expr),
    Notes env x.marks (x.reads names) names [] (visitExpr env x)
  | names, .ident i => visitIdent_notes env names i
  | names, .selector id x sel => by
    rw [Expr.reads]
    exact visitSelector_notes env (visitExpr_notes names x) id sel
  | names, .call fn args => by
    have htouches := touches_expr env (.call fn args)
    have hvisit := visitExpr_notes names fn
    have hargs := visitExprs_notes names args
    rw [visitExpr] at htouches ⊢
    rw [Expr.marks, Expr.reads] at *
    refine Notes.get htouches ?_ fun u hu => ?_
    · exact List.append_subset.mpr ⟨List.subset_append_of_subset_left _ hvisit.subset,
        List.subset_append_of_subset_right _ hargs.subset⟩
    · refine hvisit.andThen fun _ => hargs.compute fun _ => ?_
      split <;> exact touches_pure _
  | names, .func params results body => by
    rw [visitExpr]
    have hbody : Notes env _ _ names _ (do
        Visit.declareFields env params
        Visit.declareFields env results
        visitStmts env body) :=
      (Notes.of_touches (touches_fields env params)).bind fun _ =>
        (Notes.of_touches (touches_fields env results)).bind fun _ => visitStmts_notes _ body
    exact (hbody.inScope.compute fun _ => touches_pure _).congr (by simp [Expr.marks])
      (by simp [Expr.reads]) rfl
  | names, .composite type xs => by
    rw [visitExpr, Expr.marks, Expr.reads]
    exact (visitExprs_notes names xs).compute fun _ => touches_pure _
  | names, .keyValue key value => by
    rw [visitExpr, Expr.marks, Expr.reads]
    have hvalue : Notes env value.marks (value.reads names) names []
        (do let _ ← visitExpr env value; return (none : Option Ty)) :=
      (visitExpr_notes names value).compute fun _ => touches_pure _
    split_ifs
    · exact (visitExpr_notes names key).andThen fun _ => hvalue
    · exact hvalue.congr (List.sublist_append_right _ _) rfl rfl
  | names, .unary op x => by
    rw [visitExpr, Expr.marks, Expr.reads]
    refine (visitExpr_notes names x).compute fun _ => ?_
    split <;> exact touches_pure _
  | names, .binary xs | names, .other xs => by
    rw [visitExpr, Expr.marks, Expr.reads]
    exact (visitExprs_notes names xs).compute fun _ => touches_pure _
  | names, .index x xs | names, .slice x xs => by
    rw [visitExpr, Expr.marks, Expr.reads]
    exact (visitExpr_notes names x).andThen fun _ =>
      (visitExprs_notes names xs).compute fun _ => touches_pure _
  | names, .typeAssert x type => by
    rw [visitExpr, Expr.marks, Expr.reads]
    exact (visitExpr_notes names x).compute fun _ => touches_pure _
  | names, .paren x => by
    rw [visitExpr, Expr.marks, Expr.reads]
    exact visitExpr_notes names x
  | names, .lit _ | names, .type _ => by
    rw [visitExpr, Expr.marks, Expr.reads]
    exact .of_touches (touches_pure _)

theorem visitExprs_notes : ∀ (names : List String) (xs : List Expr),
    Notes env (exprsMarks xs) (exprsReads names xs) names [] (visitExprs env xs)
  | names, [] => by
    rw [visitExprs, exprsMarks, exprsReads]
    exact .of_touches (touches_pure _)
  | names, x :: xs => by
    rw [visitExprs, exprsMarks, exprsReads]
    exact (visitExpr_notes names x).andThen fun _ =>
      (visitExprs_notes names xs).compute fun _ => touches_pure _

theorem visitExpr?_notes : ∀ (names : List String) (x : Option Expr),
    Notes env (expr?Marks x) (expr?Reads names x) names [] (visitExpr? env x)
  | names, none => by
    rw [visitExpr?, expr?Marks, expr?Reads]
    exact .of_touches (touches_pure _)
  | names, some x => by
    rw [visitExpr?, expr?Marks, expr?Reads]
    exact visitExpr_notes names x

theorem visitTargets_notes : ∀ (names : List String) (xs : List Expr) (types : List (Option Ty)),
    Notes env (exprsMarks xs) (targetsReads names xs) names
      (declaredNames (xs.filterMap Expr.ident?)) (visitTargets env xs types)
  | names, [], types => by
    rw [visitTargets, exprsMarks, targetsReads]
    exact .of_touches (touches_pure _)
  | names, x :: xs, types => by
    have hrest := visitTargets_notes (names ++ declaredNames x.ident?.toList) xs types.tail
    rw [visitTargets, exprsMarks, targetsReads]
    cases hx : x.ident? with
    | none =>
      rw [List.filterMap_cons_none hx, Option.isNone_none, if_pos rfl]
      refine (visitExpr_notes names x).andThen fun _ => ?_
      simpa [hx, declaredNames] using hrest
    | some i =>
      obtain rfl := Expr.ident?_eq_some.mp hx
      have hvisit : Touches (Expr.ident i).marks (declaredNames [i]) (visitExpr env (.ident i)) :=
        (touches_expr env _).weaken (List.Subset.refl _) (List.nil_subset _)
      have hdeclare : Touches (Expr.ident i).marks (declaredNames [i])
          (Visit.declare env i.name types.head?.join) :=
        (declare_visits (keeps_true env) i fun _ _ => trivial).weaken (List.nil_subset _)
          (List.Subset.refl _)
      have hhere : Notes env [] [] names [] (Visit.declaredHere i.name) :=
        .of_touches (declaredHere_visits i.name)
      rw [List.filterMap_cons_some hx, declaredNames_cons]
      refine hhere.andThen fun here => ?_
      split_ifs
      · exact (Notes.of_touches hvisit).bind fun _ => hrest
      · exact (Notes.of_touches hdeclare).bind fun _ => hrest

/-- **Visiting a statement** records what it reads. -/
theorem visitStmt_notes : ∀ (names : List String) (s : Stmt),
    Notes env s.marks (s.reads names) names s.declares (visitStmt env s)
  | names, .expr x | names, .go x | names, .defer x | names, .incDec x => by
    rw [visitStmt, Stmt.marks, Stmt.reads]
    exact (visitExpr_notes names x).compute fun _ => touches_pure _
  | names, .assign lhs rhs true => by
    rw [visitStmt, Stmt.marks, Stmt.reads]
    exact (visitExprs_notes names rhs).andThen fun types => visitTargets_notes names lhs _
  | names, .assign lhs rhs false => by
    rw [visitStmt, Stmt.marks, Stmt.reads]
    exact (visitExprs_notes names rhs).andThen fun types =>
      (visitExprs_notes names lhs).compute fun _ => touches_pure _
  | names, .declare specs => by
    rw [visitStmt, Stmt.marks, Stmt.reads]
    exact visitSpecs_notes names specs
  | names, .ret xs | names, .other xs => by
    rw [visitStmt, Stmt.marks, Stmt.reads]
    exact (visitExprs_notes names xs).compute fun _ => touches_pure _
  | names, .block body => by
    rw [visitStmt, Stmt.marks, Stmt.reads]
    exact (visitStmts_notes names body).inScope
  | names, .ifThen init cond body orElse => by
    rw [visitStmt]
    have hparts := (visitStmt?_notes names init).bind fun _ => (visitExpr_notes _ cond).andThen
      fun _ => (visitStmts_notes _ body).inScope.andThen fun _ => visitStmt?_notes _ orElse
    exact hparts.inScope.congr (by simp [Stmt.marks]) (by simp [Stmt.reads]) rfl
  | names, .loop init cond post body => by
    rw [visitStmt]
    have hparts := (visitStmt?_notes names init).bind fun _ => (visitExpr?_notes _ cond).andThen
      fun _ => (visitStmt?_notes _ post).bind fun _ => (visitStmts_notes _ body).inScope
    exact hparts.inScope.congr (by simp [Stmt.marks]) (by simp [Stmt.reads]) rfl
  | names, .range key value true x body => by
    rw [visitStmt]
    have hparts (t u : Option Ty) : Notes env _ _ names _ (do
        Visit.declareAll env t (key.bind Expr.ident?).toList
        Visit.declareAll env u (value.bind Expr.ident?).toList
        Visit.inScope (visitStmts env body)) :=
      (Notes.of_touches (touches_declareAll env t _)).bind fun _ =>
        (Notes.of_touches (touches_declareAll env u _)).bind fun _ =>
          (visitStmts_notes _ body).inScope
    exact ((visitExpr_notes names x).andThen fun _ => (hparts _ _).inScope).congr
      (by simp [Stmt.marks]) (by simp [Stmt.reads, rangeNames, declaredNames_append]) rfl
  | names, .range key value false x body => by
    rw [visitStmt]
    have hparts := (visitExpr?_notes names key).andThen fun _ => (visitExpr?_notes _ value).andThen
      fun _ => (visitStmts_notes _ body).inScope
    exact ((visitExpr_notes names x).andThen fun _ => hparts.inScope).congr (by simp [Stmt.marks])
      (by simp [Stmt.reads, rangeNames]) rfl
  | names, .switch init tag clauses => by
    rw [visitStmt]
    have hparts := (visitStmt?_notes names init).bind fun _ => (visitExpr?_notes _ tag).andThen
      fun _ => visitClauses_notes _ clauses
    exact hparts.inScope.congr (by simp [Stmt.marks]) (by simp [Stmt.reads]) rfl
  | names, .typeSwitch init binding subject clauses => by
    rw [visitStmt]
    have hparts := (visitStmt?_notes names init).bind fun _ => (visitExpr_notes _ subject).andThen
      fun t => visitTypeClauses_notes _ binding t clauses
    exact hparts.inScope.congr (by simp [Stmt.marks]) (by simp [Stmt.reads]) rfl
  | names, .select clauses => by
    rw [visitStmt, Stmt.marks, Stmt.reads]
    exact visitCommClauses_notes names clauses
  | names, .send chan value => by
    rw [visitStmt, Stmt.marks, Stmt.reads]
    exact (visitExpr_notes names chan).andThen fun _ =>
      (visitExpr_notes names value).compute fun _ => touches_pure _
  | names, .labeled body => by
    rw [visitStmt, Stmt.marks, Stmt.reads, Stmt.declares]
    exact visitStmt_notes names body

theorem visitStmts_notes : ∀ (names : List String) (ss : List Stmt),
    Notes env (stmtsMarks ss) (stmtsReads names ss) names (ss.flatMap Stmt.declares)
      (visitStmts env ss)
  | names, [] => by
    rw [visitStmts, stmtsMarks, stmtsReads]
    exact .of_touches (touches_pure _)
  | names, s :: ss => by
    rw [visitStmts, stmtsMarks, stmtsReads, List.flatMap_cons]
    exact (visitStmt_notes names s).bind fun _ => visitStmts_notes _ ss

theorem visitStmt?_notes : ∀ (names : List String) (s : Option Stmt),
    Notes env (stmt?Marks s) (stmt?Reads names s) names (s.toList.flatMap Stmt.declares)
      (visitStmt? env s)
  | names, none => by
    rw [visitStmt?, stmt?Marks, stmt?Reads]
    exact .of_touches (touches_pure _)
  | names, some s => by
    rw [visitStmt?, stmt?Marks, stmt?Reads]
    exact (visitStmt_notes names s).congr (.refl _) rfl (by simp)

theorem visitSpecs_notes : ∀ (names : List String) (specs : List ValueSpec),
    Notes env (specsMarks specs) (specsReads names specs) names
      (specs.flatMap ValueSpec.declares) (visitSpecs env specs)
  | names, [] => by
    rw [visitSpecs, specsMarks, specsReads]
    exact .of_touches (touches_pure _)
  | names, .mk is type values :: specs => by
    rw [visitSpecs]
    have hdeclare (types : List (Option Ty)) : Touches [] (declaredNames is)
        (Visit.declareValues env (type.bind env.resolve) is types) :=
      declareValues_visits (keeps_true env) (fun _ _ => trivial) is fun _ _ _ _ => trivial
    exact ((visitExprs_notes names values).andThen fun _ =>
      (Notes.of_touches (hdeclare _)).bind fun _ => visitSpecs_notes _ specs).congr
      (by simp [specsMarks]) (by simp [specsReads]) (by simp [ValueSpec.declares])

theorem visitClauses_notes : ∀ (names : List String) (clauses : List Clause),
    Notes env (clausesMarks clauses) (clausesReads names clauses) names [] (visitClauses env clauses)
  | names, [] => by
    rw [visitClauses, clausesMarks, clausesReads]
    exact .of_touches (touches_pure _)
  | names, .mk exprs body :: clauses => by
    rw [visitClauses]
    exact ((visitExprs_notes names exprs).andThen fun _ =>
      (visitStmts_notes names body).inScope.andThen fun _ => visitClauses_notes names clauses).congr
      (by simp [clausesMarks]) (by simp [clausesReads]) rfl

theorem visitTypeClauses_notes : ∀ (names : List String) (binding : Option Ident)
    (subject : Option Ty) (clauses : List TypeClause),
    Notes env (typeClausesMarks clauses)
      (typeClausesReads (names ++ declaredNames binding.toList) clauses) names []
      (visitTypeClauses env binding subject clauses)
  | names, binding, subject, [] => by
    rw [visitTypeClauses, typeClausesMarks, typeClausesReads]
    exact .of_touches (touches_pure _)
  | names, binding, subject, .mk types body :: clauses => by
    unfold visitTypeClauses
    rw [typeClausesMarks, typeClausesReads]
    exact ((Notes.of_touches (touches_declareAll env _ binding.toList)).bind fun _ =>
      visitStmts_notes _ body).inScope.andThen fun _ =>
        visitTypeClauses_notes names binding subject clauses

theorem visitCommClauses_notes : ∀ (names : List String) (clauses : List CommClause),
    Notes env (commClausesMarks clauses) (commClausesReads names clauses) names []
      (visitCommClauses env clauses)
  | names, [] => by
    rw [visitCommClauses, commClausesMarks, commClausesReads]
    exact .of_touches (touches_pure _)
  | names, .mk comm body :: clauses => by
    rw [visitCommClauses, commClausesMarks, commClausesReads]
    exact ((visitStmt?_notes names comm).bind fun _ => visitStmts_notes _ body).inScope.andThen
      fun _ => visitCommClauses_notes names clauses

end

end Visiting

end GoCalls
