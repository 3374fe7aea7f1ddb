import GoCalls.Proofs.FreeNames

/-!
# Two visits side by side

A visit reads the open scopes and what is known in the file, and writes to the tables without
reading them. So two visits of one piece of syntax, from the same scopes and in files where the names
that it reads past them stand for the same, end with the same result and the same scopes, and make
the same new entries, whatever the tables hold before.

* `SameNews`: between two runs, each entry is kept in both, or is the same after both.
* `Alike`: two computations that run side by side, in scopes that declare certain names.
* `FileEnv.Alike`, `SameGlobals`: files in which types mean the same, and names stand for the same.
* **`visitExpr_alike`**, **`visitStmt_alike`**: two visits of one piece of syntax.
-/

namespace GoCalls

/-! ## New entries -/

/-- From two maps to two later ones, an entry was kept in both, or is the same in both. -/
def SameNews {κ β : Type} [Ord κ] (old new old' new' : Std.TreeMap κ β) : Prop :=
  ∀ k : κ, new[k]? = old[k]? ∧ new'[k]? = old'[k]? ∨ new'[k]? = new[k]?

namespace SameNews

variable {κ β : Type} [Ord κ] {old mid new old' mid' new' : Std.TreeMap κ β}

theorem refl (old old' : Std.TreeMap κ β) : SameNews old old old' old' := fun _ => .inl ⟨rfl, rfl⟩

theorem trans (h : SameNews old mid old' mid') (h' : SameNews mid new mid' new') :
    SameNews old new old' new' := by
  intro k
  rcases h' k with ⟨hkept, hkept'⟩ | hsame
  · rw [hkept, hkept']
    exact h k
  · exact .inr hsame

/-- What was the same before is the same after. -/
theorem eq (h : SameNews old new old' new') {k : κ} (hk : old'[k]? = old[k]?) :
    new'[k]? = new[k]? := by
  rcases h k with ⟨hkept, hkept'⟩ | hsame
  · rw [hkept, hkept', hk]
  · exact hsame

theorem insert [Std.TransOrd κ] (m m' : Std.TreeMap κ β) (k : κ) (value : β) :
    SameNews m (m.insert k value) m' (m'.insert k value) := by
  intro j
  simp only [Std.TreeMap.getElem?_insert]
  split_ifs
  · exact .inr rfl
  · exact .inl ⟨rfl, rfl⟩

end SameNews

/-- From two tables to two later ones, the same entries are new. -/
structure Tables.SameNews (old new old' new' : Tables) : Prop where
  uses : GoCalls.SameNews old.uses new.uses old'.uses new'.uses
  selections : GoCalls.SameNews old.selections new.selections old'.selections new'.selections

namespace Tables.SameNews

theorem refl (old old' : Tables) : SameNews old old old' old' := ⟨.refl _ _, .refl _ _⟩

theorem trans {old mid new old' mid' new' : Tables} (h : SameNews old mid old' mid')
    (h' : SameNews mid new mid' new') : SameNews old new old' new' :=
  ⟨h.uses.trans h'.uses, h.selections.trans h'.selections⟩

end Tables.SameNews

/-! ## Names in scopes -/

/-- The scopes declare all given names. -/
def Declared (names : List String) (scopes : List Scope) : Prop :=
  ∀ name ∈ names, (lookupScopes scopes name).isSome

namespace Declared

variable {names more : List String} {scopes : List Scope}

theorem push (h : Declared names scopes) : Declared names ([] :: scopes) := fun name hn => h name hn

theorem grow (h : Declared names scopes) (entries : Scope) :
    Declared names (growScopes entries scopes) := by
  intro name hn
  have hfound := h name hn
  cases scopes with
  | nil => exact hfound
  | cons scope outer =>
    unfold growScopes lookupScopes at *
    rw [List.findSome?_cons] at *
    rw [List.lookup_append]
    cases hlookup : scope.lookup name with
    | none =>
      rw [hlookup] at hfound
      cases entries.lookup name with
      | none => exact hfound
      | some symbol => rfl
    | some symbol => cases entries.lookup name <;> rfl

theorem append (h : Declared names scopes) (h' : Declared more scopes) :
    Declared (names ++ more) scopes := List.forall_mem_append.mpr ⟨h, h'⟩

/-- The innermost scope declares a name. -/
theorem here {scope : Scope} {name : String} (h : (scope.lookup name).isSome) :
    Declared [name] (scope :: scopes) := by
  refine List.forall_mem_singleton.mpr ?_
  rwa [lookupScopes, List.findSome?_cons_of_isSome h]

end Declared

/-! ## Computations side by side -/

/-- Two runs end alike, with certain names declared. -/
structure EndAlike (new : List String) {α : Type} (v v' : Visit) (r r' : α × Visit) : Prop where
  result : r'.1 = r.1
  scopes : r'.2.scopes = r.2.scopes
  news : Tables.SameNews v.tables r.2.tables v'.tables r'.2.tables
  grows : ∃ entries, r.2.scopes = growScopes entries v.scopes
  declared : Declared new r.2.scopes

/-- From the same scopes, which declare some names, two computations do the same and declare new
ones. -/
def Alike (names new : List String) {α : Type} (m m' : StateM Visit α) : Prop :=
  ∀ v v' : Visit, v'.scopes = v.scopes → Declared names v.scopes → (v.scopes = [] → new = []) →
    EndAlike new v v' (m.run v) (m'.run v')

namespace Alike

variable {names more new wider : List String} {α β : Type} {m m' : StateM Visit α}
  {f f' : α → StateM Visit β}

theorem of_tables {r r' : α × Visit} {v v' : Visit} (hs : v'.scopes = v.scopes)
    (hresult : r'.1 = r.1) (hr : r.2.scopes = v.scopes) (hr' : r'.2.scopes = v'.scopes)
    (hnews : Tables.SameNews v.tables r.2.tables v'.tables r'.2.tables) : EndAlike [] v v' r r' :=
  ⟨hresult, by rw [hr, hr', hs], hnews, ⟨[], by rw [hr, growScopes_nil]⟩, List.forall_mem_nil _⟩

theorem pure (a : α) : Alike names [] (Pure.pure a) (Pure.pure a) :=
  fun _ _ hs _ _ => of_tables hs rfl rfl rfl (.refl _ _)

theorem use (id : Nat) (symbol : Symbol) :
    Alike names [] (Visit.use id symbol) (Visit.use id symbol) :=
  fun _ _ hs _ _ => of_tables hs rfl rfl rfl ⟨.insert _ _ id symbol, .refl _ _⟩

theorem select (id : Nat) (selection : Selection) :
    Alike names [] (Visit.select id selection) (Visit.select id selection) :=
  fun _ _ hs _ _ => of_tables hs rfl rfl rfl ⟨.refl _ _, .insert _ _ id selection⟩

theorem mono (h : Alike names new m m') (hsub : names ⊆ more) : Alike more new m m' :=
  fun v v' hs hd => h v v' hs fun name hn => hd name (hsub hn)

/-- Names that are declared before are declared after. -/
theorem keep (h : Alike names new m m') (hsub : more ⊆ names) :
    Alike names (more ++ new) m m' := by
  intro v v' hs hd hnew
  have hend := h v v' hs hd fun hnil => (List.append_eq_nil_iff.mp (hnew hnil)).2
  obtain ⟨entries, hgrows⟩ := hend.grows
  have hkept : Declared more (m.run v).2.scopes := by
    rw [hgrows]
    exact Declared.grow (fun name hn => hd name (hsub hn)) entries
  exact { hend with declared := hkept.append hend.declared }

theorem bind (h : Alike names new m m') (hf : ∀ a, Alike (names ++ new) wider (f a) (f' a)) :
    Alike names (new ++ wider) (m >>= f) (m' >>= f') := by
  intro v v' hs hd hnew
  have hend := h v v' hs hd fun hnil => (List.append_eq_nil_iff.mp (hnew hnil)).1
  obtain ⟨entries, hgrows⟩ := hend.grows
  have hdeclared : Declared (names ++ new) (m.run v).2.scopes := by
    refine Declared.append ?_ hend.declared
    rw [hgrows]
    exact hd.grow entries
  have hwider : (m.run v).2.scopes = [] → wider = [] := by
    intro hnil
    refine (List.append_eq_nil_iff.mp (hnew ?_)).2
    rw [hgrows] at hnil
    cases hv : v.scopes with
    | nil => rfl
    | cons scope outer => simp [hv, growScopes] at hnil
  have hend' := hf (m.run v).1 (m.run v).2 (m'.run v').2 hend.scopes hdeclared hwider
  obtain ⟨later, hlater⟩ := hend'.grows
  have hrun : (m >>= f).run v = (f (m.run v).1).run (m.run v).2 := rfl
  have hrun' : (m' >>= f').run v' = (f' (m.run v).1).run (m'.run v').2 := by
    rw [← hend.result]
    rfl
  rw [hrun, hrun']
  refine ⟨hend'.result, hend'.scopes, hend.news.trans hend'.news, ⟨later ++ entries, ?_⟩, ?_⟩
  · rw [hlater, hgrows, growScopes_growScopes]
  · refine Declared.append ?_ hend'.declared
    rw [hlater]
    exact hend.declared.grow later

theorem andThen (h : Alike names [] m m') (hf : ∀ a, Alike names new (f a) (f' a)) :
    Alike names new (m >>= f) (m' >>= f') := h.bind (by simpa using hf)

theorem map (h : Alike names new m m') (g : α → β) :
    Alike names new (m >>= fun a => Pure.pure (g a)) (m' >>= fun a => Pure.pure (g a)) := by
  simpa using h.bind fun a => pure (g a)

theorem get {f f' : Visit → StateM Visit α}
    (h : ∀ u u' : Visit, u'.scopes = u.scopes → Declared names u.scopes →
      Alike names new (f u) (f' u')) :
    Alike names new (MonadState.get >>= f) (MonadState.get >>= f') :=
  fun v v' hs hd => h v v' hs hd v v' hs hd

theorem inScope (h : Alike names new m m') :
    Alike names [] (Visit.inScope m) (Visit.inScope m') := by
  intro v v' hs hd _
  have hend := h { v with scopes := [] :: v.scopes } { v' with scopes := [] :: v'.scopes }
    (by rw [hs]) hd.push fun hnil => absurd hnil (List.cons_ne_nil _ _)
  obtain ⟨entries, hgrows⟩ := hend.grows
  have htail : (m.run { v with scopes := [] :: v.scopes }).2.scopes.tail = v.scopes := by
    rw [hgrows]
    rfl
  have htail' : (m'.run { v' with scopes := [] :: v'.scopes }).2.scopes.tail = v'.scopes := by
    rw [hend.scopes, htail, hs]
  exact of_tables hs hend.result htail htail' hend.news

/-- Only the one computation runs where the innermost scope declares a name. -/
theorem ifDeclaredHere {name : String} {n n' : StateM Visit α}
    (hm : Alike (names ++ [name]) new m m') (hn : Alike names new n n') :
    Alike names new (do if ← Visit.declaredHere name then m else n)
      (do if ← Visit.declaredHere name then m' else n') := by
  intro v v' hs hd hnew
  have hrun (x y : StateM Visit α) (u : Visit) :
      (do if ← Visit.declaredHere name then x else y).run u =
        (if (u.scopes.head?.bind (·.lookup name)).isSome then x else y).run u := rfl
  rw [hrun, hrun, hs]
  split_ifs with hhere
  · have hname : Declared [name] v.scopes := by
      cases hv : v.scopes with
      | nil => simp [hv] at hhere
      | cons scope outer => exact .here (by simpa [hv] using hhere)
    exact hm v v' hs (hd.append hname) hnew
  · exact hn v v' hs hd hnew

end Alike

/-! ## Files -/

/-- Types and members are the same in two files of packages with one name. -/
structure FileEnv.Alike (env env' : FileEnv) : Prop where
  name : env'.decls.name = env.decls.name
  resolve : env'.resolve = env.resolve
  member : env'.index.member? = env.index.member?
  memberType : env'.index.memberType = env.index.memberType
  underlying : env'.index.underlying = env.index.underlying

/-- The names of some marks stand for the same in two files, past all scopes. -/
def SameGlobals (env env' : FileEnv) (marks : List Mark) : Prop :=
  ∀ mark ∈ marks, env'.global? mark.name = env.global? mark.name

section Files

variable {env env' : FileEnv} {names : List String} {scopes : List Scope}

theorem sameGlobals_append {marks more : List Mark} : SameGlobals env env' (marks ++ more) ↔
    SameGlobals env env' marks ∧ SameGlobals env env' more := List.forall_mem_append

section Lookup

variable {x : Expr} {i : Ident} (hx : x.ident? = some i) (h : SameGlobals env env' (x.reads names))
  (hd : Declared names scopes)

include hx h hd

theorem SameGlobals.lookup : env'.lookup scopes i.name = env.lookup scopes i.name := by
  obtain rfl := Expr.ident?_eq_some.mp hx
  unfold FileEnv.lookup
  by_cases hname : i.name ∈ names
  · obtain ⟨symbol, hfound⟩ := Option.isSome_iff_exists.mp (hd i.name hname)
    rw [hfound]
    rfl
  · have hglobal : env'.global? i.name = env.global? i.name := by
      rw [Expr.reads, if_neg hname] at h
      exact h i.mark (List.mem_singleton_self _)
    rw [hglobal]

theorem SameGlobals.packagePath? :
    env'.packagePath? scopes i.name = env.packagePath? scopes i.name := by
  unfold FileEnv.packagePath?
  rw [SameGlobals.lookup hx h hd]

end Lookup

namespace FileEnv.Alike

variable (h : env.Alike env')

include h

theorem signature (results : List Field) :
    env'.typeEnv.signature results = env.typeEnv.signature results :=
  TypeEnv.signature_congr (fun t => congrFun h.resolve t) results

theorem rangeTypes (t : Option Ty) : env'.rangeTypes t = env.rangeTypes t := by
  unfold FileEnv.rangeTypes
  rw [h.underlying]

theorem elementType : env'.elementType = env.elementType := by
  funext t
  unfold FileEnv.elementType
  rw [h.underlying]

theorem callResult (t : Option Ty) : env'.callResult t = env.callResult t := by
  unfold FileEnv.callResult
  rw [h.underlying]

theorem denotedType {x : Expr} (hg : SameGlobals env env' (x.reads names))
    (hd : Declared names scopes) : env'.denotedType scopes x = env.denotedType scopes x := by
  fun_induction FileEnv.denotedType env scopes x with
  | case1 t => rw [FileEnv.denotedType, h.resolve]
  | case2 i => rw [FileEnv.denotedType, hg.lookup rfl hd]
  | case3 id x sel =>
    rw [Expr.reads] at hg
    rw [FileEnv.denotedType]
    cases hx : x.ident? with
    | none => rfl
    | some i => simp only [Option.bind_eq_bind, Option.bind_some, hg.packagePath? hx hd, h.member]
  | case4 x ih =>
    rw [Expr.reads] at hg
    rw [FileEnv.denotedType, ih hg]
  | case5 x indices ih =>
    rw [Expr.reads, sameGlobals_append] at hg
    rw [FileEnv.denotedType, ih hg.1]
  | case6 x ih =>
    rw [Expr.reads] at hg
    rw [FileEnv.denotedType, ih hg]
  | case7 => simp_all [FileEnv.denotedType]

/-! ## Declaring -/

theorem declare (i : Ident) (t : Option Ty) : GoCalls.Alike names (declaredNames [i])
    (Visit.declare env i.name t) (Visit.declare env' i.name t) := by
  unfold Visit.declare
  rw [h.name]
  split_ifs with hblank
  · have hnone : declaredNames [i] = [] := by simp [declaredNames, hblank]
    rw [hnone]
    exact .pure ()
  · have hone : declaredNames [i] = [i.name] := by simp [declaredNames, hblank]
    rw [hone]
    rintro ⟨scopes, tables⟩ ⟨scopes', tables'⟩ hs - hnew
    obtain rfl : scopes' = scopes := hs
    cases scopes' with
    | nil => exact absurd (hnew rfl) (List.cons_ne_nil _ _)
    | cons scope outer =>
      exact ⟨rfl, rfl, .refl _ _, ⟨[_], rfl⟩, .here (by simp [List.lookup_cons_self])⟩

theorem declareAll (t : Option Ty) (is : List Ident) : GoCalls.Alike names (declaredNames is)
    (Visit.declareAll env t is) (Visit.declareAll env' t is) := by
  induction is generalizing names with
  | nil => exact .pure ()
  | cons i is ih =>
    rw [declaredNames_cons]
    exact (h.declare i t).bind fun _ => ih

theorem declareFields (fields : List Field) : GoCalls.Alike names (fieldNames fields)
    (Visit.declareFields env fields) (Visit.declareFields env' fields) := by
  induction fields generalizing names with
  | nil => exact .pure ()
  | cons f fields ih =>
    rw [Visit.declareFields, Visit.declareFields, h.resolve]
    exact (h.declareAll _ f.names).bind fun _ => ih

theorem declareValues (t : Option Ty) (is : List Ident) (types : List (Option Ty)) :
    GoCalls.Alike names (declaredNames is) (Visit.declareValues env t is types)
      (Visit.declareValues env' t is types) := by
  induction is generalizing names types with
  | nil => exact .pure ()
  | cons i is ih =>
    rw [declaredNames_cons]
    exact (h.declare i _).bind fun _ => ih types.tail

end FileEnv.Alike

end Files

/-! ## Visiting -/

section Visiting

variable {env env' : FileEnv}

theorem visitIdent_alike {names : List String} {i : Ident}
    (hg : SameGlobals env env' ((Expr.ident i).reads names)) :
    Alike names [] (visitExpr env (.ident i)) (visitExpr env' (.ident i)) := by
  rw [visitExpr, visitExpr]
  refine Alike.get fun u u' hu hd => ?_
  rw [hu, hg.lookup rfl hd]
  cases env.lookup u.scopes i.name with
  | none => exact .pure none
  | some symbol => exact (Alike.use i.id symbol).andThen fun _ => .pure _

mutual

/-- **Two visits of an expression** run side by side. -/
theorem visitExpr_alike (h : env.Alike env') : ∀ (names : List String) (x : Expr),
    SameGlobals env env' (x.reads names) → Alike names [] (visitExpr env x) (visitExpr env' x)
  | _, .ident _, hg => visitIdent_alike hg
  | names, .selector id x sel, hg => by
    rw [Expr.reads] at hg
    rw [visitExpr, visitExpr]
    refine Alike.get fun u u' hu hd => ?_
    have hpath : (x.ident?.bind fun i => (env'.packagePath? u.scopes i.name).map (i, ·)) =
        x.ident?.bind fun i => (env.packagePath? u.scopes i.name).map (i, ·) := by
      cases hx : x.ident? with
      | none => rfl
      | some i => rw [Option.bind_some, Option.bind_some, hg.packagePath? hx hd]
    simp only [hu, hpath, h.denotedType hg hd, h.member, h.memberType]
    cases hpkg : x.ident?.bind fun i => (env.packagePath? u.scopes i.name).map (i, ·) with
    | some found =>
      obtain ⟨i, hx, hfound⟩ := Option.bind_eq_some_iff.mp hpkg
      obtain ⟨path, hpath, rfl⟩ := Option.map_eq_some_iff.mp hfound
      have hmember : Alike names [] (match env.index.member? path sel.name with
          | some member => do
            Visit.use sel.id member
            return member.type
          | none => return none)
          (match env.index.member? path sel.name with
          | some member => do
            Visit.use sel.id member
            return member.type
          | none => return none) := by
        cases env.index.member? path sel.name with
        | none => exact .pure none
        | some member => exact (Alike.use sel.id member).andThen fun _ => .pure _
      simp only [hg.lookup hx hd]
      cases env.lookup u.scopes i.name with
      | none => exact (Alike.pure ()).andThen fun _ => hmember
      | some symbol => exact (Alike.use i.id symbol).andThen fun _ => hmember
    | none =>
      refine (visitExpr_alike h names x hg).andThen fun operand => ?_
      cases env.denotedType u.scopes x <|> operand with
      | none => exact .pure none
      | some recv => exact (Alike.select id _).andThen fun _ => .pure _
  | names, .call fn args, hg => by
    rw [Expr.reads, sameGlobals_append] at hg
    rw [visitExpr, visitExpr]
    refine Alike.get fun u u' hu hd => ?_
    have hlookup (f : Symbol → Option String) :
        (fn.ident?.bind fun i => (env'.lookup u.scopes i.name).bind f) =
          fn.ident?.bind fun i => (env.lookup u.scopes i.name).bind f := by
      cases hfn : fn.ident? with
      | none => rfl
      | some i => rw [Option.bind_some, Option.bind_some, hg.1.lookup hfn hd]
    simp only [hu, hlookup, h.denotedType hg.1 hd, h.callResult, Option.bind_eq_bind]
    refine (visitExpr_alike h names fn hg.1).andThen fun fnType => ?_
    refine (visitExprs_alike h names args hg.2).andThen fun argTypes => ?_
    split <;> exact .pure _
  | names, .func params results body, hg => by
    rw [Expr.reads] at hg
    rw [visitExpr, visitExpr, h.signature]
    have hbody := (h.declareFields params).bind fun _ => (h.declareFields results).bind fun _ =>
      visitStmts_alike h _ body hg
    exact hbody.inScope.map _
  | names, .composite type elements, hg => by
    rw [Expr.reads] at hg
    rw [visitExpr, visitExpr, h.resolve]
    exact (visitExprs_alike h names elements hg).map _
  | names, .keyValue key value, hg => by
    rw [Expr.reads, sameGlobals_append] at hg
    rw [visitExpr, visitExpr]
    have hvalue := (visitExpr_alike h names value hg.2).map fun _ => (none : Option Ty)
    split_ifs at hg ⊢
    · exact (visitExpr_alike h names key hg.1).andThen fun _ => hvalue
    · exact hvalue
  | names, .unary op x, hg => by
    rw [Expr.reads] at hg
    rw [visitExpr, visitExpr, h.underlying]
    refine (visitExpr_alike h names x hg).andThen fun t => ?_
    split <;> exact .pure _
  | names, .binary xs, hg | names, .other xs, hg => by
    rw [Expr.reads] at hg
    rw [visitExpr, visitExpr]
    exact (visitExprs_alike h names xs hg).map _
  | names, .index x xs, hg | names, .slice x xs, hg => by
    rw [Expr.reads, sameGlobals_append] at hg
    rw [visitExpr, visitExpr]
    try rw [h.elementType]
    exact (visitExpr_alike h names x hg.1).andThen fun _ => (visitExprs_alike h names xs hg.2).map _
  | names, .typeAssert x type, hg => by
    rw [Expr.reads] at hg
    rw [visitExpr, visitExpr, h.resolve]
    exact (visitExpr_alike h names x hg).map _
  | names, .paren x, hg => by
    rw [Expr.reads] at hg
    rw [visitExpr, visitExpr]
    exact visitExpr_alike h names x hg
  | names, .lit kind, _ => by
    rw [visitExpr, visitExpr]
    exact .pure _
  | names, .type t, _ => by
    rw [visitExpr, visitExpr, h.resolve]
    exact .pure _

theorem visitExprs_alike (h : env.Alike env') : ∀ (names : List String) (xs : List Expr),
    SameGlobals env env' (exprsReads names xs) →
      Alike names [] (visitExprs env xs) (visitExprs env' xs)
  | names, [], _ => by
    rw [visitExprs, visitExprs]
    exact .pure []
  | names, x :: xs, hg => by
    rw [exprsReads, sameGlobals_append] at hg
    rw [visitExprs, visitExprs]
    exact (visitExpr_alike h names x hg.1).andThen fun _ => (visitExprs_alike h names xs hg.2).map _

theorem visitExpr?_alike (h : env.Alike env') : ∀ (names : List String) (x : Option Expr),
    SameGlobals env env' (expr?Reads names x) →
      Alike names [] (visitExpr? env x) (visitExpr? env' x)
  | names, none, _ => by
    rw [visitExpr?, visitExpr?]
    exact .pure none
  | names, some x, hg => by
    rw [expr?Reads] at hg
    rw [visitExpr?, visitExpr?]
    exact visitExpr_alike h names x hg

theorem visitTargets_alike (h : env.Alike env') : ∀ (names : List String) (xs : List Expr)
    (types : List (Option Ty)), SameGlobals env env' (targetsReads names xs) →
      Alike names (declaredNames (xs.filterMap Expr.ident?)) (visitTargets env xs types)
        (visitTargets env' xs types)
  | names, [], types, _ => by
    rw [visitTargets, visitTargets]
    exact .pure ()
  | names, x :: xs, types, hg => by
    rw [targetsReads, sameGlobals_append] at hg
    have hrest := visitTargets_alike h _ xs types.tail hg.2
    rw [visitTargets, visitTargets]
    cases hx : x.ident? with
    | none =>
      rw [hx, Option.isNone_none, if_pos rfl] at hg
      rw [List.filterMap_cons_none hx]
      refine (visitExpr_alike h names x hg.1).andThen fun _ => ?_
      simpa [hx, declaredNames] using hrest
    | some i =>
      obtain rfl := Expr.ident?_eq_some.mp hx
      rw [List.filterMap_cons_some hx, declaredNames_cons]
      have hsub : declaredNames [i] ⊆ [i.name] := List.filter_subset_self _
      refine Alike.ifDeclaredHere ?_ ((h.declare i _).bind fun _ => hrest)
      have hvisit : Alike (names ++ [i.name]) [] (visitExpr env (.ident i))
          (visitExpr env' (.ident i)) := by
        refine visitIdent_alike ?_
        rw [Expr.reads, if_pos (by simp)]
        exact List.forall_mem_nil _
      refine hvisit.andThen fun _ => ?_
      have hmore : names ++ declaredNames [i] ⊆ names ++ [i.name] :=
        List.append_subset.mpr ⟨List.subset_append_left _ _,
          List.subset_append_of_subset_right _ hsub⟩
      exact (hrest.mono hmore).keep (List.subset_append_of_subset_right _ hsub)

/-- **Two visits of a statement** run side by side. -/
theorem visitStmt_alike (h : env.Alike env') : ∀ (names : List String) (s : Stmt),
    SameGlobals env env' (s.reads names) →
      Alike names s.declares (visitStmt env s) (visitStmt env' s)
  | names, .expr x, hg | names, .go x, hg | names, .defer x, hg | names, .incDec x, hg => by
    rw [Stmt.reads] at hg
    rw [visitStmt, visitStmt]
    exact (visitExpr_alike h names x hg).map _
  | names, .assign lhs rhs true, hg => by
    rw [Stmt.reads, sameGlobals_append] at hg
    rw [visitStmt, visitStmt]
    exact (visitExprs_alike h names rhs hg.1).andThen fun types =>
      visitTargets_alike h names lhs _ hg.2
  | names, .assign lhs rhs false, hg => by
    rw [Stmt.reads, sameGlobals_append] at hg
    rw [visitStmt, visitStmt]
    exact (visitExprs_alike h names rhs hg.1).andThen fun types =>
      (visitExprs_alike h names lhs hg.2).map _
  | names, .declare specs, hg => by
    rw [Stmt.reads] at hg
    rw [visitStmt, visitStmt]
    exact visitSpecs_alike h names specs hg
  | names, .ret xs, hg | names, .other xs, hg => by
    rw [Stmt.reads] at hg
    rw [visitStmt, visitStmt]
    exact (visitExprs_alike h names xs hg).map _
  | names, .block body, hg => by
    rw [Stmt.reads] at hg
    rw [visitStmt, visitStmt]
    exact (visitStmts_alike h names body hg).inScope
  | names, .ifThen init cond body orElse, hg => by
    simp only [Stmt.reads, sameGlobals_append] at hg
    obtain ⟨⟨⟨hinit, hcond⟩, hbody⟩, helse⟩ := hg
    rw [visitStmt, visitStmt]
    have hparts := (visitStmt?_alike h names init hinit).bind fun _ =>
      (visitExpr_alike h _ cond hcond).andThen fun _ =>
        (visitStmts_alike h _ body hbody).inScope.andThen fun _ =>
          visitStmt?_alike h _ orElse helse
    exact hparts.inScope
  | names, .loop init cond post body, hg => by
    simp only [Stmt.reads, sameGlobals_append] at hg
    obtain ⟨⟨⟨hinit, hcond⟩, hpost⟩, hbody⟩ := hg
    rw [visitStmt, visitStmt]
    have hparts := (visitStmt?_alike h names init hinit).bind fun _ =>
      (visitExpr?_alike h _ cond hcond).andThen fun _ =>
        (visitStmt?_alike h _ post hpost).bind fun _ => (visitStmts_alike h _ body hbody).inScope
    exact hparts.inScope
  | names, .range key value true x body, hg => by
    simp only [Stmt.reads, sameGlobals_append] at hg
    obtain ⟨⟨hx, -⟩, hbody⟩ := hg
    rw [visitStmt, visitStmt]
    rw [rangeNames, if_pos rfl, declaredNames_append, ← List.append_assoc] at hbody
    have hparts (t u : Option Ty) := (h.declareAll t _).bind fun _ =>
      (h.declareAll u _).bind fun _ => (visitStmts_alike h _ body hbody).inScope
    refine (visitExpr_alike h names x hx).andThen fun ranged => ?_
    rw [h.rangeTypes]
    exact (hparts _ _).inScope
  | names, .range key value false x body, hg => by
    simp only [Stmt.reads, sameGlobals_append] at hg
    obtain ⟨⟨hx, hvars⟩, hbody⟩ := hg
    rw [if_neg Bool.false_ne_true, sameGlobals_append] at hvars
    rw [rangeNames, if_neg Bool.false_ne_true, List.append_nil] at hbody
    rw [visitStmt, visitStmt]
    have hparts := (visitExpr?_alike h names key hvars.1).andThen fun _ =>
      (visitExpr?_alike h names value hvars.2).andThen fun _ =>
        (visitStmts_alike h names body hbody).inScope
    exact (visitExpr_alike h names x hx).andThen fun _ => hparts.inScope
  | names, .switch init tag clauses, hg => by
    simp only [Stmt.reads, sameGlobals_append] at hg
    obtain ⟨⟨hinit, htag⟩, hclauses⟩ := hg
    rw [visitStmt, visitStmt]
    have hparts := (visitStmt?_alike h names init hinit).bind fun _ =>
      (visitExpr?_alike h _ tag htag).andThen fun _ => visitClauses_alike h _ clauses hclauses
    exact hparts.inScope
  | names, .typeSwitch init binding subject clauses, hg => by
    simp only [Stmt.reads, sameGlobals_append] at hg
    obtain ⟨⟨hinit, hsubject⟩, hclauses⟩ := hg
    rw [visitStmt, visitStmt]
    have hparts := (visitStmt?_alike h names init hinit).bind fun _ =>
      (visitExpr_alike h _ subject hsubject).andThen fun t =>
        visitTypeClauses_alike h _ binding t clauses hclauses
    exact hparts.inScope
  | names, .select clauses, hg => by
    rw [Stmt.reads] at hg
    rw [visitStmt, visitStmt]
    exact visitCommClauses_alike h names clauses hg
  | names, .send chan value, hg => by
    rw [Stmt.reads, sameGlobals_append] at hg
    rw [visitStmt, visitStmt]
    exact (visitExpr_alike h names chan hg.1).andThen fun _ =>
      (visitExpr_alike h names value hg.2).map _
  | names, .labeled body, hg => by
    rw [Stmt.reads] at hg
    rw [visitStmt, visitStmt]
    exact visitStmt_alike h names body hg

theorem visitStmts_alike (h : env.Alike env') : ∀ (names : List String) (ss : List Stmt),
    SameGlobals env env' (stmtsReads names ss) →
      Alike names (ss.flatMap Stmt.declares) (visitStmts env ss) (visitStmts env' ss)
  | names, [], _ => by
    rw [visitStmts, visitStmts]
    exact .pure ()
  | names, s :: ss, hg => by
    rw [stmtsReads, sameGlobals_append] at hg
    rw [visitStmts, visitStmts, List.flatMap_cons]
    exact (visitStmt_alike h names s hg.1).bind fun _ => visitStmts_alike h _ ss hg.2

theorem visitStmt?_alike (h : env.Alike env') : ∀ (names : List String) (s : Option Stmt),
    SameGlobals env env' (stmt?Reads names s) →
      Alike names (s.toList.flatMap Stmt.declares) (visitStmt? env s) (visitStmt? env' s)
  | names, none, _ => by
    rw [visitStmt?, visitStmt?]
    exact .pure ()
  | names, some s, hg => by
    rw [stmt?Reads] at hg
    rw [visitStmt?, visitStmt?]
    simpa using visitStmt_alike h names s hg

theorem visitSpecs_alike (h : env.Alike env') : ∀ (names : List String) (specs : List ValueSpec),
    SameGlobals env env' (specsReads names specs) →
      Alike names (specs.flatMap ValueSpec.declares) (visitSpecs env specs) (visitSpecs env' specs)
  | names, [], _ => by
    rw [visitSpecs, visitSpecs]
    exact .pure ()
  | names, .mk is type values :: specs, hg => by
    rw [specsReads, sameGlobals_append] at hg
    rw [visitSpecs, visitSpecs, h.resolve, List.flatMap_cons]
    exact (visitExprs_alike h names values hg.1).andThen fun _ =>
      (h.declareValues _ is _).bind fun _ => visitSpecs_alike h _ specs hg.2

theorem visitClauses_alike (h : env.Alike env') : ∀ (names : List String) (clauses : List Clause),
    SameGlobals env env' (clausesReads names clauses) →
      Alike names [] (visitClauses env clauses) (visitClauses env' clauses)
  | names, [], _ => by
    rw [visitClauses, visitClauses]
    exact .pure ()
  | names, .mk exprs body :: clauses, hg => by
    simp only [clausesReads, sameGlobals_append] at hg
    obtain ⟨⟨hexprs, hbody⟩, hclauses⟩ := hg
    rw [visitClauses, visitClauses]
    exact (visitExprs_alike h names exprs hexprs).andThen fun _ =>
      (visitStmts_alike h names body hbody).inScope.andThen fun _ =>
        visitClauses_alike h names clauses hclauses

theorem visitTypeClauses_alike (h : env.Alike env') : ∀ (names : List String)
    (binding : Option Ident) (subject : Option Ty) (clauses : List TypeClause),
    SameGlobals env env' (typeClausesReads (names ++ declaredNames binding.toList) clauses) →
      Alike names [] (visitTypeClauses env binding subject clauses)
        (visitTypeClauses env' binding subject clauses)
  | names, binding, subject, [], _ => by
    rw [visitTypeClauses, visitTypeClauses]
    exact .pure ()
  | names, binding, subject, .mk types body :: clauses, hg => by
    rw [typeClausesReads, sameGlobals_append] at hg
    unfold visitTypeClauses
    simp only [h.resolve]
    exact ((h.declareAll _ _).bind fun _ => visitStmts_alike h _ body hg.1).inScope.andThen fun _ =>
      visitTypeClauses_alike h names binding subject clauses hg.2

theorem visitCommClauses_alike (h : env.Alike env') : ∀ (names : List String)
    (clauses : List CommClause), SameGlobals env env' (commClausesReads names clauses) →
      Alike names [] (visitCommClauses env clauses) (visitCommClauses env' clauses)
  | names, [], _ => by
    rw [visitCommClauses, visitCommClauses]
    exact .pure ()
  | names, .mk comm body :: clauses, hg => by
    simp only [commClausesReads, sameGlobals_append] at hg
    obtain ⟨⟨hcomm, hbody⟩, hclauses⟩ := hg
    rw [visitCommClauses, visitCommClauses]
    exact ((visitStmt?_alike h names comm hcomm).bind fun _ =>
      visitStmts_alike h _ body hbody).inScope.andThen fun _ =>
        visitCommClauses_alike h names clauses hclauses

end

end Visiting

end GoCalls
