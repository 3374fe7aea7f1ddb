import GoCalls.Proofs.IndexTypes

/-!
# Indexes that agree

Checking reads an index only where it has met a declared type or the name of a package. Two indexes
that agree at these paths give the same tables, whatever else they hold. As for a single visit, this
is stated for computations, with rules for their composition, and for any property `T` of types and
`Q` of names with their symbols that the file keeps.

* `Index.AgreeOn`: two indexes hold the same declarations for the types with a property.
* `Swaps`: another index may stand in for that of a file.
* `SameRuns`: two computations that run alike from all scopes with the property.
* **`visitExpr_withIndex`**, **`visitStmt_withIndex`**: checking runs alike with the other index.
* **`Index.check_of_agreeOn`**: indexes that agree give a package the same tables.
-/

namespace GoCalls

variable {T : Ty → Prop} {Q : MarkKind → String → Symbol → Prop}

/-! ## Members -/

/-- Two indexes hold the same declarations for the packages of the types with a property. -/
def Index.AgreeOn (T : Ty → Prop) (index other : Index) : Prop :=
  ∀ (label : Option String) (path name : String), T (.named label (some path) name) →
    other.packages[path]? = index.packages[path]?

theorem findSome?_congr_of_mem {α β : Type} {f g : α → Option β} {l : List α}
    (h : ∀ a ∈ l, f a = g a) : l.findSome? f = l.findSome? g := by
  induction l with
  | nil => rfl
  | cons a l ih =>
    rw [List.findSome?_cons, List.findSome?_cons, h a List.mem_cons_self,
      ih fun b hb => h b (List.mem_cons_of_mem _ hb)]

namespace Index.AgreeOn

variable {index other : Index} (ha : index.AgreeOn T other)

include ha

theorem member? {label : Option String} {path type : String}
    (ht : T (.named label (some path) type)) (name : String) :
    other.member? path name = index.member? path name := by
  unfold Index.member?
  rw [ha label path type ht]

theorem namedDecl? {t : Ty} (ht : T t) : other.namedDecl? t = index.namedDecl? t := by
  unfold Index.namedDecl?
  split
  · rename_i label path name
    rw [ha label path name ht]
  · rfl

theorem underlying {t : Ty} (ht : T t) : other.underlying t = index.underlying t := by
  unfold Index.underlying
  rw [ha.namedDecl? ht]

/-- Members of embedded fields have the property again. -/
theorem memberWithin (hc : Ty.Closed T) (h : index.Typed T) (name : String) (fuel : Nat) {t : Ty}
    (ht : T t) : other.memberWithin name fuel t = index.memberWithin name fuel t := by
  induction fuel generalizing t with
  | zero => rfl
  | succ fuel ih =>
    have hstrip := hc.stripPointers ht
    unfold Index.memberWithin
    split
    · rfl
    · rw [ha.namedDecl? hstrip]
      cases hd : index.namedDecl? t.stripPointers with
      | none => rfl
      | some decl =>
        have hembedded : ((decl.fields.filter (·.embedded)).findSome? fun f =>
              other.memberWithin name fuel f.type) =
            (decl.fields.filter (·.embedded)).findSome? fun f =>
              index.memberWithin name fuel f.type := by
          refine findSome?_congr_of_mem fun field hf => ih ?_
          exact (h.namedDecl? hstrip hd).fields field (List.mem_of_mem_filter hf)
        simp only [Option.bind_eq_bind, Option.bind_some, hembedded]

theorem memberType (hc : Ty.Closed T) (h : index.Typed T) {t : Ty} (ht : T t) (name : String) :
    other.memberType t name = index.memberType t name := by
  unfold Index.memberType
  exact ha.memberWithin hc h name _ ht

end Index.AgreeOn

/-! ## Files -/

/-- The file with another index. -/
def FileEnv.withIndex (env : FileEnv) (other : Index) : FileEnv := { env with index := other }

theorem index_withIndex (env : FileEnv) (other : Index) : (env.withIndex other).index = other := rfl

/-- Another index may stand in for that of a file, where types and names have the properties. -/
structure Swaps (env : FileEnv) (other : Index) (T : Ty → Prop)
    (Q : MarkKind → String → Symbol → Prop) : Prop where
  global (name : String) : (env.withIndex other).global? name = env.global? name
  member {short imported path : String} {symbol : Symbol} : Q .name short symbol →
    symbol.kind = .package imported path →
      ∀ name, other.member? path name = env.index.member? path name
  memberType {t : Ty} : T t → ∀ name, other.memberType t name = env.index.memberType t name
  underlying {t : Ty} : T t → other.underlying t = env.index.underlying t

section Files

variable {env : FileEnv} {other : Index} (hs : Swaps env other T Q) {scopes : List Scope}

include hs

theorem lookup_withIndex (name : String) :
    (env.withIndex other).lookup scopes name = env.lookup scopes name := by
  unfold FileEnv.lookup
  rw [hs.global]

theorem packagePath?_withIndex (name : String) :
    (env.withIndex other).packagePath? scopes name = env.packagePath? scopes name := by
  unfold FileEnv.packagePath?
  rw [lookup_withIndex hs]

theorem map_underlying_withIndex {t : Option Ty} (h : Known T t) :
    t.map other.underlying = t.map env.index.underlying :=
  Option.map_congr fun u hu => hs.underlying (h u hu)

theorem rangeTypes_withIndex {t : Option Ty} (h : Known T t) :
    (env.withIndex other).rangeTypes t = env.rangeTypes t := by
  unfold FileEnv.rangeTypes
  rw [index_withIndex, map_underlying_withIndex hs h]

theorem elementType_withIndex {t : Ty} (h : T t) :
    (env.withIndex other).elementType t = env.elementType t := by
  unfold FileEnv.elementType
  rw [index_withIndex, hs.underlying h]

theorem callResult_withIndex {t : Option Ty} (h : Known T t) :
    (env.withIndex other).callResult t = env.callResult t := by
  unfold FileEnv.callResult
  rw [index_withIndex, map_underlying_withIndex hs h]

theorem denotedType_withIndex (hk : Keeps env T Q) (hsound : SoundScopes Q scopes) (x : Expr) :
    (env.withIndex other).denotedType scopes x = env.denotedType scopes x := by
  fun_induction FileEnv.denotedType env scopes x with
  | case1 t => rfl
  | case2 i => rw [FileEnv.denotedType, lookup_withIndex hs]
  | case3 id x sel =>
    rw [FileEnv.denotedType]
    cases hx : x.ident? with
    | none => rfl
    | some i =>
      simp only [Option.bind_eq_bind, Option.bind_some, packagePath?_withIndex hs]
      cases hpath : env.packagePath? scopes i.name with
      | none => rfl
      | some path =>
        obtain ⟨symbol, imported, hq, hkind⟩ := packagePath?_sound hk hsound hpath
        rw [Option.bind_some, Option.bind_some, index_withIndex,
          hs.member hq hkind]
  | case4 x ih => rw [FileEnv.denotedType, ih]
  | case5 x _ ih => rw [FileEnv.denotedType, ih]
  | case6 x ih => rw [FileEnv.denotedType, ih]
  | case7 => simp_all [FileEnv.denotedType]

end Files

/-! ## Computations that run alike -/

/-- Two computations run alike from all scopes with the property. -/
def SameRuns (Q : MarkKind → String → Symbol → Prop) {α : Type} (m m' : StateM Visit α) : Prop :=
  ∀ v : Visit, SoundScopes Q v.scopes → m'.run v = m.run v

namespace SameRuns

variable {α β : Type} {m m' : StateM Visit α} {f f' : α → StateM Visit β}

theorem refl (m : StateM Visit α) : SameRuns Q m m := fun _ _ => rfl

theorem bind (h : SameRuns Q m m') {marks : List Mark} {names : List String} {post : α → Prop}
    (hm : Visits T Q marks names post m) (hf : ∀ a, post a → SameRuns Q (f a) (f' a)) :
    SameRuns Q (m >>= f) (m' >>= f') := by
  intro v hv
  obtain ⟨hpost, hvisited⟩ := hm v hv
  rw [StateT.run_bind, StateT.run_bind, h v hv]
  exact hf _ hpost _ (hvisited.sound hv)

theorem after {marks : List Mark} {names : List String} {post : α → Prop}
    (hm : Visits T Q marks names post m) (hf : ∀ a, post a → SameRuns Q (f a) (f' a)) :
    SameRuns Q (m >>= f) (m >>= f') := (refl m).bind hm hf

theorem compute (h : SameRuns Q m m') (f : α → StateM Visit β) :
    SameRuns Q (m >>= f) (m' >>= f) := by
  intro v hv
  rw [StateT.run_bind, StateT.run_bind, h v hv]

theorem get {f f' : Visit → StateM Visit α}
    (h : ∀ u : Visit, SoundScopes Q u.scopes → SameRuns Q (f u) (f' u)) :
    SameRuns Q (MonadState.get >>= f) (MonadState.get >>= f') := fun v hv => h v hv v hv

theorem inScope (h : SameRuns Q m m') : SameRuns Q (Visit.inScope m) (Visit.inScope m') := by
  intro v hv
  have hrun := h { v with scopes := [] :: v.scopes } hv.push
  unfold Visit.inScope
  simp only [StateT.run_bind, StateT.run_modify, pure_bind, hrun]

end SameRuns

/-! ## Declaring -/

section Declaring

variable (env : FileEnv) (other : Index)

theorem declareAll_withIndex (t : Option Ty) (is : List Ident) :
    Visit.declareAll (env.withIndex other) t is = Visit.declareAll env t is := by
  induction is with
  | nil => rfl
  | cons i is ih =>
    rw [Visit.declareAll, Visit.declareAll, ih]
    rfl

theorem declareFields_withIndex (fields : List Field) :
    Visit.declareFields (env.withIndex other) fields = Visit.declareFields env fields := by
  induction fields with
  | nil => rfl
  | cons f fields ih =>
    rw [Visit.declareFields, Visit.declareFields, ih, declareAll_withIndex]
    rfl

theorem declareValues_withIndex (t : Option Ty) (is : List Ident) (types : List (Option Ty)) :
    Visit.declareValues (env.withIndex other) t is types = Visit.declareValues env t is types := by
  induction is generalizing types with
  | nil => rfl
  | cons i is ih =>
    rw [Visit.declareValues, Visit.declareValues, ih]
    rfl

end Declaring

/-! ## Visiting -/

section Visiting

variable {env : FileEnv} {other : Index}

mutual

/-- **Visiting an expression** runs alike with an index that stands in. -/
theorem visitExpr_withIndex (hk : Keeps env T Q) (hs : Swaps env other T Q) : ∀ x : Expr,
    SameRuns Q (visitExpr env x) (visitExpr (env.withIndex other) x)
  | .ident i => by
    rw [visitExpr, visitExpr]
    refine SameRuns.get fun u _ => ?_
    rw [lookup_withIndex hs]
    exact .refl _
  | .selector id x sel => by
    rw [visitExpr, visitExpr]
    refine SameRuns.get fun u hu => ?_
    simp only [packagePath?_withIndex hs, lookup_withIndex hs, denotedType_withIndex hs hk hu,
      index_withIndex]
    cases hpkg : x.ident?.bind fun i => (env.packagePath? u.scopes i.name).map (i, ·) with
    | some found =>
      obtain ⟨i, hx, hfound⟩ := Option.bind_eq_some_iff.mp hpkg
      obtain ⟨path, hpath, rfl⟩ := Option.map_eq_some_iff.mp hfound
      obtain ⟨_, _, hpackage, hkind⟩ := packagePath?_sound hk hu hpath
      simp only [hs.member hpackage hkind]
      exact .refl _
    | none =>
      refine (visitExpr_withIndex hk hs x).bind (visitExpr_visits hk x) fun operand hoperand => ?_
      cases hr : env.denotedType u.scopes x <|> operand with
      | none => exact .refl _
      | some recv =>
        have ht := (known_denotedType hk hu x).or hoperand recv hr
        dsimp only
        rw [hs.memberType ht]
        exact .refl _
  | .call fn args => by
    rw [visitExpr, visitExpr]
    refine SameRuns.get fun u hu => ?_
    simp only [lookup_withIndex hs, denotedType_withIndex hs hk hu]
    refine (visitExpr_withIndex hk hs fn).bind (visitExpr_visits hk fn) fun fnType hfn => ?_
    rw [callResult_withIndex hs hfn]
    exact (visitExprs_withIndex hk hs args).compute _
  | .func params results body => by
    rw [visitExpr, visitExpr, declareFields_withIndex, declareFields_withIndex]
    refine SameRuns.compute (SameRuns.inScope ?_) _
    exact .after (declareFields_visits hk params) fun _ _ =>
      .after (declareFields_visits hk results) fun _ _ => visitStmts_withIndex hk hs body
  | .composite type elements => by
    rw [visitExpr, visitExpr]
    exact (visitExprs_withIndex hk hs elements).compute _
  | .keyValue key value => by
    rw [visitExpr, visitExpr]
    have hvalue := (visitExpr_withIndex hk hs value).compute fun _ =>
      (pure none : StateM Visit (Option Ty))
    split_ifs
    · exact (visitExpr_withIndex hk hs key).bind (visitExpr_visits hk key) fun _ _ => hvalue
    · exact hvalue
  | .unary op x => by
    rw [visitExpr, visitExpr]
    refine (visitExpr_withIndex hk hs x).bind (visitExpr_visits hk x) fun t ht => ?_
    rw [index_withIndex, map_underlying_withIndex hs ht]
    exact .refl _
  | .binary operands => by
    rw [visitExpr, visitExpr]
    exact (visitExprs_withIndex hk hs operands).compute _
  | .index x indices => by
    rw [visitExpr, visitExpr]
    refine (visitExpr_withIndex hk hs x).bind (visitExpr_visits hk x) fun t ht => ?_
    have helement : t.bind (env.withIndex other).elementType = t.bind env.elementType := by
      cases t with
      | none => rfl
      | some t => exact elementType_withIndex hs (ht t rfl)
    rw [helement]
    exact (visitExprs_withIndex hk hs indices).compute _
  | .slice x bounds => by
    rw [visitExpr, visitExpr]
    exact (visitExpr_withIndex hk hs x).bind (visitExpr_visits hk x) fun _ _ =>
      (visitExprs_withIndex hk hs bounds).compute _
  | .typeAssert x type => by
    rw [visitExpr, visitExpr]
    exact (visitExpr_withIndex hk hs x).compute _
  | .paren x => by
    rw [visitExpr, visitExpr]
    exact visitExpr_withIndex hk hs x
  | .lit kind => by
    rw [visitExpr, visitExpr]
    exact .refl _
  | .type t => by
    rw [visitExpr, visitExpr]
    exact .refl _
  | .other parts => by
    rw [visitExpr, visitExpr]
    exact (visitExprs_withIndex hk hs parts).compute _

theorem visitExprs_withIndex (hk : Keeps env T Q) (hs : Swaps env other T Q) : ∀ xs : List Expr,
    SameRuns Q (visitExprs env xs) (visitExprs (env.withIndex other) xs)
  | [] => by
    rw [visitExprs, visitExprs]
    exact .refl _
  | x :: xs => by
    rw [visitExprs, visitExprs]
    exact (visitExpr_withIndex hk hs x).bind (visitExpr_visits hk x) fun _ _ =>
      (visitExprs_withIndex hk hs xs).compute _

theorem visitExpr?_withIndex (hk : Keeps env T Q) (hs : Swaps env other T Q) : ∀ x : Option Expr,
    SameRuns Q (visitExpr? env x) (visitExpr? (env.withIndex other) x)
  | none => by
    rw [visitExpr?, visitExpr?]
    exact .refl _
  | some x => by
    rw [visitExpr?, visitExpr?]
    exact visitExpr_withIndex hk hs x

theorem visitTargets_withIndex (hk : Keeps env T Q) (hs : Swaps env other T Q) :
    ∀ (xs : List Expr) (types : List (Option Ty)), (∀ t ∈ types, Known T t) →
      SameRuns Q (visitTargets env xs types) (visitTargets (env.withIndex other) xs types)
  | [], types, _ => by
    rw [visitTargets, visitTargets]
    exact .refl _
  | x :: xs, types, htypes => by
    have hrest := visitTargets_withIndex hk hs xs types.tail fun t ht =>
      htypes t (List.mem_of_mem_tail ht)
    have hvisit : SameRuns Q (do let _ ← visitExpr env x; visitTargets env xs types.tail)
        (do let _ ← visitExpr (env.withIndex other) x
            visitTargets (env.withIndex other) xs types.tail) :=
      (visitExpr_withIndex hk hs x).bind (visitExpr_visits hk x) fun _ _ => hrest
    rw [visitTargets, visitTargets]
    cases x.ident? with
    | none => exact hvisit
    | some i =>
      refine .after (@declaredHere_visits T Q i.name) fun here _ => ?_
      split_ifs
      · exact hvisit
      · exact .after (declare_visits hk i (known_head? htypes)) fun _ _ => hrest

/-- **Visiting a statement** runs alike with an index that stands in. -/
theorem visitStmt_withIndex (hk : Keeps env T Q) (hs : Swaps env other T Q) : ∀ s : Stmt,
    SameRuns Q (visitStmt env s) (visitStmt (env.withIndex other) s)
  | .expr x | .go x | .defer x | .incDec x => by
    rw [visitStmt, visitStmt]
    exact (visitExpr_withIndex hk hs x).compute _
  | .assign lhs rhs true => by
    rw [visitStmt, visitStmt]
    exact (visitExprs_withIndex hk hs rhs).bind (visitExprs_visits hk rhs) fun _ htypes =>
      visitTargets_withIndex hk hs lhs _ (known_spreadTypes hk lhs.length htypes)
  | .assign lhs rhs false => by
    rw [visitStmt, visitStmt]
    exact (visitExprs_withIndex hk hs rhs).bind (visitExprs_visits hk rhs) fun _ _ =>
      (visitExprs_withIndex hk hs lhs).compute _
  | .declare specs => by
    rw [visitStmt, visitStmt]
    exact visitSpecs_withIndex hk hs specs
  | .ret xs | .other xs => by
    rw [visitStmt, visitStmt]
    exact (visitExprs_withIndex hk hs xs).compute _
  | .block body => by
    rw [visitStmt, visitStmt]
    exact (visitStmts_withIndex hk hs body).inScope
  | .ifThen init cond body orElse => by
    rw [visitStmt, visitStmt]
    refine SameRuns.inScope ?_
    exact (visitStmt?_withIndex hk hs init).bind (visitStmt?_visits hk init) fun _ _ =>
      (visitExpr_withIndex hk hs cond).bind (visitExpr_visits hk cond) fun _ _ =>
        (visitStmts_withIndex hk hs body).inScope.bind (visitStmts_visits hk body).inScope fun _ _ =>
          visitStmt?_withIndex hk hs orElse
  | .loop init cond post body => by
    rw [visitStmt, visitStmt]
    refine SameRuns.inScope ?_
    exact (visitStmt?_withIndex hk hs init).bind (visitStmt?_visits hk init) fun _ _ =>
      (visitExpr?_withIndex hk hs cond).bind (visitExpr?_visits hk cond) fun _ _ =>
        (visitStmt?_withIndex hk hs post).bind (visitStmt?_visits hk post) fun _ _ =>
          (visitStmts_withIndex hk hs body).inScope
  | .range key value true x body => by
    rw [visitStmt, visitStmt]
    refine (visitExpr_withIndex hk hs x).bind (visitExpr_visits hk x) fun ranged hranged => ?_
    obtain ⟨hkey, hvalue⟩ := known_rangeTypes hk hranged
    rw [rangeTypes_withIndex hs hranged]
    simp only [declareAll_withIndex, ↓reduceIte]
    refine SameRuns.inScope ?_
    exact .after (declareAll_visits hk hkey _) fun _ _ =>
      .after (declareAll_visits hk hvalue _) fun _ _ => (visitStmts_withIndex hk hs body).inScope
  | .range key value false x body => by
    rw [visitStmt, visitStmt]
    refine (visitExpr_withIndex hk hs x).bind (visitExpr_visits hk x) fun _ _ => ?_
    refine SameRuns.inScope ?_
    exact (visitExpr?_withIndex hk hs key).bind (visitExpr?_visits hk key) fun _ _ =>
      (visitExpr?_withIndex hk hs value).bind (visitExpr?_visits hk value) fun _ _ =>
        (visitStmts_withIndex hk hs body).inScope
  | .switch init tag clauses => by
    rw [visitStmt, visitStmt]
    refine SameRuns.inScope ?_
    exact (visitStmt?_withIndex hk hs init).bind (visitStmt?_visits hk init) fun _ _ =>
      (visitExpr?_withIndex hk hs tag).bind (visitExpr?_visits hk tag) fun _ _ =>
        visitClauses_withIndex hk hs clauses
  | .typeSwitch init binding subject clauses => by
    rw [visitStmt, visitStmt]
    refine SameRuns.inScope ?_
    exact (visitStmt?_withIndex hk hs init).bind (visitStmt?_visits hk init) fun _ _ =>
      (visitExpr_withIndex hk hs subject).bind (visitExpr_visits hk subject) fun _ ht =>
        visitTypeClauses_withIndex hk hs binding ht clauses
  | .select clauses => by
    rw [visitStmt, visitStmt]
    exact visitCommClauses_withIndex hk hs clauses
  | .send chan value => by
    rw [visitStmt, visitStmt]
    exact (visitExpr_withIndex hk hs chan).bind (visitExpr_visits hk chan) fun _ _ =>
      (visitExpr_withIndex hk hs value).compute _
  | .labeled body => by
    rw [visitStmt, visitStmt]
    exact visitStmt_withIndex hk hs body

theorem visitStmts_withIndex (hk : Keeps env T Q) (hs : Swaps env other T Q) : ∀ ss : List Stmt,
    SameRuns Q (visitStmts env ss) (visitStmts (env.withIndex other) ss)
  | [] => by
    rw [visitStmts, visitStmts]
    exact .refl _
  | s :: ss => by
    rw [visitStmts, visitStmts]
    exact (visitStmt_withIndex hk hs s).bind (visitStmt_visits hk s) fun _ _ =>
      visitStmts_withIndex hk hs ss

theorem visitStmt?_withIndex (hk : Keeps env T Q) (hs : Swaps env other T Q) : ∀ s : Option Stmt,
    SameRuns Q (visitStmt? env s) (visitStmt? (env.withIndex other) s)
  | none => by
    rw [visitStmt?, visitStmt?]
    exact .refl _
  | some s => by
    rw [visitStmt?, visitStmt?]
    exact visitStmt_withIndex hk hs s

theorem visitSpecs_withIndex (hk : Keeps env T Q) (hs : Swaps env other T Q) :
    ∀ specs : List ValueSpec,
      SameRuns Q (visitSpecs env specs) (visitSpecs (env.withIndex other) specs)
  | [] => by
    rw [visitSpecs, visitSpecs]
    exact .refl _
  | .mk names type values :: specs => by
    rw [visitSpecs, visitSpecs]
    refine (visitExprs_withIndex hk hs values).bind (visitExprs_visits hk values) fun _ htypes => ?_
    rw [declareValues_withIndex]
    exact .after (declareValues_visits hk (known_bind_resolve hk type) names
      (known_spreadTypes hk names.length htypes)) fun _ _ => visitSpecs_withIndex hk hs specs

theorem visitClauses_withIndex (hk : Keeps env T Q) (hs : Swaps env other T Q) :
    ∀ clauses : List Clause,
      SameRuns Q (visitClauses env clauses) (visitClauses (env.withIndex other) clauses)
  | [] => by
    rw [visitClauses, visitClauses]
    exact .refl _
  | .mk exprs body :: clauses => by
    rw [visitClauses, visitClauses]
    exact (visitExprs_withIndex hk hs exprs).bind (visitExprs_visits hk exprs) fun _ _ =>
      (visitStmts_withIndex hk hs body).inScope.bind (visitStmts_visits hk body).inScope fun _ _ =>
        visitClauses_withIndex hk hs clauses

theorem visitTypeClauses_withIndex (hk : Keeps env T Q) (hs : Swaps env other T Q)
    (binding : Option Ident) {subject : Option Ty} (ht : Known T subject) :
    ∀ clauses : List TypeClause, SameRuns Q (visitTypeClauses env binding subject clauses)
      (visitTypeClauses (env.withIndex other) binding subject clauses)
  | [] => by
    rw [visitTypeClauses, visitTypeClauses]
    exact .refl _
  | .mk types body :: clauses => by
    have htype : Known T (match types with
        | [t] => env.resolve t
        | _ => subject) := by
      split
      · exact hk.resolve _
      · exact ht
    unfold visitTypeClauses
    simp only [declareAll_withIndex]
    exact (SameRuns.after (declareAll_visits hk htype _) fun _ _ =>
      visitStmts_withIndex hk hs body).inScope.bind
        ((declareAll_visits hk htype _).bind fun _ _ => visitStmts_visits hk body).inScope fun _ _ =>
          visitTypeClauses_withIndex hk hs binding ht clauses

theorem visitCommClauses_withIndex (hk : Keeps env T Q) (hs : Swaps env other T Q) :
    ∀ clauses : List CommClause,
      SameRuns Q (visitCommClauses env clauses) (visitCommClauses (env.withIndex other) clauses)
  | [] => by
    rw [visitCommClauses, visitCommClauses]
    exact .refl _
  | .mk comm body :: clauses => by
    have hbody := (visitStmt?_withIndex hk hs comm).bind (visitStmt?_visits hk comm) fun _ _ =>
      visitStmts_withIndex hk hs body
    rw [visitCommClauses, visitCommClauses]
    exact hbody.inScope.bind ((visitStmt?_visits hk comm).bind fun _ _ =>
      visitStmts_visits hk body).inScope fun _ _ => visitCommClauses_withIndex hk hs clauses

end

end Visiting

/-! ## Packages -/

/-- An index that agrees may stand in for another. -/
theorem Index.AgreeOn.swaps {index other : Index} (ha : index.AgreeOn T other) (hc : Ty.Closed T)
    (h : index.Typed T) {file : SourceFile} (hf : file.ImportsTyped T index.names)
    (decls : Declarations) (inferred : Std.TreeMap String Ty) :
    Swaps (index.fileEnv decls inferred file) other T (fun _ name symbol => symbol.Typed T name) where
  global name := by
    have hdotted : ((Imports.ofFile index.names file).dotted.findSome? fun path =>
          other.member? path name) =
        (Imports.ofFile index.names file).dotted.findSome? fun path => index.member? path name := by
      refine findSome?_congr_of_mem fun path hpath => ?_
      obtain ⟨spec, hspec, -, rfl⟩ := Imports.mem_dotted_ofFile hpath
      exact ha.member? (hf spec hspec name) name
    unfold FileEnv.global? FileEnv.withIndex Index.fileEnv
    simp only [hdotted]
    rfl
  member {short imported path symbol} hq hkind name := by
    have hpath : SymbolKind.Typed T (.package imported path) := hkind ▸ hq.1.2
    exact ha.member? (hpath name) name
  memberType ht name := ha.memberType hc h ht name
  underlying ht := ha.underlying ht

section Packages

variable {env : FileEnv} {other : Index}

theorem checkDeclValues_withIndex (env : FileEnv) {progress : Progress}
    (hk : Keeps { env with inferred := progress.inferred } T Q)
    (hs : Swaps { env with inferred := progress.inferred } other T Q) (decl : Decl) :
    checkDeclValues (env.withIndex other) progress decl = checkDeclValues env progress decl := by
  have hvalues (spec : ValueSpec) :
      checkValues (env.withIndex other) progress spec = checkValues env progress spec := by
    obtain ⟨names, type, values⟩ := spec
    have hrun := visitExprs_withIndex hk hs values { tables := progress.tables } SoundScopes.nil
    unfold checkValues
    simp only [FileEnv.withIndex] at hrun ⊢
    rw [hrun]
  cases decl with
  | var spec => exact hvalues spec
  | const spec => exact hvalues spec
  | func d => rfl
  | type d => rfl

theorem visitFunc_withIndex (hk : Keeps env T Q) (hs : Swaps env other T Q) (func : FuncDecl)
    (body : List Stmt) :
    SameRuns Q (visitFunc env func body) (visitFunc (env.withIndex other) func body) := by
  have hbody := SameRuns.after (declareFields_visits hk func.params) fun _ _ =>
    SameRuns.after (declareFields_visits hk func.results) fun _ _ => visitStmts_withIndex hk hs body
  unfold visitFunc
  simp only [declareFields_withIndex, declareAll_withIndex]
  refine SameRuns.inScope ?_
  cases func.recv with
  | none => exact hbody
  | some recv => exact .after (declareAll_visits hk (hk.resolve recv.type) _) fun _ _ => hbody

theorem checkDeclBody_withIndex (hk : Keeps env T Q) (hs : Swaps env other T Q) (tables : Tables)
    (decl : Decl) :
    checkDeclBody (env.withIndex other) tables decl = checkDeclBody env tables decl := by
  unfold checkDeclBody
  split
  · rename_i func
    split
    · rename_i body _
      rw [visitFunc_withIndex hk hs func body { tables } SoundScopes.nil]
    · rfl
  · rfl

end Packages

namespace Index

theorem fileEnv_withIndex {index other : Index} {file : SourceFile}
    (h : Imports.ofFile other.names file = Imports.ofFile index.names file) (decls : Declarations)
    (inferred : Std.TreeMap String Ty) :
    other.fileEnv decls inferred file = (index.fileEnv decls inferred file).withIndex other := by
  unfold Index.fileEnv
  rw [h]
  rfl

section Visiting

variable {index other : Index} {decls : Declarations} {ds : List (SourceFile × Decl)}
  (hk : ∀ inferred, AllValues T inferred → ∀ d ∈ ds, Keeps (index.fileEnv decls inferred d.1) T Q)
  (hs : ∀ inferred, ∀ d ∈ ds, Swaps (index.fileEnv decls inferred d.1) other T Q)
  (himports : ∀ d ∈ ds, Imports.ofFile other.names d.1 = Imports.ofFile index.names d.1)

include hk hs himports

theorem visitValues_of_swaps (progress : Progress) (hp : AllValues T progress.inferred) :
    other.visitValues decls progress ds = index.visitValues decls progress ds := by
  induction ds generalizing progress with
  | nil =>
    unfold Index.visitValues
    rw [List.foldl_nil, List.foldl_nil]
  | cons d ds ih =>
    have hkeeps := hk progress.inferred hp d List.mem_cons_self
    have hstep := checkDeclValues_withIndex (index.fileEnv decls progress.inferred d.1) hkeeps
      (hs progress.inferred d List.mem_cons_self) d.2
    have hgrows := checkDeclValues_grows (index.fileEnv decls progress.inferred d.1) hkeeps hp d.2
    rw [visitValues_cons, visitValues_cons, fileEnv_withIndex (himports d List.mem_cons_self),
      hstep]
    exact ih (fun inferred hi d hd => hk inferred hi d (List.mem_cons_of_mem _ hd))
      (fun inferred d hd => hs inferred d (List.mem_cons_of_mem _ hd))
      (fun d hd => himports d (List.mem_cons_of_mem _ hd)) _ hgrows.inferred

theorem visitBodies_of_swaps {inferred : Std.TreeMap String Ty} (hi : AllValues T inferred)
    (tables : Tables) :
    other.visitBodies decls inferred tables ds = index.visitBodies decls inferred tables ds := by
  unfold Index.visitBodies
  refine List.foldl_ext _ _ _ fun tables d hd => ?_
  rw [fileEnv_withIndex (himports d hd), checkDeclBody_withIndex (hk inferred hi d hd)
    (hs inferred d hd)]

end Visiting

/-- **Indexes that agree give a package the same tables.** -/
theorem check_of_agreeOn {index other : Index} (ha : index.AgreeOn T other) (hc : Ty.Closed T)
    (h : index.Typed T) {package : Package} {decls : Declarations} (ht : decls.Typed T)
    (hd : index.packages[package.path]? = some decls)
    (hd' : other.packages[package.path]? = some decls)
    (hfiles : ∀ file ∈ package.files, file.ImportsTyped T index.names)
    (himports : ∀ file ∈ package.files,
      Imports.ofFile other.names file = Imports.ofFile index.names file) :
    other.check package = index.check package := by
  have hfile {d : SourceFile × Decl} (hd : d ∈ package.decls) : d.1 ∈ package.files :=
    (Package.mem_decls.mp hd).1
  have hk := fun inferred (hi : AllValues T inferred) d (hd : d ∈ package.decls) =>
    h.keeps hc ht hi (hfiles d.1 (hfile hd))
  have hs := fun inferred d (hd : d ∈ package.decls) =>
    ha.swaps hc h (hfiles d.1 (hfile hd)) decls inferred
  have himports' := fun d (hd : d ∈ package.decls) => himports d.1 (hfile hd)
  have hvalues := visitValues_of_swaps hk hs himports' {} AllValues.empty
  have hinferred := (visitValues_grows hk {} AllValues.empty).inferred
  rw [check_eq hd, check_eq hd']
  dsimp only
  rw [hvalues]
  exact visitBodies_of_swaps hk hs himports' hinferred _

end Index

end GoCalls
