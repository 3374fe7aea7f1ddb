import GoCalls.Proofs.CallSites
import GoCalls.Proofs.GraphOrder
import Mathlib.Data.List.Induction

/-!
# Closures in scope

A closure is known by its variable in the routine that assigns it, from the assignment on, and in all
closures inside that routine which begin later. It is never known outside. This is said of places in
the code: the closures around a place are those on the path to it.

* `Point.around`: the closures around a place.
* `nestedScope`: the name of the routine inside nested closures.
* `Point.Sees`: a closure is assigned before a place, in a routine around the place.
* **`Point.scope_of_at?`**: the routine around a place is named after the closures around it.
* **`Point.sees_of_lookup`**: all that is bound at a place is seen there.
* **`closure_calls_in_scope`**: the sources of calls, and the targets of calls of closures.
-/

namespace GoCalls

/-! ## Closures around a place -/

/-- The variable that gets a closure, if a piece of code is one. -/
def Code.closureVar? : Code → Option String
  | .closure var _ _ => some var
  | _ => none

/-- The variable that gets the closure at a path, if there is one. -/
def Point.closureAt? (p : Point) (path : List Nat) : Option String :=
  (p.at? path).bind (·.code.closureVar?)

/-- The closures on the way to a place, the outermost first, with their variables. -/
def Point.around (p : Point) (path : List Nat) : List (List Nat × String) :=
  (List.range path.length).filterMap fun n => (p.closureAt? (path.take n)).map (path.take n, ·)

/-- The variables of the closures around a place. -/
def Point.varsAround (p : Point) (path : List Nat) : List String := (p.around path).map Prod.snd

/-- The name of the routine inside nested closures with the given variables. -/
def nestedScope (scope : String) (vars : List String) : String :=
  vars.foldl (fun scope var => scope ++ "." ++ var) scope

theorem nestedScope_append (scope : String) (vars more : List String) :
    nestedScope scope (vars ++ more) = nestedScope (nestedScope scope vars) more :=
  List.foldl_append

theorem Point.closureAt?_append {p q : Point} {path : List Nat} (h : p.at? path = some q)
    (more : List Nat) : p.closureAt? (path ++ more) = q.closureAt? more := by
  rw [Point.closureAt?, Point.at?_append, h]
  rfl

theorem Point.around_nil (p : Point) : p.around [] = [] := rfl

/-- First come the closures around the part. -/
theorem Point.around_append {p q : Point} {path : List Nat} (h : p.at? path = some q)
    (more : List Nat) :
    p.around (path ++ more) =
      p.around path ++ (q.around more).map fun c => (path ++ c.1, c.2) := by
  unfold Point.around
  rw [List.length_append, List.range_add, List.filterMap_append, List.filterMap_map]
  congr 1
  · refine List.filterMap_congr fun n hn => ?_
    have hle : n ≤ path.length := Nat.le_of_lt (List.mem_range.mp hn)
    rw [List.take_append_of_le_length hle]
  · rw [List.map_filterMap]
    refine List.filterMap_congr fun n _ => ?_
    have htake : (path ++ more).take (path.length + n) = path ++ more.take n :=
      List.take_length_add_append n
    simp only [Function.comp_apply, htake, Point.closureAt?_append h, Option.map_map]
    rfl

theorem Point.around_concat {p q : Point} {path : List Nat} (h : p.at? path = some q) (i : Nat) :
    p.around (path ++ [i]) = p.around path ++ q.code.closureVar?.toList.map (path, ·) := by
  have hone : q.around [i] = q.code.closureVar?.toList.map ([], ·) := by
    unfold Point.around Point.closureAt?
    cases hc : q.code.closureVar? <;> simp [Point.at?, hc, List.range_succ]
  rw [Point.around_append h, hone, List.map_map]
  simp [Function.comp_def]

/-! ## The routine around a place -/

theorem Context.scope_inside {ctx : Context} (hs : ctx.scope ≠ "") (c : Code) :
    (ctx.inside c).scope = nestedScope ctx.scope c.closureVar?.toList := by
  cases c with
  | closure var binders body => simp [Context.inside, Context.enter, Context.scopedName, hs,
      Code.closureVar?, nestedScope]
  | _ => rfl

theorem Point.at?_concat {p site : Point} {path : List Nat} {i : Nat}
    (h : p.at? (path ++ [i]) = some site) :
    ∃ q, p.at? path = some q ∧ q.parts[i]? = some site := by
  rw [Point.at?_append] at h
  obtain ⟨q, hq, h⟩ := Option.bind_eq_some_iff.mp h
  refine ⟨q, hq, ?_⟩
  simpa [Point.at?] using h

/-- **The routine around a place** is named after the closures around it. -/
theorem Point.scope_of_at? {p site : Point} {path : List Nat} (hs : p.ctx.scope ≠ "")
    (h : p.at? path = some site) : site.ctx.scope = nestedScope p.ctx.scope (p.varsAround path) := by
  induction path using List.reverseRecOn generalizing site with
  | nil =>
    obtain rfl := Option.some.inj h
    rfl
  | append_singleton path i ih =>
    obtain ⟨q, hq, hsite⟩ := Point.at?_concat h
    have hscope : site.ctx.scope = (q.ctx.inside q.code).scope :=
      scope_of_mem_pointsOf (List.mem_of_getElem? hsite)
    rw [hscope, Context.scope_inside (Point.scope_ne_empty_of_at? hs hq), ih hq,
      ← nestedScope_append, Point.varsAround, Point.varsAround, Point.around_concat hq]
    simp [Function.comp_def]

/-! ## Bindings -/

/-- The closure at a path is given to a variable, under a name. -/
def Point.Assigns (p : Point) (path : List Nat) (var closure : String) : Prop :=
  ∃ q, p.at? path = some q ∧ q.code.closureVar? = some var ∧ closure = q.ctx.scopedName var

/-- A piece of code gives a closure to a variable, in the routine in which the code stands. -/
def Point.Binds (p : Point) (var closure : String) : Prop :=
  ∃ path, p.Assigns path var closure ∧ p.around path = []

theorem Context.lookup_bind (ctx : Context) (var closure name : String) :
    (ctx.bind var closure).lookup name = if name = var then some closure else ctx.lookup name := by
  by_cases h : name = var
  · simp [Context.lookup, Context.bind, h]
  · have hb : (name == var) = false := by simpa using h
    simp [Context.lookup, Context.bind, List.lookup_cons, hb, h]

theorem Point.Assigns.cons {p q : Point} {i : Nat} {path : List Nat} {var closure : String}
    (hq : p.parts[i]? = some q) (h : q.Assigns path var closure) :
    p.Assigns (i :: path) var closure := by
  obtain ⟨site, hsite, hvar, hname⟩ := h
  refine ⟨site, ?_, hvar, hname⟩
  rw [Point.at?, hq]
  exact hsite

theorem lookup_foldl_after {ctx : Context} {locals : List String} {cs : List Code}
    {var closure : String}
    (hcs : ∀ q ∈ pointsOf ctx locals cs, (q.ctx.after q.code).lookup var = some closure →
      q.ctx.lookup var = some closure ∨ q.Binds var closure)
    (h : (cs.foldl Context.after ctx).lookup var = some closure) :
    ctx.lookup var = some closure ∨
      ∃ (k : Nat) (q : Point), k < cs.length ∧ (pointsOf ctx locals cs)[k]? = some q ∧
        q.Binds var closure := by
  induction cs generalizing ctx locals with
  | nil => exact .inl h
  | cons c cs ih =>
    rcases ih (fun q hq => hcs q (List.mem_cons_of_mem _ hq)) h with hafter | ⟨k, q, hk, hq, hb⟩
    · rcases hcs ⟨ctx, locals, c⟩ List.mem_cons_self hafter with hbefore | hb
      · exact .inl hbefore
      · exact .inr ⟨0, ⟨ctx, locals, c⟩, Nat.succ_pos _, rfl, hb⟩
    · exact .inr ⟨k + 1, q, Nat.succ_lt_succ hk, hq, hb⟩

/-- **What is bound after a piece of code** was bound before, or the code binds it in its own
routine. -/
theorem Point.lookup_after (p : Point) {var closure : String}
    (h : (p.ctx.after p.code).lookup var = some closure) :
    p.ctx.lookup var = some closure ∨ p.Binds var closure := by
  induction p using Point.induction with
  | step p ih =>
    by_cases hc : ∃ v binders body, p.code = .closure v binders body
    · obtain ⟨v, binders, body, hcode⟩ := hc
      rw [hcode, Context.after, Context.lookup_bind] at h
      split_ifs at h with hv
      · refine .inr ⟨[], ⟨p, rfl, ?_, ?_⟩, p.around_nil⟩
        · rw [hcode, hv]
          rfl
        · rw [hv]
          exact (Option.some.inj h).symm
      · exact .inl h
    · have hclosure : ∀ v binders body, p.code ≠ .closure v binders body :=
        fun v binders body e => hc ⟨v, binders, body, e⟩
      have hinside : p.ctx.inside p.code = p.ctx := by
        cases hcode : p.code <;> first | rfl | exact absurd hcode (hclosure _ _ _)
      have hvar : p.code.closureVar? = none := by
        cases hcode : p.code <;> first | rfl | exact absurd hcode (hclosure _ _ _)
      have hpoints : p.parts = pointsOf p.ctx (p.locals ++ p.code.binders) p.code.parts := by
        rw [Point.parts, hinside]
      rw [p.ctx.after_eq hclosure] at h
      rcases lookup_foldl_after (fun q hq => ih q (hpoints ▸ hq)) h with hbefore |
        ⟨k, q, -, hq, path, hassigns, haround⟩
      · exact .inl hbefore
      · rw [← hpoints] at hq
        refine .inr ⟨k :: path, hassigns.cons hq, ?_⟩
        have hpart : p.at? [k] = some q := by simp [Point.at?, hq]
        have hk : p.around [k] = [] := by
          have := @Point.around_concat p p [] rfl k
          simpa [hvar, Point.around_nil] using this
        have := Point.around_append hpart path
        simpa [hk, haround] using this

theorem ctx_of_getElem?_pointsOf {ctx : Context} {locals : List String} {cs : List Code} {i : Nat}
    {q : Point} (h : (pointsOf ctx locals cs)[i]? = some q) :
    q.ctx = (cs.take i).foldl Context.after ctx := by
  induction cs generalizing ctx locals i with
  | nil => simp [pointsOf] at h
  | cons c cs ih =>
    cases i with
    | zero =>
      obtain rfl := Option.some.inj h
      rfl
    | succ i => exact ih h

theorem pointsOf_take (ctx : Context) (locals : List String) (cs : List Code) (i : Nat) :
    pointsOf ctx locals (cs.take i) = (pointsOf ctx locals cs).take i := by
  induction cs generalizing ctx locals i with
  | nil => simp [pointsOf]
  | cons c cs ih =>
    cases i with
    | zero => rfl
    | succ i => exact congrArg _ (ih _ _ i)

/-- What is bound in a part was bound before it. -/
theorem Point.lookup_part {p q : Point} {i : Nat} (hq : p.parts[i]? = some q) {var closure : String}
    (h : q.ctx.lookup var = some closure) :
    (p.ctx.inside p.code).lookup var = some closure ∨
      ∃ k < i, ∃ r, p.parts[k]? = some r ∧ r.Binds var closure := by
  rw [ctx_of_getElem?_pointsOf hq] at h
  rcases lookup_foldl_after (fun r _ => r.lookup_after) h with hbefore | ⟨k, r, hk, hr, hb⟩
  · exact .inl hbefore
  · have hki : k < i := by
      rw [List.length_take] at hk
      omega
    rw [pointsOf_take, List.getElem?_take_of_lt hki] at hr
    exact .inr ⟨k, hki, r, hr, hb⟩

theorem Point.lookup_inside {p : Point} {var closure : String}
    (h : (p.ctx.inside p.code).lookup var = some closure) :
    p.ctx.lookup var = some closure ∨ p.Assigns [] var closure := by
  obtain ⟨ctx, locals, code⟩ := p
  cases code with
  | closure v binders body =>
    have hbind : (ctx.bind v (ctx.scopedName v)).lookup var = some closure := h
    rw [Context.lookup_bind] at hbind
    split_ifs at hbind with hv
    · exact .inr ⟨_, rfl, congrArg some hv.symm, by rw [hv]; exact (Option.some.inj hbind).symm⟩
    · exact .inl hbind
  | _ => exact .inl h

theorem Point.Assigns.append {p q : Point} {path more : List Nat} {var closure : String}
    (hq : p.at? path = some q) (h : q.Assigns more var closure) :
    p.Assigns (path ++ more) var closure := by
  obtain ⟨site, hsite, hvar, hname⟩ := h
  refine ⟨site, ?_, hvar, hname⟩
  rw [Point.at?_append, hq]
  exact hsite

/-- What is bound at a place was assigned before it, within closures around it. -/
theorem Point.assigned_of_lookup {p site : Point} {path : List Nat} (hempty : p.ctx.bindings = [])
    (h : p.at? path = some site) {var closure : String}
    (hl : site.ctx.lookup var = some closure) :
    ∃ front < path, p.Assigns front var closure ∧ p.around front <+: p.around path := by
  induction path using List.reverseRecOn generalizing site with
  | nil =>
    obtain rfl := Option.some.inj h
    simp [Context.lookup, hempty] at hl
  | append_singleton path i ih =>
    obtain ⟨q, hq, hsite⟩ := Point.at?_concat h
    have hlonger : path < path ++ [i] := by
      conv_lhs => rw [← List.append_nil path]
      exact List.append_left_lt (List.nil_lt_cons i [])
    rw [Point.around_concat hq]
    rcases Point.lookup_part hsite hl with hinside | ⟨k, hk, r, hr, more, hassigns, hmore⟩
    · rcases Point.lookup_inside hinside with hbefore | hself
      · -- It was bound before the piece of code of which this is a part.
        obtain ⟨front, hlt, hassigns, hprefix⟩ := ih hq hbefore
        exact ⟨front, List.lt_trans hlt hlonger, hassigns, hprefix.trans (List.prefix_append _ _)⟩
      · -- It is the closure in whose body the place lies.
        have hassigns : p.Assigns path var closure := by simpa using hself.append hq
        exact ⟨path, hlonger, hassigns, List.prefix_append _ _⟩
    · -- An earlier part of the same code binds it, in the same routine.
      have hpart : p.at? (path ++ [k]) = some r := by
        rw [Point.at?_append, hq]
        simp [Point.at?, hr]
      refine ⟨path ++ [k] ++ more, ?_, hassigns.append hpart, ?_⟩
      · rw [List.append_assoc]
        exact List.append_left_lt (List.cons_lt_cons_iff.mpr (.inl hk))
      · rw [Point.around_append hpart, hmore, Point.around_concat hq]
        simp

/-- A closure is assigned to a variable before the place at a path, in a routine around it. -/
def Point.Sees (p : Point) (path : List Nat) (var closure : String) : Prop :=
  ∃ front < path, p.closureAt? front = some var ∧ p.around front <+: p.around path ∧
    closure = nestedScope p.ctx.scope (p.varsAround front ++ [var])

/-- **All that is bound at a place is seen there.** -/
theorem Point.sees_of_lookup {p site : Point} {path : List Nat} (hs : p.ctx.scope ≠ "")
    (hempty : p.ctx.bindings = []) (h : p.at? path = some site) {var closure : String}
    (hl : site.ctx.lookup var = some closure) : p.Sees path var closure := by
  obtain ⟨front, hlt, ⟨q, hq, hvar, hname⟩, hprefix⟩ := Point.assigned_of_lookup hempty h hl
  refine ⟨front, hlt, ?_, hprefix, ?_⟩
  · rw [Point.closureAt?, hq]
    exact hvar
  · rw [hname, Context.scopedName, if_neg (Point.scope_ne_empty_of_at? hs hq),
      Point.scope_of_at? hs hq, nestedScope_append]
    rfl

/-! ## Calls -/

theorem Point.RecordedAs.lookup {tables : Option Tables} {site : Point} {edge : Edge}
    (h : site.RecordedAs tables edge) (hkind : edge.kind = .closure) :
    ∃ i args, site.code = .expr (.call (.ident i) args) ∧
      site.ctx.lookup i.name = some edge.target := by
  obtain ⟨i, args, closure, hcode, hl⟩ := h.closure.mp hkind
  obtain ⟨kind, fn, callee, hcall, hcallee, htarget⟩ := h.target
  rw [hcode, Code.call?, Option.some.injEq, Prod.mk.injEq] at hcall
  obtain ⟨-, rfl⟩ := hcall
  refine ⟨i, args, hcode, ?_⟩
  have hname : callee.name = closure := by
    simp only [callee?, calleeOfIdent, hl, Option.some.injEq] at hcallee
    rw [← hcallee]
  rw [hl, htarget, hname]

/-- **Calls see closures in scope.** A call of a closure leads to one that was assigned before it,
where some of the closures around the call are around. -/
theorem closure_calls_in_scope (tables : Option Tables) (graph : Graph) (package : String)
    {scope : String} (hscope : scope ≠ "") (body : List Stmt) :
    let ctx : Context := { package, scope }
    let root : Point := ⟨ctx, [], .block [] body⟩
    let result := graph.extend (stmtsTrace tables ctx body)
    ∃ (calls : List (List Nat × Point)) (edges : List Edge),
      (∀ path site, (path, site) ∈ calls ↔
        root.at? path = some site ∧ site.code.isNamedCall) ∧
      result.edges = graph.edges ++ edges ∧
      List.Forall₂
        (fun call edge =>
          edge.source = nestedScope scope (root.varsAround call.1) ∧
          (edge.kind = .closure → ∃ i args, call.2.code = .expr (.call (.ident i) args) ∧
            root.Sees call.1 i.name edge.target ∧ result.containsNode edge.target) ∧
          ∀ var closure, call.2.ctx.lookup var = some closure → root.Sees call.1 var closure)
        calls edges := by
  intro ctx root result
  refine ⟨root.walk.filter fun call => call.2.code.isNamedCall, (root.trace tables).edges, ?_, rfl, ?_⟩
  · intro path site
    rw [List.mem_filter, Point.mem_walk]
  have hrecorded : List.Forall₂ (fun call edge => call.2.RecordedAs tables edge)
      (root.walk.filter fun call => call.2.code.isNamedCall) (root.trace tables).edges := by
    rw [Point.edges_trace]
    refine recordedAs_of_walk tables fun call hcall => ?_
    have hat := Point.mem_walk.mp hcall
    have hroot : root.code.SpawnsOperand := trivial
    exact ⟨Point.scope_ne_empty_of_at? hscope hat, Point.spawnsOperand_of_at? hroot hat⟩
  obtain ⟨hlength, hzip⟩ := List.forall₂_iff_zip.mp hrecorded
  refine List.forall₂_iff_zip.mpr ⟨hlength, fun {call edge} hmem => ?_⟩
  obtain ⟨hcall, hedge⟩ := List.of_mem_zip hmem
  have hat : root.at? call.1 = some call.2 := Point.mem_walk.mp (List.mem_filter.mp hcall).1
  have hsees : ∀ var closure, call.2.ctx.lookup var = some closure → root.Sees call.1 var closure :=
    fun var closure hl => Point.sees_of_lookup hscope rfl hat hl
  refine ⟨(hzip hmem).source.trans (Point.scope_of_at? hscope hat), fun hkind => ?_, hsees⟩
  obtain ⟨i, args, hcode, hl⟩ := (hzip hmem).lookup hkind
  refine ⟨i, args, hcode, hsees _ _ hl, ?_⟩
  have hnode : edge.target ∈ result.nodes :=
    (graph.mem_nodes_extend _ _).mpr (.inr (.inr ⟨edge, hedge, .inr rfl⟩))
  exact Std.TreeSet.contains_iff_mem.mpr hnode

/-- A closure in a closure, which calls the outer one. -/
def nestedBody : List Stmt :=
  [.assign [.ident ⟨0, "v"⟩] [.func [] []
      [.assign [.ident ⟨1, "w"⟩] [.func [] [] [.expr (.call (.ident ⟨2, "v"⟩) [])]] true,
        .expr (.call (.ident ⟨3, "w"⟩) [])]] true,
    .expr (.call (.ident ⟨4, "w"⟩) [])]

/-- The last call is no call of a closure. -/
theorem closure_calls_in_scope_nested :
    let ctx : Context := { package := "app", scope := "app.F" }
    let root : Point := ⟨ctx, [], .block [] nestedBody⟩
    let result := ({} : Graph).extend (stmtsTrace none ctx nestedBody)
    result.edges = [⟨"app.F.v.w", "app.F.v", .closure⟩, ⟨"app.F.v", "app.F.v.w", .closure⟩,
        ⟨"app.F", "app.w", .direct⟩] ∧
      ∃ (calls : List (List Nat × Point)) (edges : List Edge),
        (∀ path site, (path, site) ∈ calls ↔
          root.at? path = some site ∧ site.code.isNamedCall) ∧
        result.edges = [] ++ edges ∧
        List.Forall₂
          (fun call edge =>
            edge.source = nestedScope "app.F" (root.varsAround call.1) ∧
            (edge.kind = .closure → ∃ i args, call.2.code = .expr (.call (.ident i) args) ∧
              root.Sees call.1 i.name edge.target ∧ result.containsNode edge.target) ∧
            ∀ var closure, call.2.ctx.lookup var = some closure → root.Sees call.1 var closure)
          calls edges :=
  ⟨by decide, closure_calls_in_scope none {} "app" (by decide) nestedBody⟩

end GoCalls
