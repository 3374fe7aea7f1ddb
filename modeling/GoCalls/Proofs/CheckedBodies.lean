import GoCalls.Calls.Scan
import GoCalls.Proofs.IndexTypes
import GoCalls.Proofs.PassingParts

/-!
# Function bodies in a checked package

The tables of a package come from one visit after another: of all initial values, then of all
function bodies. Where no two marks of the package share a number, the entries for a place in a
function body are those that the visit of this place makes.

* `FuncDecl.root`: the body of a function as a point.
* **`Index.check_passes`**: the tables of a package at a point in a function body.
-/

namespace GoCalls

/-! ## Functions -/

/-- The names of the receiver, the parameters and the results of a function. -/
def FuncDecl.binders (func : FuncDecl) : List String :=
  declaredNames (func.recv.bind (·.name)).toList ++ fieldNames func.params ++ fieldNames func.results

/-- The body of a function, in a package with the given name. -/
def FuncDecl.root (package : String) (func : FuncDecl) (body : List Stmt) : Point where
  ctx := { package, scope := func.qualifiedName package }
  locals := []
  code := .block func.binders body

theorem visitFunc_passes (env : FileEnv) (package : String) (func : FuncDecl) (body : List Stmt) :
    Passes env (stmtsMarks body) [] (visitFunc env func body) (func.root package body) := by
  have hentry : (func.root package body).entry = [] ++ declaredNames (func.recv.bind (·.name)).toList ++
      fieldNames func.params ++ fieldNames func.results := by
    simp [Point.entry, FuncDecl.root, Code.binders, FuncDecl.binders]
  have hbody : Passes env (stmtsMarks body) ([] ++ declaredNames (func.recv.bind (·.name)).toList)
      (do
        Visit.declareFields env func.params
        Visit.declareFields env func.results
        visitStmts env body)
      (func.root package body) :=
    Passes.declaring (touches_fields env func.params) fun _ =>
      Passes.declaring (touches_fields env func.results) fun _ => Passes.self env _ hentry
  unfold visitFunc
  refine Passes.inScope ?_
  cases hrecv : func.recv with
  | none =>
    rw [hrecv] at hbody
    exact hbody
  | some recv =>
    rw [hrecv] at hbody
    exact Passes.declaring (touches_declareAll env _ recv.name.toList) fun _ => hbody

theorem visitFunc_passes_of_at? {env : FileEnv} {package : String} {func : FuncDecl} {body : List Stmt}
    {path : List Nat} {site : Point} (h : (func.root package body).at? path = some site)
    (hname : ¬ site.code.IsName)
    (hplain : ∀ front q, front <+: path → (func.root package body).at? front = some q →
      q.code.PlainRange)
    (hu : UniqueIds (stmtsMarks body)) :
    Passes env (stmtsMarks body) [] (visitFunc env func body) site :=
  (visitFunc_passes env package func body).trans (Point.passes_of_at? h hname hplain hu)

/-! ## Packages -/

theorem Package.UniqueIds.of_body {package : Package} (hids : package.UniqueIds) {file : SourceFile}
    {func : FuncDecl} {body : List Stmt} (hfunc : (file, .func func) ∈ package.decls)
    (hbody : func.body = some body) : GoCalls.UniqueIds (stmtsMarks body) := by
  have hmarks : func.marks.Sublist package.marks := by
    rw [package.marks_eq]
    exact List.sublist_flatten_of_mem (List.mem_map_of_mem hfunc)
  have hsub : (stmtsMarks body).Sublist func.marks := by
    rw [FuncDecl.marks, hbody]
    exact List.sublist_append_right _ _
  exact GoCalls.UniqueIds.sublist hids (hsub.trans hmarks)

namespace Index

variable {index : Index} {decls : Declarations} {ds : List (SourceFile × Decl)} {others : List Mark}

theorem visitValues_agreeOn (ha : Apart (ds.flatMap fun d => d.2.marks) others) (progress : Progress) :
    progress.tables.AgreeOn others (index.visitValues decls progress ds).tables :=
  (visitValues_grows (fun _ _ _ _ => keeps_true _) progress
    fun _ _ _ => trivial).tables.agreeOn ha

theorem visitBodies_agreeOn (ha : Apart (ds.flatMap fun d => d.2.marks) others)
    (inferred : Std.TreeMap String Ty) (tables : Tables) :
    tables.AgreeOn others (index.visitBodies decls inferred tables ds) :=
  (visitBodies_grows (fun _ _ _ _ => keeps_true _) (fun _ _ _ => trivial) tables).agreeOn ha

/-- Function bodies play no part in initial values. -/
theorem visitValues_func (progress : Progress) (before after : List (SourceFile × Decl))
    (file : SourceFile) (func : FuncDecl) :
    index.visitValues decls progress (before ++ (file, .func func) :: after) =
      index.visitValues decls (index.visitValues decls progress before) after := by
  unfold visitValues
  rw [List.foldl_append, List.foldl_cons]
  rfl

theorem visitBodies_func {body : List Stmt} {func : FuncDecl} (hbody : func.body = some body)
    (inferred : Std.TreeMap String Ty) (tables : Tables) (before after : List (SourceFile × Decl))
    (file : SourceFile) :
    index.visitBodies decls inferred tables (before ++ (file, .func func) :: after) =
      index.visitBodies decls inferred ((visitFunc (index.fileEnv decls inferred file) func body).run
        { tables := index.visitBodies decls inferred tables before }).2.tables after := by
  unfold visitBodies
  rw [List.foldl_append, List.foldl_cons, checkDeclBody, hbody]

/-- **The tables at a point in a function body** are those that its visit makes. -/
theorem check_passes {package : Package} (hd : index.packages[package.path]? = some decls)
    (hids : package.UniqueIds) {file : SourceFile} {func : FuncDecl} {body : List Stmt}
    (hfunc : (file, .func func) ∈ package.decls) (hbody : func.body = some body) {q : Point}
    (hpass : ∀ env, Passes env (stmtsMarks body) [] (visitFunc env func body) q) :
    ∃ (inferred : Std.TreeMap String Ty) (u : Visit), Covers q.entry u.scopes ∧
      ({} : Tables).AgreeOn q.code.marks u.tables ∧
      ((q.code.visit (index.fileEnv decls inferred file)).run u).2.tables.AgreeOn q.code.marks
        (index.check package) := by
  obtain ⟨before, after, hsplit⟩ := List.append_of_mem hfunc
  have hmarks : UniqueIds (before.flatMap (fun d => d.2.marks) ++
      (func.marks ++ after.flatMap fun d => d.2.marks)) := by
    unfold Package.UniqueIds at hids
    rwa [package.marks_eq, hsplit, List.flatMap_append, List.flatMap_cons] at hids
  let progress := index.visitValues decls {} package.decls
  let env := index.fileEnv decls progress.inferred file
  have hsub : q.code.marks ⊆ func.marks :=
    List.Subset.trans (hpass env).sub.subset (FuncDecl.marks_subset hbody)
  have hbefore : Apart (before.flatMap fun d => d.2.marks) q.code.marks :=
    hmarks.apart.mono (List.Subset.refl _) (List.Subset.trans hsub (List.subset_append_left _ _))
  have hafter : Apart (after.flatMap fun d => d.2.marks) q.code.marks :=
    hmarks.right.apart.symm.mono (List.Subset.refl _) hsub
  have hvalues : ({} : Tables).AgreeOn q.code.marks progress.tables := by
    unfold progress
    rw [hsplit, visitValues_func]
    exact (visitValues_agreeOn hbefore {}).trans (visitValues_agreeOn hafter _)
  let tables := index.visitBodies decls progress.inferred progress.tables before
  have hcheck : index.check package = index.visitBodies decls progress.inferred
      ((visitFunc env func body).run { tables }).2.tables after :=
    calc index.check package
        = index.visitBodies decls progress.inferred progress.tables package.decls := check_eq hd
      _ = index.visitBodies decls progress.inferred progress.tables
            (before ++ (file, .func func) :: after) := by rw [← hsplit]
      _ = _ := visitBodies_func hbody _ _ _ _ _
  obtain ⟨u, hcovers, hu, hvisit⟩ := (hpass env).run { tables } (Covers.nil [])
  refine ⟨progress.inferred, u, hcovers, ?_, hvisit.trans ?_⟩
  · exact hvalues.trans ((visitBodies_agreeOn hbefore _ _).trans hu)
  · rw [hcheck]
    exact visitBodies_agreeOn hafter _ _

end Index

end GoCalls
