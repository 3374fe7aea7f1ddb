import GoCalls.Calls.Scan
import GoCalls.Proofs.IndexTypes
import Mathlib.Logic.Function.Iterate

/-!
# The names of methods

A method has one name where it is declared, from the text of the declaration, and one where it is
called, from the type of the receiver. They are the same, since a declared type always carries the
name of the package with its path, however the type was reached.

* `Ty.Occurs`: a type inside a type, at any depth.
* `Ty.Labeled`: declared types of known packages carry the names of these packages.
* **`Index.check_labeled`**: all types in the tables of a package are labeled.
* **`method_call_names_declaration`**: calls and declarations agree.
-/

namespace GoCalls

/-! ## Labeled types -/

/-- A type occurs in a type, at any depth. -/
inductive Ty.Occurs (s : Ty) : Ty → Prop
  | here : Occurs s s
  | pointer {t : Ty} : Occurs s t → Occurs s (.pointer t)
  | slice {t : Ty} : Occurs s t → Occurs s (.slice t)
  | chan {t : Ty} : Occurs s t → Occurs s (.chan t)
  | mapKey {k v : Ty} : Occurs s k → Occurs s (.map k v)
  | mapValue {k v : Ty} : Occurs s v → Occurs s (.map k v)
  | func {t : Ty} {ts : List Ty} : t ∈ ts → Occurs s t → Occurs s (.func ts)
  | tuple {t : Ty} {ts : List Ty} : t ∈ ts → Occurs s t → Occurs s (.tuple ts)

/-- Each declared type that occurs in a type carries the name of its package, if that is known. -/
def Ty.Labeled (names : Std.TreeMap String String) (t : Ty) : Prop :=
  ∀ (package : Option String) (path name : String), (Ty.named package (some path) name).Occurs t →
    ∀ known, names[path]? = some known → package = some known

variable {names : Std.TreeMap String String}

theorem Ty.labeled_declared {package path name : String} :
    (Ty.declared package path name).Labeled names ↔
      ∀ known, names[path]? = some known → package = known := by
  constructor
  · intro h known hknown
    exact Option.some.inj (h _ _ _ .here known hknown)
  · intro h package' path' name' ho known hknown
    cases ho
    rw [h known hknown]

theorem Ty.occurs_closed (N : Option String → String → Prop) :
    Ty.Closed fun t => ∀ package path name, (Ty.named package (some path) name).Occurs t →
      N package path where
  basic name _ _ _ ho := by cases ho
  error _ _ _ ho := by cases ho
  struct _ _ _ ho := by cases ho
  interface _ _ _ ho := by cases ho
  pointer {t} := by
    refine ⟨fun h _ _ _ ho => h _ _ _ ho.pointer, fun h _ _ _ ho => ?_⟩
    cases ho with
    | pointer ho => exact h _ _ _ ho
  slice {t} := by
    refine ⟨fun h _ _ _ ho => h _ _ _ ho.slice, fun h _ _ _ ho => ?_⟩
    cases ho with
    | slice ho => exact h _ _ _ ho
  chan {t} := by
    refine ⟨fun h _ _ _ ho => h _ _ _ ho.chan, fun h _ _ _ ho => ?_⟩
    cases ho with
    | chan ho => exact h _ _ _ ho
  map {k v} := by
    refine ⟨fun h => ⟨fun _ _ _ ho => h _ _ _ ho.mapKey, fun _ _ _ ho => h _ _ _ ho.mapValue⟩, ?_⟩
    rintro ⟨hkey, hvalue⟩ _ _ _ ho
    cases ho with
    | mapKey ho => exact hkey _ _ _ ho
    | mapValue ho => exact hvalue _ _ _ ho
  func {ts} := by
    refine ⟨fun h t ht _ _ _ ho => h _ _ _ (ho.func ht), fun h _ _ _ ho => ?_⟩
    cases ho with
    | func ht ho => exact h _ ht _ _ _ ho
  tuple {ts} := by
    refine ⟨fun h t ht _ _ _ ho => h _ _ _ (ho.tuple ht), fun h _ _ _ ho => ?_⟩
    cases ho with
    | tuple ht ho => exact h _ ht _ _ _ ho

theorem Ty.labeled_closed : Ty.Closed (Ty.Labeled names) :=
  Ty.occurs_closed fun package path => ∀ known, names[path]? = some known → package = some known

theorem namesTyped_labeled (names : Std.TreeMap String String) :
    NamesTyped (Ty.Labeled names) names := by
  intro path name
  refine Ty.labeled_declared.mpr fun known hknown => ?_
  rw [hknown, Option.getD_some]

/-! ## Names -/

theorem Ty.qualifiedName_of_stripPointers {t : Ty} {package name : String} {path : Option String}
    (h : t.stripPointers = .named (some package) path name) :
    t.qualifiedName = some (package ++ "." ++ name) := by
  fun_induction Ty.stripPointers t with
  | case1 t ih => exact ih h
  | case2 t _ =>
    rw [h]
    rfl

theorem Ty.Occurs.of_stripPointers {s t : Ty} (h : t.stripPointers = s) : s.Occurs t := by
  fun_induction Ty.stripPointers t with
  | case1 t ih => exact (ih h).pointer
  | case2 t _ => exact h ▸ .here

theorem typedSelector?_of_selection {tables : Tables} {id : Nat} {selection : Selection}
    (h : tables.selections[id]? = some selection) {recv : String}
    (hrecv : selection.recv.qualifiedName = some recv) (x : Expr) (sel : Ident) :
    typedSelector? tables id x sel = some (recv ++ "." ++ selection.name) := by
  simp [typedSelector?, h, hrecv]

theorem baseName_iterate_pointer (k : Nat) (t : TypeExpr) :
    (TypeExpr.pointer^[k] t).baseName = t.baseName := by
  induction k generalizing t with
  | zero => rfl
  | succ k ih => exact ih (.pointer t)

theorem FuncDecl.qualifiedName_of_recv {func : FuncDecl} {recv : Receiver} {k : Nat}
    {qualifier : Option String} {typeName : String} (hrecv : func.recv = some recv)
    (htype : recv.type = TypeExpr.pointer^[k] (.name qualifier typeName))
    (package : String) :
    func.qualifiedName package = package ++ "." ++ typeName ++ "." ++ func.name.name := by
  have hname : recv.typeName = some typeName := by
    rw [Receiver.typeName, htype, baseName_iterate_pointer]
    rfl
  rw [FuncDecl.qualifiedName, hrecv, Option.bind_some, hname]

/-! ## Tables -/

variable {packages : List Package} (hpaths : (packages.map (·.path)).Nodup)

include hpaths

theorem Index.ofPackages_labeled :
    (Index.ofPackages packages).Typed (Ty.Labeled (Index.ofPackages packages).names) := by
  refine Index.ofPackages_typed Ty.labeled_closed fun p hp _ _ _ =>
    ⟨fun file _ => (namesTyped_labeled _).imports file, fun name => ?_⟩
  refine Ty.labeled_declared.mpr fun known hknown => ?_
  rw [Index.names_ofPackages hpaths hp] at hknown
  exact Option.some.inj hknown

/-- **All types in the tables of a package** carry names of packages. -/
theorem Index.check_labeled (package : Package) :
    ({} : Tables).Grows (Ty.Labeled (Index.ofPackages packages).names)
      (fun _ name symbol => symbol.Typed (Ty.Labeled (Index.ofPackages packages).names) name)
      package.marks ((Index.ofPackages packages).check package) := by
  have htyped := Index.ofPackages_labeled hpaths
  refine Index.check_grows fun decls hd inferred hi file => ?_
  have hdecls := htyped _ package.path "" (namesTyped_labeled _ _ _) decls hd
  exact htyped.keeps Ty.labeled_closed hdecls hi ((namesTyped_labeled _).imports file)

/-! ## Calls and declarations -/

/-- What is selected has the name that is written. -/
theorem Index.selection_name {package : Package} (hids : package.UniqueIds) {id : Nat} {name : String}
    (hmark : ⟨id, name, .selector⟩ ∈ package.marks) {selection : Selection}
    (hsel : ((Index.ofPackages packages).check package).selections[id]? = some selection) :
    selection.name = name := by
  have hm := ((Index.check_labeled hpaths package).of_selection hsel).1
  exact congrArg Mark.name (hids.eq hm hmark rfl)

/-- **A method call and the declaration of the method have one name**, if the type is declared in a
known package. -/
theorem method_call_names_declaration (package : Package) (hids : package.UniqueIds) {owner : Package}
    (howner : owner ∈ packages) :
    let tables := (Index.ofPackages packages).check package
    (∀ (id : Nat) (symbol : Symbol) (t : Ty) (label : Option String) (name : String),
      tables.uses[id]? = some symbol → symbol.type = some t →
        (Ty.named label (some owner.path) name).Occurs t → label = some owner.name) ∧
    (∀ (id : Nat) (selection : Selection) (label : Option String) (name : String),
      tables.selections[id]? = some selection →
        (Ty.named label (some owner.path) name).Occurs selection.recv → label = some owner.name) ∧
    ∀ method ∈ owner.funcs, ∀ (recv : Receiver) (k : Nat) (typeName : String),
      method.recv = some recv → recv.type = TypeExpr.pointer^[k] (.name none typeName) →
      ∀ (id : Nat) (x : Expr) (sel : Ident) (selection : Selection) (label : Option String),
        ⟨id, sel.name, .selector⟩ ∈ package.marks → sel.name = method.name.name →
        tables.selections[id]? = some selection →
        selection.recv.stripPointers = .named label (some owner.path) typeName →
        ∀ ctx, callee? (some tables) ctx (.selector id x sel) =
          some ⟨method.qualifiedName owner.name, false⟩ := by
  intro tables
  have hgrows := Index.check_labeled hpaths package
  have hname := Index.names_ofPackages hpaths howner
  have hselections : ∀ (id : Nat) (selection : Selection) (label : Option String) (name : String),
      tables.selections[id]? = some selection →
      (Ty.named label (some owner.path) name).Occurs selection.recv → label = some owner.name := by
    intro id selection label name hsel ho
    exact (hgrows.of_selection hsel).2 _ _ _ ho _ hname
  refine ⟨?_, hselections, ?_⟩
  · intro id symbol t label name huse ht ho
    obtain ⟨_, _, -, -, -, hknown⟩ := hgrows.of_use huse
    exact hknown t ht _ _ _ ho _ hname
  · intro method _ recv k typeName hrecv htype id x sel selection label hmark hmethod hsel hstrip ctx
    have hlabel := hselections id selection label typeName hsel (.of_stripPointers hstrip)
    have hqualified := Ty.qualifiedName_of_stripPointers (hlabel ▸ hstrip)
    have hselected := Index.selection_name hpaths hids hmark hsel
    rw [callee?, Option.bind_some, typedSelector?_of_selection hsel hqualified, Option.getD_some,
      hselected, hmethod, FuncDecl.qualifiedName_of_recv hrecv htype]

omit hpaths

/-- A package whose name is not the end of its path, with a method behind two pointers. -/
def shelves : Package where
  name := "store"
  path := "example.com/kv-store"
  files := [{ path := "store.go", package := "store", imports := [], decls := [
    .type ⟨⟨0, "Box"⟩, .struct [.mk (some "shelf") (.pointer (.name none "Shelf"))], false⟩,
    .type ⟨⟨1, "Shelf"⟩, .struct [], false⟩,
    .func
      { name := ⟨2, "Get"⟩, recv := some ⟨none, .pointer (.pointer (.name none "Shelf"))⟩
        params := [], results := [], body := some [] }] }]

/-- A package that calls the method on a field of a value, under another local name. -/
def reader : Package where
  name := "main"
  path := "example.com/reader"
  files := [{ path := "main.go", package := "main", imports := [⟨some "s", "example.com/kv-store"⟩]
              decls := [
    .func
      { name := ⟨0, "main"⟩, recv := none, params := [⟨[⟨1, "b"⟩], .name (some "s") "Box"⟩]
        results := [], body := some [.expr
          (.call (.selector 2 (.selector 3 (.ident ⟨4, "b"⟩) ⟨5, "shelf"⟩) ⟨6, "Get"⟩) [])] }] }]

/-- The call of a method through a field. -/
theorem method_call_names_declaration_field :
    reader.UniqueIds ∧ ([shelves, reader].map (·.path)).Nodup ∧
      ((Index.ofPackages [shelves, reader]).check reader).selections[2]? =
        some ⟨.pointer (.declared "store" "example.com/kv-store" "Shelf"), "Get"⟩ ∧
      callee? (some ((Index.ofPackages [shelves, reader]).check reader)) ⟨"main", "main.main", []⟩
        (.selector 2 (.selector 3 (.ident ⟨4, "b"⟩) ⟨5, "shelf"⟩) ⟨6, "Get"⟩) =
        some ⟨"store.Shelf.Get", false⟩ := by
  have hids : reader.UniqueIds := by
    unfold Package.UniqueIds UniqueIds
    decide
  have hpaths : ([shelves, reader].map (·.path)).Nodup := by decide
  have hcall := (method_call_names_declaration hpaths reader hids List.mem_cons_self).2.2 _
    List.mem_cons_self _ 2 "Shelf" rfl rfl 2 (.selector 3 (.ident ⟨4, "b"⟩) ⟨5, "shelf"⟩) ⟨6, "Get"⟩
    ⟨.pointer (.declared "store" "example.com/kv-store" "Shelf"), "Get"⟩ (some "store")
    (by decide) rfl rfl rfl ⟨"main", "main.main", []⟩
  exact ⟨hids, hpaths, rfl, hcall⟩

end GoCalls
