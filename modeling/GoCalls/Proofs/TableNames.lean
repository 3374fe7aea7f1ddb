import GoCalls.Calls.Callee
import GoCalls.Proofs.IndexTypes

/-!
# Names in the tables of a package

A symbol reaches the tables from a scope, from the declarations of the package, from an import, from
a package whose members are imported, or from the language itself. All of these give a symbol under
its own name, so an entry of the tables has the name that is written at its place.

* **`Index.check_named`**: each entry of the tables is for a mark of the package, with its name.
* `EndsIn`: a qualified name that ends in a given name.
* **`tables_name_syntax`**: the tables agree with the syntax, and so do the callees that selectors
  have by them.
-/

namespace GoCalls

/-! ## Entries -/

theorem Declarations.typed_true (decls : Declarations) : decls.Typed fun _ => True where
  own _ := trivial
  types _ _ _ := ⟨fun _ _ => trivial, fun _ _ => trivial, fun _ _ _ => trivial⟩
  aliases _ _ _ := trivial
  funcs _ _ _ := trivial
  values _ value _ := by
    refine ⟨?_, fun _ _ => trivial⟩
    cases value.1 <;> simp [SymbolKind.Typed]

/-- **Each entry of the tables** has the name that is written there. -/
theorem Index.check_named (index : Index) (package : Package) :
    ({} : Tables).Grows (fun _ => True) (fun _ name symbol => symbol.Typed (fun _ => True) name)
      package.marks (index.check package) := by
  have hclosed : Ty.Closed fun _ => True := by constructor <;> simp
  have hindex : index.Typed fun _ => True := fun _ _ _ _ decls _ => decls.typed_true
  exact Index.check_grows fun decls _ inferred hinferred file =>
    hindex.keeps hclosed decls.typed_true hinferred fun _ _ _ => trivial

variable {index : Index} {package : Package}

theorem Index.mark_of_use {id : Nat} {symbol : Symbol}
    (h : (index.check package).uses[id]? = some symbol) :
    ∃ kind, kind ≠ .selector ∧ ⟨id, symbol.name, kind⟩ ∈ package.marks := by
  obtain ⟨kind, name, hkind, hm, hname⟩ := (index.check_named package).of_use h
  exact ⟨kind, hkind, by rwa [hname.1.1]⟩

theorem Index.mark_of_selection {id : Nat} {selection : Selection}
    (h : (index.check package).selections[id]? = some selection) :
    ⟨id, selection.name, .selector⟩ ∈ package.marks :=
  ((index.check_named package).of_selection h).1

/-! ## Callees -/

/-- A qualified name ends in a name: it is this name, or has it after a dot. -/
def EndsIn (name qualified : String) : Prop :=
  qualified = name ∨ ∃ front, qualified = front ++ "." ++ name

theorem plainSelector_endsIn (ctx : Context) (x : Expr) (sel : Ident) :
    EndsIn sel.name (plainSelector ctx x sel) := by
  unfold plainSelector
  cases x.ident? with
  | none => exact .inl rfl
  | some i => exact .inr ⟨_, rfl⟩

/-- A callee is named by a selection or by the text. -/
theorem typedSelector?_endsIn {tables : Tables} {id : Nat} {x : Expr} {sel : Ident} {name : String}
    (hsel : ∀ selection, tables.selections[id]? = some selection → selection.name = sel.name)
    (h : typedSelector? tables id x sel = some name) : EndsIn sel.name name := by
  rw [typedSelector?, Option.orElse_eq_orElse, Option.orElse_eq_or, Option.or_eq_some_iff] at h
  rcases h with hselected | ⟨-, hused⟩
  · obtain ⟨selection, hs, hselected⟩ := Option.bind_eq_some_iff.mp hselected
    obtain ⟨recv, -, hname⟩ := Option.bind_eq_some_iff.mp hselected
    obtain rfl := Option.some.inj hname
    exact .inr ⟨recv, by rw [hsel selection hs]⟩
  · obtain ⟨i, -, hused⟩ := Option.bind_eq_some_iff.mp hused
    obtain ⟨symbol, -, hused⟩ := Option.bind_eq_some_iff.mp hused
    obtain ⟨front, -, hname⟩ := Option.bind_eq_some_iff.mp hused
    obtain rfl := Option.some.inj hname
    exact .inr ⟨front, rfl⟩

/-- **Tables agree with the syntax**: each entry has the name that is written at its place, and so
has the callee of a selector. -/
theorem tables_name_syntax (index : Index) (package : Package) :
    let tables := index.check package
    (∀ (id : Nat) (symbol : Symbol), tables.uses[id]? = some symbol →
      ∃ kind, kind ≠ .selector ∧ ⟨id, symbol.name, kind⟩ ∈ package.marks) ∧
    (∀ (id : Nat) (selection : Selection), tables.selections[id]? = some selection →
      ⟨id, selection.name, .selector⟩ ∈ package.marks) ∧
    (package.UniqueIds → ∀ (id : Nat) (x : Expr) (sel : Ident),
      ⟨id, sel.name, .selector⟩ ∈ package.marks → ∀ ctx : Context, ∃ name,
        callee? (some tables) ctx (.selector id x sel) = some ⟨name, false⟩ ∧
          EndsIn sel.name name) := by
  refine ⟨fun _ _ => Index.mark_of_use, fun _ _ => Index.mark_of_selection, ?_⟩
  intro hids id x sel hmark ctx
  refine ⟨_, rfl, ?_⟩
  have hsel : ∀ selection, (index.check package).selections[id]? = some selection →
      selection.name = sel.name := by
    intro selection hs
    exact congrArg Mark.name (hids.eq (Index.mark_of_selection hs) hmark rfl)
  rw [Option.bind_some]
  cases htyped : typedSelector? (index.check package) id x sel with
  | none => exact plainSelector_endsIn ctx x sel
  | some name => exact typedSelector?_endsIn hsel htyped

/-- A package with a function, and a type with a method. -/
def toolkit : Package where
  name := "tools"
  path := "example.com/tools"
  files := [{ path := "tools.go", package := "tools", imports := [], decls := [
    .type ⟨⟨0, "Kit"⟩, .struct [], false⟩,
    .func { name := ⟨1, "Run"⟩, recv := none, params := [], results := [], body := some [] },
    .func
      { name := ⟨2, "Open"⟩, recv := some ⟨none, .name none "Kit"⟩, params := [], results := []
        body := some [] }] }]

/-- A package that imports it in two ways. Its function is
`func main(k tools.Kit) { println(main, Run); k.Open(); tools.Run() }`. -/
def workshop : Package where
  name := "main"
  path := "example.com/workshop"
  files := [{ path := "main.go", package := "main"
              imports := [⟨none, "example.com/tools"⟩, ⟨some ".", "example.com/tools"⟩]
              decls := [
    .func
      { name := ⟨0, "main"⟩, recv := none, params := [⟨[⟨1, "k"⟩], .name (some "tools") "Kit"⟩]
        results := [], body := some [
          .expr (.call (.ident ⟨2, "println"⟩) [.ident ⟨3, "main"⟩, .ident ⟨4, "Run"⟩]),
          .expr (.call (.selector 5 (.ident ⟨6, "k"⟩) ⟨7, "Open"⟩) []),
          .expr (.call (.selector 8 (.ident ⟨9, "tools"⟩) ⟨10, "Run"⟩) [])] }] }]

/-- The uses come from all five sources, and `k` is bound to a closure. -/
theorem tables_name_syntax_workshop :
    let tables := (Index.ofPackages [toolkit, workshop]).check workshop
    workshop.UniqueIds ∧
      [2, 3, 4, 6, 9].map (fun id => tables.uses[id]?.map (·.name)) =
        ["println", "main", "Run", "k", "tools"].map some ∧
      (∀ (id : Nat) (symbol : Symbol), tables.uses[id]? = some symbol →
        ∃ kind, kind ≠ .selector ∧ ⟨id, symbol.name, kind⟩ ∈ workshop.marks) ∧
      ∃ name, callee? (some tables) ⟨"main", "main.main", [("k", "main.main.k")]⟩
        (.selector 5 (.ident ⟨6, "k"⟩) ⟨7, "Open"⟩) = some ⟨name, false⟩ ∧ EndsIn "Open" name := by
  have hids : workshop.UniqueIds := by
    unfold Package.UniqueIds UniqueIds
    decide
  obtain ⟨huses, -, hcallee⟩ :=
    tables_name_syntax (Index.ofPackages [toolkit, workshop]) workshop
  exact ⟨hids, rfl, huses, hcallee hids 5 _ ⟨7, "Open"⟩ (by decide) _⟩

end GoCalls
