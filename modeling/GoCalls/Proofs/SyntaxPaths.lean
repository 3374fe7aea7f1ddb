import GoCalls.Proofs.LoweredFiles
import GoCalls.Source.Grammar.Stmts

/-!
# Paths in the syntax of a file

However deep a tree is and however long its chains of operators are, the syntax of a file that is
accepted is shallow, and its chains are flat.

* **`shallow_of_lowerFile`**: all files that are accepted.
-/

namespace GoCalls

open Syntactic

/-- **A file that is accepted is shallow**: two nodes for each level that is allowed and two more.
Its chains of operators are flat. -/
theorem shallow_of_lowerFile {path : OsString} {tree : ParseTree} {next next' : Nat}
    {file : SourceFile} (h : lowerFile path tree next = (.ok file, next'))
    {nodes : List SyntaxNode} (hnodes : file.IsPath nodes) :
    nodes.length ≤ 2 * maxNesting + 2 ∧ ∀ operands, .expr (.binary operands) ∈ nodes →
      2 ≤ operands.length ∧
        (tree.hasPlainOperands → ∀ inner, operands.head? ≠ some (.binary inner)) := by
  have hfits := (isLowered tree.hasPlainOperands id h).fits
  cases nodes with
  | nil => exact ⟨Nat.zero_le _, nofun⟩
  | cons c nodes =>
    obtain ⟨hlength, hflat⟩ := (hfits c (hnodes.top c rfl)).path hnodes.inside
    exact ⟨hlength, fun operands hmem => hflat _ hmem⟩

/-- A variable is set to a chain of three operands, the second of which is a chain. -/
def Decl.isNestedChain : Decl → Bool
  | .var (.mk _ none [.binary [_, .binary _, _]]) => true
  | _ => false

/-- The tree of a chain with another one among its operands, which binds tighter. -/
def precedenceTree : ParseTree := parseSource "package p\nvar v = a + b * c - d\n"

theorem shallow_of_lowerFile_precedence :
    precedenceTree.hasPlainOperands ∧
      ∃ (file : SourceFile) (next : Nat) (first last : Expr) (inner : List Expr),
        lowerFile "p.go" precedenceTree 0 = (.ok file, next) ∧
          file.IsPath [.expr (.binary [first, .binary inner, last]), .expr (.binary inner)] ∧
          2 ≤ 2 * maxNesting + 2 ∧ 2 ≤ inner.length ∧ ∀ operands, first ≠ .binary operands := by
  have hplain : precedenceTree.hasPlainOperands := by decide +kernel
  have hchain : ((lowerFile "p.go" precedenceTree 0).1.toOption.map
      fun file => file.decls.any Decl.isNestedChain) = some true := by
    decide +kernel
  refine ⟨hplain, ?_⟩
  rcases hok : lowerFile "p.go" precedenceTree 0 with ⟨_ | file, next⟩
  · rw [hok] at hchain
    cases hchain
  · rw [hok] at hchain
    obtain ⟨decl, hdecl, hshape⟩ := List.any_eq_true.mp (Option.some.inj hchain)
    unfold Decl.isNestedChain at hshape
    split at hshape
    · next names first inner last =>
      have hpath : file.IsPath [.expr (.binary [first, .binary inner, last]),
          .expr (.binary inner)] :=
        { top := by
            rintro _ ⟨⟩
            exact List.mem_flatMap.mpr ⟨_, hdecl, List.mem_cons_self⟩
          inside := List.isChain_pair.mpr (List.mem_cons_of_mem _ List.mem_cons_self) }
      obtain ⟨hlength, hflat⟩ := shallow_of_lowerFile hok hpath
      refine ⟨file, next, first, last, inner, rfl, hpath, hlength, ?_, fun operands hfirst => ?_⟩
      · exact (hflat inner (List.mem_cons_of_mem _ List.mem_cons_self)).1
      · exact (hflat _ List.mem_cons_self).2 hplain operands (congrArg some hfirst)
    · cases hshape

end GoCalls
