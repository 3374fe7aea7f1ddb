import GoCalls.Syntax
import GoCalls.Typing.Ty
import Std.Data.TreeMap

/-!
# Symbols, tables and packages

A `Symbol` is what an identifier stands for, a `Selection` what a selector picks. The `Tables` of a
package hold both under the numbers of the identifiers and selectors. A `Package` is the files of one
directory, with what is known about their identifiers.
-/

namespace GoCalls

/-- What an identifier can stand for. -/
inductive SymbolKind
  /-- A package, with its own name and its import path. -/
  | package (imported path : String)
  | var
  | const
  | func
  | typeName
  /-- A function of the language itself. -/
  | builtin
  | nil
  deriving DecidableEq

/-- What an identifier stands for. -/
structure Symbol where
  name : String
  /-- The package that declares it; names of the language itself have none. -/
  package : Option String
  kind : SymbolKind
  type : Option Ty

/-- The name of the package that the symbol stands for. -/
def Symbol.importedPackage (symbol : Symbol) : Option String :=
  match symbol.kind with
  | .package imported _ => some imported
  | _ => none

/-- A field or method that is picked from a value or a type. -/
structure Selection where
  recv : Ty
  name : String

/-- What the identifiers and selectors of a package stand for, by their numbers. -/
structure Tables where
  uses : Std.TreeMap Nat Symbol := ∅
  selections : Std.TreeMap Nat Selection := ∅

namespace Tables

/-- The number of entries. -/
def size (tables : Tables) : Nat := tables.uses.size + tables.selections.size

def isEmpty (tables : Tables) : Bool := tables.uses.isEmpty && tables.selections.isEmpty

/-- Record what an identifier stands for; the last record counts. -/
def recordUse (tables : Tables) (id : Nat) (symbol : Symbol) : Tables :=
  { tables with uses := tables.uses.insert id symbol }

/-- Record what a selector picks; the last record counts. -/
def recordSelection (tables : Tables) (id : Nat) (selection : Selection) : Tables :=
  { tables with selections := tables.selections.insert id selection }

end Tables

structure Package where
  name : String
  /-- The import path. -/
  path : String
  dir : OsString := []
  files : List SourceFile
  /-- What identifiers stand for, when it has been determined. -/
  tables : Option Tables := none

end GoCalls
