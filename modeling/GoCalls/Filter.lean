import Std.Data.TreeSet
import GoCalls.Text.Blank

/-!
# Package filters

A `Filter` says which packages are analyzed, by their names.
-/

namespace GoCalls

/-- Which packages are analyzed. -/
structure Filter where
  /-- The only packages that are analyzed, if there are any. -/
  included : Std.TreeSet String := ∅
  /-- Packages that are never analyzed. -/
  excluded : Std.TreeSet String := ∅

namespace Filter

open Text

/-- The names in a list with commas between them, without white space around them. -/
def names (list : String) : List String :=
  ((cut (· = ',') list.toList).map trim |>.filter (· ≠ [])).map String.ofList

def ofLists (included excluded : List String) : Filter :=
  { included := Std.TreeSet.ofList included, excluded := Std.TreeSet.ofList excluded }

/-- The filter for two texts that list names. -/
def ofTexts (included excluded : Option String) : Filter :=
  ofLists ((included.map names).getD []) ((excluded.map names).getD [])

/-- The filter with what either of two lists. -/
def merge (a b : Filter) : Filter :=
  { included := b.included.foldl (·.insert ·) a.included
    excluded := b.excluded.foldl (·.insert ·) a.excluded }

/-- Is a package analyzed? -/
def accepts (filter : Filter) (package : String) : Bool :=
  (filter.included.isEmpty || filter.included.contains package) &&
    !filter.excluded.contains package

end Filter

end GoCalls
