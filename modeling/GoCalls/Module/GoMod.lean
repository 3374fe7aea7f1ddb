import GoCalls.Text.Blank

/-!
# Module files

A file `go.mod` names a module and the modules that it requires.

* `modulePath?`: the path of the module.
* `requirements`: the required modules with their versions.
-/

namespace GoCalls

open Text

/-- A required module. -/
structure Requirement where
  path : String
  version : String
  deriving DecidableEq

/-- A line without its comment and the white space around it. -/
def directive (line : List Char) : List Char := trim (before "//".toList line)

/-- The module path that a line gives. -/
def moduleLine? (line : List Char) : Option String := do
  let rest ← after? "module".toList (directive line)
  guard ((rest.head?.map isBlank).getD false)
  let path := strip (· = '"') (trim rest)
  guard (!path.isEmpty)
  return String.ofList path

/-- The module path that a file gives in the first line that does. -/
def modulePath? (text : String) : Option String :=
  (lines text.toList).findSome? moduleLine?

/-- The requirement that a text states: its first two words. -/
def requirement? (spec : List Char) : Option Requirement :=
  match words spec with
  | path :: version :: _ => some ⟨String.ofList (strip (· = '"') path), String.ofList version⟩
  | _ => none

/-- The requirements in some lines; `inside` says whether they start in a block of them. -/
def requirementsIn (inside : Bool) : List (List Char) → List Requirement
  | [] => []
  | line :: rest =>
    let line := directive line
    if inside then
      if line = [')'] then requirementsIn false rest
      else (requirement? line).toList ++ requirementsIn true rest
    else
      match after? "require".toList line with
      | some spec =>
        if trim spec = ['('] then requirementsIn true rest
        else (requirement? spec).toList ++ requirementsIn false rest
      | none => requirementsIn false rest

/-- The requirements that a file states, in their order. -/
def requirements (text : String) : List Requirement := requirementsIn false (lines text.toList)

end GoCalls
