/-!
# Static types

A `Ty` is what the analysis knows about the type of an expression.

* `Ty.stripPointers`: the type behind all pointers.
* `Ty.qualifiedName`: the name under which methods of a type are known.
* `Ty.display`: the text of a type.
-/

namespace GoCalls

/-- A static type. -/
inductive Ty
  /-- A declared type. Types of the language itself have neither a package nor a path. -/
  | named (package path : Option String) (name : String)
  | pointer (target : Ty)
  /-- A struct type without a name. -/
  | struct
  | basic (name : String)
  | slice (elem : Ty)
  | map (key value : Ty)
  | chan (elem : Ty)
  | func (results : List Ty)
  /-- An interface type without a name. -/
  | interface
  /-- The results of a call that has several. -/
  | tuple (items : List Ty)

instance : Inhabited Ty := ⟨.interface⟩

namespace Ty

/-- The type `name` declared in the package `package`, which is imported as `path`. -/
def declared (package path name : String) : Ty := .named (some package) (some path) name

/-- What stands for a type that is not known. -/
def invalid : Ty := .basic "invalid"

/-- The type behind all pointers. -/
def stripPointers : Ty → Ty
  | .pointer t => t.stripPointers
  | t => t

/-- The name under which methods of the type are known, behind any number of pointers. -/
def qualifiedName : Ty → Option String
  | .pointer t => t.qualifiedName
  | .named (some package) _ n => some (package ++ "." ++ n)
  | .named none _ n => some n
  | .struct => some "struct"
  | _ => none

/-- The first of several results, or the type itself. -/
def first : Ty → Ty
  | .tuple (t :: _) => t
  | t => t

mutual

/-- The text of a type. -/
def display : Ty → String
  | .pointer t => "*" ++ display t
  | .slice t => "[]" ++ display t
  | .map k v => "map[" ++ display k ++ "]" ++ display v
  | .chan t => "chan " ++ display t
  | .func _ => "func"
  | .interface => "interface\x7b\x7d"
  | .basic n => n
  | .tuple items => "(" ++ displayAll items ++ ")"
  | .named (some package) _ n => package ++ "." ++ n
  | .named none _ n => n
  | .struct => "struct"

/-- The texts of several types, with commas between them. -/
def displayAll : List Ty → String
  | [] => ""
  | [t] => display t
  | t :: ts => display t ++ ", " ++ displayAll ts

end

end Ty

end GoCalls
