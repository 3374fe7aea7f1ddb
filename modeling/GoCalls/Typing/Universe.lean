import GoCalls.Typing.Symbol

/-!
# The names of the language itself

The functions, types and constants that are known in every file without a declaration.
-/

namespace GoCalls.Universe

def builtinFuncs : List String :=
  ["append", "cap", "clear", "close", "complex", "copy", "delete", "imag", "len", "make", "max",
    "min", "new", "panic", "print", "println", "real", "recover"]

def basicTypes : List String :=
  ["bool", "byte", "complex64", "complex128", "float32", "float64", "int", "int8", "int16", "int32",
    "int64", "rune", "string", "uint", "uint8", "uint16", "uint32", "uint64", "uintptr"]

/-- The predeclared type with a given name. -/
def type? (name : String) : Option Ty :=
  if name = "error" then some (.named none none "error")
  else if name = "any" || name = "comparable" then some .interface
  else if basicTypes.contains name then some (.basic name)
  else none

/-- The predeclared symbol with a given name. -/
def symbol? (name : String) : Option Symbol :=
  if builtinFuncs.contains name then some ⟨name, none, .builtin, none⟩
  else if name = "nil" then some ⟨name, none, .nil, none⟩
  else if name = "true" || name = "false" then some ⟨name, none, .const, some (.basic "bool")⟩
  else if name = "iota" then some ⟨name, none, .const, some (.basic "int")⟩
  else (type? name).map fun t => ⟨name, none, .typeName, some t⟩

/-- The type of a call of a predeclared function, from the types of its arguments. -/
def builtinResult (name : String) (args : List (Option Ty)) : Option Ty :=
  let first := args.head?.join
  if name = "new" then first.map .pointer
  else if ["make", "append", "min", "max"].contains name then first
  else if ["len", "cap", "copy"].contains name then some (.basic "int")
  else if name = "recover" then some .interface
  else if ["real", "imag"].contains name then some (.basic "float64")
  else if name = "complex" then some (.basic "complex128")
  else none

end GoCalls.Universe
