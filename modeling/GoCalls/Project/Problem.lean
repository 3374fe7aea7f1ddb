import GoCalls.Build.Header
import GoCalls.Files.Disk
import GoCalls.Source.Lexeme

/-!
# Problems and failures

A `Problem` is what is wrong with one file or directory of a project; a `Failure` is why there is no
result at all.
-/

namespace GoCalls

/-- A message about a place in a file. -/
structure Diagnostic where
  path : OsString
  /-- The line, from one; zero if there is no position. -/
  line : Nat
  column : Nat
  message : String
  deriving DecidableEq

/-- The text of a diagnostic. -/
def Diagnostic.text (d : Diagnostic) : String :=
  let path := Text.lossy d.path
  if d.line = 0 then path ++ ": " ++ d.message
  else path ++ ":" ++ toString d.line ++ ":" ++ toString d.column ++ ": " ++ d.message

/-- What can be wrong with a file or directory. -/
inductive Cause
  /-- The parser gives no tree for the file. -/
  | noTree
  /-- The text is broken at a place. -/
  | syntaxError (spot : Spot)
  | tooDeep (spot : Spot)
  | constraint (reason : HeaderError)
  | noPackage
  /-- Two files of a directory name two packages. -/
  | mixedPackages (package file otherPackage otherFile : String)
  | missingImport (path : String)
  | noModule
  deriving DecidableEq

/-- What is wrong with the file or directory at a path. -/
structure Problem where
  path : OsString
  cause : Cause
  deriving DecidableEq

def Problem.diagnostic (problem : Problem) : Diagnostic :=
  let whole (message : String) : Diagnostic := ⟨problem.path, 0, 0, message⟩
  let start (message : String) : Diagnostic := ⟨problem.path, 1, 1, message⟩
  match problem.cause with
  | .noTree => whole "parser produced no syntax tree"
  | .syntaxError spot => ⟨problem.path, spot.line, spot.column, "syntax error"⟩
  | .tooDeep spot => ⟨problem.path, spot.line, spot.column, "exceeded max nesting depth"⟩
  | .constraint reason => start reason.message
  | .noPackage => start "expected package clause"
  | .mixedPackages package file otherPackage otherFile =>
    whole ("found packages " ++ package ++ " (" ++ file ++ ") and " ++ otherPackage ++ " (" ++
      otherFile ++ ")")
  | .missingImport path => whole ("could not import " ++ path ++ " (package not found)")
  | .noModule => whole "no module directive"

/-- Why there is no result. -/
inductive Failure
  | invalidPath (path : OsString) (reason : FileError)
  | missingModule (root : OsString)
  | problems (list : List Problem)
  | unreadable (path : OsString) (reason : FileError)
  | unwritable (path : OsString) (reason : FileError)
  | invalidSettings (path : OsString)
  | unknownFormat (name : String)
  deriving DecidableEq

namespace Failure

def message : Failure → String
  | .invalidPath path reason => "invalid path " ++ Text.lossy path ++ ": " ++ reason.message
  | .missingModule root => "no go.mod found in " ++ Text.lossy root ++ " or any parent directory"
  | .problems list =>
    "errors found during package loading:\n" ++
      "\n".intercalate (list.map fun p => p.diagnostic.text)
  | .unreadable path reason => "failed to read " ++ Text.lossy path ++ ": " ++ reason.message
  | .unwritable path reason => "failed to write " ++ Text.lossy path ++ ": " ++ reason.message
  | .invalidSettings path => "invalid config " ++ Text.lossy path
  | .unknownFormat name => "unknown output format '" ++ name ++ "' (expected dot or json)"

/-- The message with the reason behind it once more. -/
def report (failure : Failure) : String :=
  match failure with
  | .invalidPath _ reason | .unreadable _ reason => failure.message ++ ": " ++ reason.message
  | _ => failure.message

end Failure

end GoCalls
