import GoCalls.Build.Constraint
import GoCalls.Build.Platform

/-!
# The header of a file

The header of a file is its lines up to the first one with code. Comments in it can hold
constraints, in two forms: one line `//go:build` with an expression, or lines `+build` with options,
which count only before a blank line of the header, and only where there is no `//go:build`.

* `headerLines`: the lines of a header.
* `Platform.matchesSource`: does a file take part in the build, as far as its text says?
-/

namespace GoCalls

open Text

/-- A line of a header outside block comments. -/
inductive HeaderLine
  | blank
  /-- A constraint as an expression. -/
  | build (expr : List Char)
  /-- A constraint as a list of options. -/
  | plusBuild (options : List (List Char))
  | comment
  deriving DecidableEq

/-- Why the header of a file is refused. -/
inductive HeaderError
  | repeated
  | malformed (reason : Constraint.Error)
  deriving DecidableEq

def HeaderError.message : HeaderError → String
  | .repeated => "multiple //go:build comments"
  | .malformed reason => "parsing //go:build line: " ++ reason.message

/-- The expression after `go:build`, which ends there or goes on after a blank or a tab. -/
def buildExpr? (comment : List Char) : Option (List Char) :=
  match after? "go:build".toList comment with
  | some [] => some []
  | some (c :: rest) => if c = ' ' || c = '\t' then some (c :: rest) else none
  | none => none

/-- The line for a line comment, whose text is given. -/
def commentLine (comment : List Char) : HeaderLine :=
  match buildExpr? comment with
  | some expr => .build expr
  | none =>
    match words comment with
    | word :: options => if word = "+build".toList then .plusBuild options else .comment
    | [] => .comment

/-- The lines of the header outside block comments; `inside` says whether the text starts in one. -/
def headerLines (inside : Bool) : List (List Char) → List HeaderLine
  | [] => []
  | line :: rest =>
    let line := trim line
    let close (text : List Char) : List HeaderLine :=
      match beyond? "*/".toList text with
      | some after => if trim after = [] then headerLines false rest else []
      | none => headerLines true rest
    if inside then close line
    else if line = [] then .blank :: headerLines false rest
    else
      match after? "//".toList line, after? "/*".toList line with
      | some comment, _ => commentLine comment :: headerLines false rest
      | none, some text => close text
      | none, none => []

/-- The lines of the header of a text, which may start with a byte order mark. -/
def header (text : List Char) : List HeaderLine :=
  headerLines false (lines ((after? ['\uFEFF'] text).getD text))

/-- The constraints that stand as expressions. -/
def buildExprs (header : List HeaderLine) : List (List Char) :=
  header.filterMap fun
    | .build expr => some expr
    | _ => none

/-- The lists of options that a blank line follows. -/
def plusBuilds : List HeaderLine → List (List (List Char))
  | [] => []
  | .plusBuild options :: rest =>
    if rest.contains .blank then options :: plusBuilds rest else []
  | _ :: rest => plusBuilds rest

namespace Platform

/-- Does a term of an option hold: a tag, or a tag that must not hold after `!`? -/
def termHolds (platform : Platform) (term : List Char) : Bool :=
  match after? ['!'] term with
  | some tag => Constraint.isTag tag && !platform.hasTag (String.ofList tag)
  | none => Constraint.isTag term && platform.hasTag (String.ofList term)

/-- Does an option hold? All its terms must, between which there are commas. -/
def optionHolds (platform : Platform) (option : List Char) : Bool :=
  (cut (· = ',') option).all platform.termHolds

/-- Does a file take part in the build, as far as its text says? -/
def matchesSource (platform : Platform) (text : String) : Except HeaderError Bool :=
  let header := header text.toList
  match buildExprs header with
  | [] => .ok ((plusBuilds header).all (·.any platform.optionHolds))
  | [expr] =>
    ((Constraint.parse expr).map (Constraint.eval platform.hasTag)).mapError .malformed
  | _ => .error .repeated

end Platform

end GoCalls
