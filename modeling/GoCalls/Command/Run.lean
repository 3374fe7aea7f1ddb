import GoCalls.Command.Options
import GoCalls.Config.Settings
import GoCalls.Graph.Format
import GoCalls.Project.Load
import GoCalls.Source.Grammar.Stmts

/-!
# The command

`Command.run` is the whole command: it reads the arguments, analyzes the project and writes its call
graph, on a given file tree and environment.
-/

namespace GoCalls.Command

def usage : String :=
  "Static call graph generator for Go modules\n\n" ++
  "Usage: callgraph [OPTIONS] [PROJECT_DIR]\n\n" ++
  "Arguments:\n" ++
  "  [PROJECT_DIR]  Go project directory (inside a module)\n\n" ++
  "Options:\n" ++
  "      --include <INCLUDE>  Comma-separated package names to analyze (default: all)\n" ++
  "      --exclude <EXCLUDE>  Comma-separated package names to skip\n" ++
  "  -f, --format <FORMAT>    Output format (dot, json)\n" ++
  "      --tags <TAGS>        Extra build tags, comma-separated (GOOS / GOARCH come from the " ++
    "environment)\n" ++
  "  -o, --output <OUTPUT>    Write the graph to this file instead of stdout\n" ++
  "      --config <CONFIG>    TOML file with include / exclude / format\n" ++
  "  -j, --jobs <JOBS>        Parser worker threads (default: half the cores)\n" ++
  "  -v, --verbose...         Increase log verbosity (-v info, -vv debug, -vvv trace)\n" ++
  "  -h, --help               Print help\n" ++
  "  -V, --version            Print version\n"

def version : String := "callgraph 0.1.0\n"

/-- What a run of the command does. -/
inductive Outcome
  /-- It prints a text. -/
  | printed (text : String)
  /-- It writes a file. -/
  | written (path text : String)
  /-- There is no project, so it prints how it is used. -/
  | noProject
  | failed (failure : Failure)
  /-- The arguments make no sense. -/
  | misuse

/-- The exit code of a run. -/
def Outcome.exitCode : Outcome → Nat
  | .printed _ | .written _ _ => 0
  | .noProject | .failed _ => 1
  | .misuse => 2

/-- What a run prints on the standard output. -/
def Outcome.output : Outcome → String
  | .printed text => text
  | .noProject => usage
  | _ => ""

/-- The format with a name. -/
def parseFormat (name : String) : Except Failure Format :=
  (Format.ofName name).mapError .unknownFormat

/-- The plan of a run: what the options and the settings file come to. -/
structure Plan where
  filter : Filter
  format : Format
  platform : Platform

/-- Options and settings file together. Filters and tags of both count; the format of the options
wins. -/
def plan (disk : Disk) (env : String → Option String) (options : Options) :
    Except Failure Plan := do
  let settings ← match options.config with
    | some path => Settings.load disk path
    | none => pure {}
  let format ← parseFormat ((options.format <|> settings.format).getD "dot")
  return {
    filter := settings.filter.merge (.ofTexts options.included options.excluded)
    format
    platform := (Platform.ofEnvironment env).withTags
      (settings.tags ++ (options.tags.map tagList).getD []) }

/-- The text of the call graph of the project in `dir`. -/
def graphText (disk : Disk) (env : String → Option String) (options : Options)
    (dir : String) : Except Failure String := do
  let plan ← plan disk env options
  let graph ← analyze (some ∘ parseSource) disk plan.platform (Roots.discover disk env) plan.filter
    dir
  return plan.format.render graph

/-- Run the command. The file tree afterwards is given too. -/
def run (disk : Disk) (env : String → Option String) (args : List String) : Outcome × Disk :=
  match Request.ofArgs args with
  | .help => (.printed usage, disk)
  | .version => (.printed version, disk)
  | .misuse => (.misuse, disk)
  | .run options =>
    match options.projectDir with
    | none => (.noProject, disk)
    | some dir =>
      match graphText disk env options dir, options.output with
      | .error failure, _ => (.failed failure, disk)
      | .ok text, none => (.printed text, disk)
      | .ok text, some path =>
        match disk.write path text with
        | .ok disk => (.written path text, disk)
        | .error reason => (.failed (.unwritable path reason), disk)

end GoCalls.Command
