import GoCalls.Config.Toml
import GoCalls.Filter
import GoCalls.Project.Problem

/-!
# Settings files

A settings file can say which packages are analyzed, which tags hold and in which format the graph
is written.
-/

namespace GoCalls

structure Settings where
  /-- The packages to analyze, and those to leave out. -/
  included : List String := []
  excluded : List String := []
  tags : List String := []
  format : Option String := none

namespace Settings

/-- The settings with one more entry; unknown keys and values of the wrong kind are refused. -/
def add? (settings : Settings) : String × Toml.Value → Option Settings
  | ("include", .texts items) => some { settings with included := items }
  | ("exclude", .texts items) => some { settings with excluded := items }
  | ("tags", .texts items) => some { settings with tags := items }
  | ("format", .text name) => some { settings with format := some name }
  | _ => none

/-- The settings that a text states. -/
def parse? (text : String) : Option Settings := do
  (← Toml.entries? text).foldlM add? {}

/-- The settings in the file at a path. -/
def load (disk : Disk) (path : OsString) : Except Failure Settings := do
  let text ← (disk.read path).mapError (.unreadable path)
  match parse? text with
  | some settings => return settings
  | none => throw (.invalidSettings path)

/-- The filter that settings ask for. -/
def filter (settings : Settings) : Filter := .ofLists settings.included settings.excluded

end Settings

end GoCalls
