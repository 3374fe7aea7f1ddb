import GoCalls.Command.Run

/-!
# The program

The program copies the part of the file system that a run needs into a `Disk`, and then runs the
command on it. Files whose names are no texts are out of its reach.
-/

namespace GoCalls.Program

/-- The place that an absolute path names. -/
def placeOf (path : OsString) : Place := (Path.components path).tail

/-- The real path of a file or directory, if it exists. -/
def realPath? (path : String) : IO (Option String) := do
  try return some (← IO.FS.realPath path).toString
  catch _ => return none

/-- The text of a file, if it can be read and is one. -/
def text? (path : OsString) : IO (Option String) := do
  try return String.fromUTF8? (← IO.FS.readBinFile (Text.lossy path))
  catch _ => return none

/-- What stands at a path, behind all links. -/
def kind? (path : OsString) : IO (Option IO.FS.FileType) := do
  try return some (← (← IO.FS.realPath (Text.lossy path)).metadata).type
  catch _ => return none

/-- Is a file read for its text? -/
def isRead (name : String) : Bool := name.endsWith ".go" || name = "go.mod"

/-- The disk with the entries of a directory, down to `depth` levels. Links are not followed. -/
def copyDir (disk : Disk) (dir : OsString) : (depth : Nat) → IO Disk
  | 0 => return disk.addDir [] (placeOf dir)
  | depth + 1 => do
    let mut disk := disk.addDir [] (placeOf dir)
    let entries ← try (← IO.FS.realPath (Text.lossy dir)).readDir catch _ => pure #[]
    for entry in entries do
      let path := Path.join dir entry.fileName
      let kind ← try pure (some (← entry.path.symlinkMetadata).type) catch _ => pure none
      match kind with
      | some .dir => disk ← copyDir disk path depth
      | some .file =>
        let text ← if isRead entry.fileName then text? path else pure none
        disk := disk.addFile (placeOf path) text
      | _ => pure ()
    return disk

/-- The disk with one file or empty directory, if it is there. -/
def copyFile (disk : Disk) (path : OsString) : IO Disk := do
  match ← kind? path with
  | some .file => return disk.addFile (placeOf path) (← text? path)
  | some .dir => return disk.addDir [] (placeOf path)
  | _ => return disk

/-- How deeply directories are copied. -/
def maxLevels : Nat := 1000

/-- The disk with the module around a directory: the module files above it, and all that the nearest
directory with one holds. -/
def copyModule (disk : Disk) (root : OsString) : IO Disk := do
  let mut disk := disk
  for dir in Path.ancestors root do
    disk ← copyFile disk (Path.join dir "go.mod")
  let top := match findModule disk root with
    | .ok m => m.dir
    | .error _ => root
  copyDir disk top maxLevels

/-- The disk with the sources of packages that a project imports from outside its module. -/
def copyDependencies (disk : Disk) (env : String → Option String) (options : Options)
    (root : OsString) : IO Disk := do
  let external : Except Failure (Roots × List String) := do
    let plan ← Command.plan disk env options
    let m ← findModule disk root
    let packages ← parsePackages (some ∘ parseSource) disk plan.platform m root
    return (Roots.discover disk env m.dir, externalImports m packages)
  match external with
  | .error _ => return disk
  | .ok (roots, imports) =>
    let mut disk := disk
    for dir in imports.flatMap roots.candidates do
      match ← kind? dir with
      | some .dir => disk ← copyDir disk (Path.join (Disk.absolute disk.current) dir) 1
      | _ => pure ()
    return disk

/-- The variables of the environment that the command looks at. -/
def variableNames : List String := ["GOOS", "GOARCH", "CGO_ENABLED", "GOROOT", "GOMODCACHE"]

/-- The values of these variables. -/
def environment : IO (String → Option String) := do
  let values ← variableNames.mapM fun name => return (name, ← IO.getEnv name)
  return fun name => (values.lookup name).join

/-- The text of the call graph of the project in `dir`. -/
def graphText (options : Options) (dir : String) : IO (Except Failure String) := do
  let env ← environment
  let here := (← realPath? ".").getD "/"
  let mut disk : Disk := { current := placeOf here }
  disk := disk.addDir [] disk.current
  match options.config with
  | some path => disk ← copyFile disk (Path.join here path)
  | none => pure ()
  match ← realPath? dir with
  | some root =>
    disk ← copyModule disk root
    disk ← copyDependencies disk env options root
    return Command.graphText disk env options (if disk.isDir root then root else dir)
  | none => return Command.graphText disk env options dir

/-- Why a file could not be written. -/
def writeReason : IO.Error → String
  | .noFileOrDirectory .. => FileError.notFound.message
  | .inappropriateType _ 20 _ => FileError.notDirectory.message
  | .inappropriateType _ 21 _ => FileError.isDirectory.message
  | reason => toString reason

/-- Write the graph where the options ask for it. -/
def runProject (options : Options) (dir : String) : IO UInt32 := do
  match ← graphText options dir with
  | .error failure =>
    IO.eprintln ("Error: " ++ failure.report)
    return 1
  | .ok text =>
    match options.output with
    | none =>
      IO.print text
      return 0
    | some path =>
      try
        IO.FS.writeFile path text
        return 0
      catch reason =>
        IO.eprintln ("Error: failed to write " ++ path ++ ": " ++ writeReason reason)
        return 1

end GoCalls.Program

open GoCalls in
/-- The command line. -/
def main (args : List String) : IO UInt32 := do
  match Request.ofArgs args with
  | .help =>
    IO.print Command.usage
    return 0
  | .version =>
    IO.print Command.version
    return 0
  | .misuse =>
    IO.eprint Command.usage
    return 2
  | .run options =>
    match options.projectDir with
    | some dir => Program.runProject options dir
    | none =>
      IO.print Command.usage
      return 1
