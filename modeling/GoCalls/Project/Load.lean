import GoCalls.Calls.Scan
import GoCalls.Module.Roots
import GoCalls.Project.Problem
import GoCalls.Source.Lower
import GoCalls.Typing.Check

/-!
# Loading a project

A project is a directory inside a module. Its packages are the directories with source files at or
below it, as far as they belong to the module and take part in the build. Texts are given to a parser
that can be any function.

* `findModule`: the module around a directory.
* `sourceDirs`: the files of a project, directory by directory.
* `parseFile`, `deal`: the files are parsed as one list, which is then dealt to the directories.
* `buildPackage`: the package of one directory, and what is wrong with its files.
* `loadPackages`: the packages of a project, with their tables.
* `analyze`: the call graph of a project.
-/

namespace GoCalls

/-! ## The module -/

/-- A module: its directory and its path. -/
structure Module where
  dir : OsString
  path : String

/-- The module whose file is the nearest at or above `root`. -/
def findModule (disk : Disk) (root : OsString) : Except Failure Module :=
  match (Path.ancestors root).find? fun dir => disk.isFile (Path.join dir "go.mod") with
  | none => .error (.missingModule root)
  | some dir => do
    let path := Path.join dir "go.mod"
    let text ← (disk.read path).mapError (.unreadable path)
    match modulePath? text with
    | some modulePath => return ⟨dir, modulePath⟩
    | none => throw (.problems [⟨path, .noModule⟩])

/-- The import path of a directory of the module. -/
def Module.importPath (m : Module) (dir : OsString) : String :=
  "/".intercalate (m.path :: (Path.relative m.dir dir).map Text.lossy)

/-- Is an import path that of the module, or does it lie below it? What follows the module's path is
given. -/
def Module.rest? (m : Module) (path : String) : Option String :=
  if path = m.path then some ""
  else (Text.after? (m.path ++ "/").toList path.toList).map String.ofList

/-- The directory for an import path of the module, from what follows the module's path. -/
def Module.directory (m : Module) (rest : String) : OsString :=
  ((Text.cut (· = '/') rest.toList).map fun piece => Text.bytes (String.ofList piece)).foldl
    Path.join m.dir

/-! ## Files -/

/-- Is a name that of a source file for the platform? -/
def isSourceName (platform : Platform) (name : OsString) : Bool :=
  let name := Text.lossy name
  name.endsWith ".go" && !name.endsWith "_test.go" && !name.startsWith "." &&
    !name.startsWith "_" && platform.matchesFileName name

/-- Does a directory with this name belong to no package? -/
def isSkippedName (name : OsString) : Bool :=
  let name := Text.lossy name
  name.startsWith "." || name.startsWith "_" || name = "vendor" || name = "testdata"

/-- Can a directory be reached from `dir` by the given names, all of which belong to the project? -/
def isReachable (disk : Disk) (dir : Place) : Place → Bool
  | [] => true
  | name :: rest =>
    let inner := dir ++ [name]
    let ownModule := match disk.node? (inner ++ [Text.bytes "go.mod"]) with
      | some (.file _) => true
      | _ => false
    !isSkippedName name && !ownModule && isReachable disk inner rest

/-- The names of the source files of a directory. -/
def sourceNames (disk : Disk) (platform : Platform) (dir : Place) : List OsString :=
  (disk.children dir).filterMap fun
    | (name, .file _) => if isSourceName platform name then some name else none
    | (_, .dir) => none

/-- A directory with the paths of its source files. -/
structure SourceDir where
  dir : OsString
  files : List OsString

/-- The directory `dir` at `place` with its source files. -/
def sourceDir (disk : Disk) (platform : Platform) (dir : OsString) (place : Place) : SourceDir :=
  ⟨Path.trimEnd dir, (sourceNames disk platform place).map (Path.join dir)⟩

/-- The directories of a project with their source files. A project that is a file consists of
it alone. -/
def sourceDirs (disk : Disk) (platform : Platform) (root : OsString) :
    Except Failure (List SourceDir) := do
  let place ← (disk.find root).mapError (.unreadable root)
  match disk.node? place with
  | some (.file _) =>
    if isSourceName platform (Path.fileName root) then
      return [⟨(Path.parent? root).getD [], [root]⟩]
    else return []
  | _ =>
    let below := (disk.directories place).filter (isReachable disk place)
    return ([] :: below).map fun names =>
      sourceDir disk platform (names.foldl Path.join root) (place ++ names)

/-! ## Parsed files -/

/-- A file that takes part in the build, with its tree, if there is one, and what is wrong with it.
-/
structure ParsedFile where
  path : OsString
  tree : Option ParseTree
  problems : List Problem

/-- What the parser makes of a text. -/
def parseText (parse : String → Option ParseTree) (path : OsString) (text : String) : ParsedFile :=
  match parse text with
  | some tree => ⟨path, some tree, tree.syntaxErrors.map fun spot => ⟨path, .syntaxError spot⟩⟩
  | none => ⟨path, none, [⟨path, .noTree⟩]⟩

/-- A file with the given text, unless its constraint excludes it. -/
def parsedText? (parse : String → Option ParseTree) (platform : Platform) (path : OsString)
    (text : String) : Option ParsedFile :=
  match platform.matchesSource text with
  | .ok true => some (parseText parse path text)
  | .ok false => none
  | .error reason => some ⟨path, none, [⟨path, .constraint reason⟩]⟩

/-- Read and parse a file. -/
def parseFile (parse : String → Option ParseTree) (disk : Disk) (platform : Platform)
    (path : OsString) : Except Failure (Option ParsedFile) := do
  let text ← (disk.read path).mapError (.unreadable path)
  return parsedText? parse platform path text

/-- Deal parsed files to directories: each takes as many as it has files, and drops those that are
excluded. -/
def deal : List SourceDir → List (Option ParsedFile) → List (OsString × List ParsedFile)
  | [], _ => []
  | d :: dirs, parsed =>
    (d.dir, (parsed.take d.files.length).reduceOption) :: deal dirs (parsed.drop d.files.length)

/-! ## Packages -/

/-- What comes of the files of a directory: those that have a package, and what is wrong. -/
structure Build where
  files : List SourceFile := []
  problems : List Problem := []

/-- What comes of one file, broken or not, and the first number that it does not use. -/
def buildFile (next : Nat) (parsed : ParsedFile) : Build × Nat :=
  match parsed.tree with
  | none => ({ problems := parsed.problems }, next)
  | some tree =>
    let failed (cause : Cause) : Build := { problems := parsed.problems ++ [⟨parsed.path, cause⟩] }
    match lowerFile parsed.path tree next with
    | (.error spot, next) => (failed (.tooDeep spot), next)
    | (.ok file, next) =>
      if file.package = "" then (failed .noPackage, next)
      else ({ files := [file], problems := parsed.problems }, next)

/-- What comes of the files of a directory, which are numbered together from `next` on. -/
def buildFiles (next : Nat) : List ParsedFile → Build
  | [] => {}
  | parsed :: rest =>
    let (first, next) := buildFile next parsed
    let others := buildFiles next rest
    ⟨first.files ++ others.files, first.problems ++ others.problems⟩

/-- The package of a directory, and what is wrong with its files. All files must name the same
package. -/
def buildPackage (m : Module) (dir : OsString) (batch : List ParsedFile) :
    Option Package × List Problem :=
  let build := buildFiles 0 batch
  match build.files with
  | [] => (none, build.problems)
  | first :: rest =>
    match rest.find? fun file => file.package ≠ first.package with
    | some other =>
      let mixed : Cause := .mixedPackages first.package (Text.lossy (Path.fileName first.path))
        other.package (Text.lossy (Path.fileName other.path))
      (none, build.problems ++ [⟨dir, mixed⟩])
    | none =>
      (some { name := first.package, path := m.importPath dir, dir, files := build.files },
        build.problems)

/-- The imports of packages of the module that are neither loaded nor directories of it. -/
def missingImports (disk : Disk) (m : Module) (packages : List Package) : List Problem :=
  let loaded := Std.TreeSet.ofList (packages.map (·.path))
  packages.flatMap fun package => package.files.flatMap fun file =>
    file.imports.filterMap fun i => do
      let rest ← m.rest? i.path
      if loaded.contains i.path || disk.isDir (m.directory rest) then none
      else some ⟨file.path, .missingImport i.path⟩

/-! ## Dependencies -/

/-- The function without its body. -/
def Decl.dropBody : Decl → Decl
  | .func d => .func { d with body := none }
  | d => d

/-- The declarations in a file, which may have to be left out, and the first number that it does not
use. -/
def declarationFile? (parse : String → Option ParseTree) (disk : Disk) (platform : Platform)
    (next : Nat) (path : OsString) : Option SourceFile × Nat :=
  let tree? := do
    let text ← (disk.read path).toOption
    guard (platform.matchesSource text matches .ok true)
    let tree ← parse text
    guard !tree.hasError
    return tree
  match tree? with
  | none => (none, next)
  | some tree =>
    match lowerFile path tree next with
    | (.ok file, next) => (some { file with decls := file.decls.map Decl.dropBody }, next)
    | (.error _, next) => (none, next)

/-- The declarations in files. -/
def declarationFiles (parse : String → Option ParseTree) (disk : Disk) (platform : Platform)
    (next : Nat) : List OsString → List SourceFile
  | [] => []
  | path :: rest =>
    let (file?, next) := declarationFile? parse disk platform next path
    file?.toList ++ declarationFiles parse disk platform next rest

/-- The declarations of the package in a directory, which is imported as `path`. The first name of a
package counts. -/
def declarationPackage? (parse : String → Option ParseTree) (disk : Disk) (platform : Platform)
    (path : String) (dir : OsString) : Option Package := do
  let place ← (disk.find dir).toOption
  let paths := (sourceNames disk platform place).map (Path.join dir)
  let files := declarationFiles parse disk platform 0 paths
  let name ← (files.map (·.package)).find? (· ≠ "")
  return { name, path, dir, files := files.filter (·.package = name) }

/-- The import paths outside the module, in ascending order. -/
def externalImports (m : Module) (packages : List Package) : List String :=
  (Std.TreeSet.ofList <| packages.flatMap fun package => package.files.flatMap fun file =>
    (file.imports.map (·.path)).filter fun path => (m.rest? path).isNone).toList

/-- The packages outside the module whose sources are at hand. -/
def dependencies (parse : String → Option ParseTree) (disk : Disk) (platform : Platform)
    (roots : Roots) (m : Module) (packages : List Package) : List Package :=
  (externalImports m packages).filterMap fun path => do
    declarationPackage? parse disk platform path (← roots.locate disk path)

/-! ## The project -/

/-- The packages of a project as written, without tables. -/
def parsePackages (parse : String → Option ParseTree) (disk : Disk) (platform : Platform)
    (m : Module) (root : OsString) : Except Failure (List Package) := do
  let dirs ← sourceDirs disk platform root
  let parsed ← (dirs.flatMap (·.files)).mapM (parseFile parse disk platform)
  let builds := (deal dirs parsed).map fun (dir, batch) => buildPackage m dir batch
  let packages := builds.filterMap Prod.fst
  match builds.flatMap Prod.snd ++ missingImports disk m packages with
  | [] => return packages
  | problems => throw (.problems problems)

/-- The packages of a project, by ascending import paths, with their tables. -/
def loadPackages (parse : String → Option ParseTree) (disk : Disk) (platform : Platform)
    (roots : OsString → Roots) (root : OsString) : Except Failure (List Package) := do
  let m ← findModule disk root
  let packages ← parsePackages parse disk platform m root
  let index := Index.ofPackages
    (packages ++ dependencies parse disk platform (roots m.dir) m packages)
  return (packages.map index.annotate).mergeSort fun a b => a.path ≤ b.path

/-- The absolute path of a project's directory. -/
def projectRoot (disk : Disk) (path : OsString) : Except Failure OsString := do
  let place ← (disk.find path).mapError (.invalidPath path)
  match disk.node? place with
  | some .dir => return Disk.absolute place
  | _ => throw (.invalidPath path .plainFile)

/-- The call graph of a project. -/
def analyze (parse : String → Option ParseTree) (disk : Disk) (platform : Platform)
    (roots : OsString → Roots) (filter : Filter) (path : OsString) : Except Failure Graph := do
  let root ← projectRoot disk path
  return Graph.ofPackages filter (← loadPackages parse disk platform roots root)

end GoCalls
