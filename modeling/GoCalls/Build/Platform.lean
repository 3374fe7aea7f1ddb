import GoCalls.Text.Blank
import Std.Data.TreeSet

/-!
# Target platforms

A `Platform` is what files are built for: an operating system, an architecture and further tags.

* `Platform.hasTag`: does a tag hold?
* `Platform.matchesFileName`: does a file take part in the build, as far as its name says?
-/

namespace GoCalls

open Text

/-- The operating systems that a file name can speak of. -/
def knownSystems : List String :=
  ["aix", "android", "darwin", "dragonfly", "freebsd", "hurd", "illumos", "ios", "js", "linux",
    "nacl", "netbsd", "openbsd", "plan9", "solaris", "wasip1", "windows", "zos"]

/-- The architectures that a file name can speak of. -/
def knownArchitectures : List String :=
  ["386", "amd64", "amd64p32", "arm", "armbe", "arm64", "arm64be", "loong64", "mips", "mipsle",
    "mips64", "mips64le", "mips64p32", "mips64p32le", "ppc", "ppc64", "ppc64le", "riscv",
    "riscv64", "s390", "s390x", "sparc", "sparc64", "wasm"]

/-- The operating systems of the Unix family. -/
def unixSystems : List String :=
  ["aix", "android", "darwin", "dragonfly", "freebsd", "hurd", "illumos", "ios", "linux", "netbsd",
    "openbsd", "solaris"]

/-- The newest release `go1.N` whose tag holds. -/
def latestRelease : Nat := 25

structure Platform where
  os : String := "linux"
  arch : String := "amd64"
  /-- Can C code be called? -/
  cgo : Bool := false
  /-- Tags that hold besides those of the platform. -/
  tags : Std.TreeSet String := ∅

/-- The number that decimal digits stand for, with a plus sign allowed in front. -/
def decimal? (digits : List Char) : Option Nat :=
  let digits := (after? ['+'] digits).getD digits
  if digits ≠ [] && digits.all Char.isDigit then
    some (digits.foldl (fun n d => 10 * n + (d.toNat - '0'.toNat)) 0)
  else none

/-- Does a tag name a release that is not too new? -/
def isReleaseTag (tag : String) : Bool :=
  match (after? "go1.".toList tag.toList).bind decimal? with
  | some release => 1 ≤ release && release ≤ latestRelease
  | none => false

/-- The tags in a list, which commas or white space divide. -/
def tagList (list : String) : List String :=
  (fields (fun c => c = ',' || isBlank c) list.toList).map String.ofList

/-- `s` without `suffix` at its end, if it is there. -/
def dropSuffix (suffix s : List Char) : List Char :=
  match after? suffix.reverse s.reverse with
  | some rest => rest.reverse
  | none => s

namespace Platform

/-- The platform that the environment asks for, where the program's own is the default. -/
def ofEnvironment (env : String → Option String) : Platform :=
  let value (name : String) : Option String := (env name).filter (· ≠ "")
  let host : Platform := {}
  let os := (value "GOOS").getD host.os
  let arch := (value "GOARCH").getD host.arch
  { os, arch
    cgo := match value "CGO_ENABLED" with
      | some flag => flag = "1"
      | none => os = host.os && arch = host.arch }

/-- The platform with more tags. -/
def withTags (platform : Platform) (tags : List String) : Platform :=
  { platform with tags := tags.foldl (·.insert ·) platform.tags }

/-- Does a tag hold? -/
def hasTag (platform : Platform) (tag : String) : Bool :=
  tag = platform.os || tag = platform.arch || tag = "gc" || platform.tags.contains tag ||
    match tag with
    | "cgo" => platform.cgo
    | "unix" => unixSystems.contains platform.os
    | "linux" => platform.os = "android"
    | "solaris" => platform.os = "illumos"
    | "darwin" => platform.os = "ios"
    | _ => isReleaseTag tag

/-- Does a file take part in the build, by the system or architecture at the end of its name? -/
def matchesFileName (platform : Platform) (name : String) : Bool :=
  let stem := dropSuffix "_test".toList (dropSuffix ".go".toList name.toList)
  let parts := (cut (· = '_') (stem.dropWhile (· ≠ '_'))).map String.ofList
  match parts.reverse with
  | last :: previous :: _ =>
    if knownSystems.contains previous && knownArchitectures.contains last then
      platform.hasTag previous && platform.hasTag last
    else if knownSystems.contains last || knownArchitectures.contains last then
      platform.hasTag last
    else true
  | _ => true

end Platform

end GoCalls
