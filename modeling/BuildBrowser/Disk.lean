import BuildBrowser.Program
import BuildBrowser.Text.Split

/-!
# Disks — files in memory, found by paths

A disk holds files in directories below one root, and a program works in one of them. A path is
followed name by name, from the root if it starts with a slash and from the working directory
otherwise; slashes in a row count as one. Each name is looked up only when the names before it have
led to a directory, so a path is refused for the first of its names that leads nowhere. The last name
of a path that is read must lead to a file; that of a path that is written need not lead to anything
yet, but no slash may follow it.
-/

namespace BuildBrowser

/-- The names that lead from the root to a place. -/
abbrev Location := List String

/-- What stands at a place. A sink takes everything that is written to it, a full device takes
nothing, and nothing is read from either. -/
inductive DiskEntry where
  | directory
  | file (content : Bytes)
  | sink
  | full
  deriving DecidableEq, Repr

/-- The entries of a disk by their places, later ones hiding earlier ones, and the working directory.
The root is always a directory. -/
structure Disk where
  entries : List (Location × DiskEntry)
  working : Location
  deriving DecidableEq, Repr

namespace Disk

/-- The directories that stand right below the root of a usual system. -/
def usualDirectories : List String :=
  ["bin", "boot", "dev", "etc", "home", "lib", "media", "mnt", "opt", "proc", "root", "run", "sbin",
    "srv", "sys", "tmp", "usr", "var"]

/-- The place of the working directory. No path has an empty name, so only paths that start from
there lead to it. -/
def workingPlace : Location := ["tmp", ""]

/-- A disk without files, and an empty working directory. -/
def fresh : Disk where
  entries :=
    usualDirectories.map (fun name => ([name], .directory)) ++
      [(["dev", "null"], .sink), (["dev", "full"], .full), (workingPlace, .directory)]
  working := workingPlace

/-- What stands at a place. -/
def entry? (disk : Disk) (place : Location) : Option DiskEntry :=
  if place = [] then some .directory else disk.entries.lookup place

/-- How many bytes a name may have. -/
def maxName : Nat := 255

/-- How many bytes a path may have. -/
def maxPath : Nat := 4095

/-- The place that a name leads to from a directory, whether or not anything stands there. -/
def step (place : Location) (name : List Char) : Except FileFault Location :=
  if name = ['.'] then .ok place
  else if name = ['.', '.'] then .ok place.dropLast
  else if (Utf8.encode name).length > maxName then .error .nameTooLong
  else .ok (place ++ [String.ofList name])

/-- The directory that names lead to from a directory. -/
def follow (disk : Disk) : Location → List (List Char) → Except FileFault Location
  | place, [] => .ok place
  | place, name :: rest =>
    match step place name with
    | .error fault => .error fault
    | .ok next =>
      match disk.entry? next with
      | some .directory => disk.follow next rest
      | some _ => .error .notDirectory
      | none => .error .notFound

/-- The names of a path. -/
def names (path : List Char) : List (List Char) :=
  (Text.splitOn '/' path).filter fun name => !name.isEmpty

/-- Whether a path ends in a slash. -/
def endsInSlash (path : List Char) : Bool :=
  path.getLast? = some '/'

/-- The directory in which the last name of a path is looked up. -/
def holder (disk : Disk) (path : List Char) : Except FileFault Location :=
  if path.contains '\x00' then .error .zeroInName
  else if path.isEmpty then .error .notFound
  else if (Utf8.encode path).length > maxPath then .error .nameTooLong
  else disk.follow (if path.head? = some '/' then [] else disk.working) (names path).dropLast

/-- The place that the last name of a path leads to from the directory that holds it. A path without
names is the root. -/
def lastStep (holder : Location) (path : List Char) : Except FileFault Location :=
  match (names path).getLast? with
  | some name => step holder name
  | none => .ok holder

/-- The content of a file. -/
def load (path : String) (disk : Disk) : Except FileFault Bytes := do
  let place ← lastStep (← disk.holder path.toList) path.toList
  let fileAt (content : Bytes) : Except FileFault Bytes :=
    if endsInSlash path.toList then .error .notDirectory else .ok content
  match disk.entry? place with
  | none => .error .notFound
  | some .directory => .error .isDirectory
  | some (.file content) => fileAt content
  | some .sink | some .full => fileAt []

/-- The disk with a file written. -/
def save (path : String) (content : Bytes) (disk : Disk) : Except FileFault Disk := do
  let holder ← disk.holder path.toList
  if endsInSlash path.toList then .error .isDirectory
  else
    let place ← lastStep holder path.toList
    match disk.entry? place with
    | some .directory => .error .isDirectory
    | some .sink => .ok disk
    | some .full => if content.isEmpty then .ok disk else .error .noSpace
    | _ => .ok { disk with entries := (place, .file content) :: disk.entries.filter (·.1 ≠ place) }

end Disk

end BuildBrowser
