import SeismicHazard.Files.Path
import SeismicHazard.Files.FileSystem

/-!
# Files in memory

A file tree held in memory, in which a program can be run without touching any other file. Relative
paths start at its root directory. Of the directories above the root no more is known than that they
are there, and of absolute paths only the directories that every system has and the null device lead
anywhere.
-/

namespace SeismicHazard

/-- A place in the tree: the names from the root on. Leading names `..` are those of directories
above the root, and the name `/` leads an absolute place. -/
abbrev Place := List String

namespace Place

/-- Whether a place is the root or above it. -/
def isAbove (place : Place) : Bool := place.all (fun name => name == "..")

/-- The directory that a place lies in. -/
def parent (place : Place) : Place :=
  if place.isAbove then place ++ [".."] else if place == ["/"] then place else place.dropLast

/-- The names of the absolute directories that are known. -/
def systemDirectories : List String :=
  ["bin", "dev", "etc", "home", "lib", "media", "mnt", "opt", "proc", "root", "run", "sbin", "srv",
   "sys", "tmp", "usr", "var"]

/-- Whether a place is an absolute directory that is known. -/
def isSystemDirectory : Place → Bool
  | ["/"] => true
  | ["/", name] => systemDirectories.contains name
  | _ => false

/-- The place of the device that reads as nothing and forgets what is written. -/
def nullDevice : Place := ["/", "dev", "null"]

end Place

/-- What is kept at a place. -/
inductive DiskEntry where
  | directory
  | device
  | file (content : InputFile Float)

/-- The places that hold something, the root left out. -/
structure Disk where
  entries : List (Place × DiskEntry)

namespace Disk

/-- The entry at a place. -/
def entry? (disk : Disk) (place : Place) : Option DiskEntry :=
  if place.isAbove || place.isSystemDirectory then some .directory
  else if place == Place.nullDevice then some .device
  else disk.entries.lookup place

/-- The number of bytes that a name can have. -/
def maxNameBytes : Nat := 255

/-- The number of bytes that a path can have. -/
def maxPathBytes : Nat := 4095

/-- Goes from a place to the one that a name in it leads to. -/
def step (disk : Disk) (place : Place) (name : String) : Except SystemFault Place :=
  match disk.entry? place with
  | none => .error .notFound
  | some .device => .error .notDirectory
  | some (.file _) => .error .notDirectory
  | some .directory =>
      if Path.isIdle name then .ok place
      else if name == ".." then .ok place.parent
      else if maxNameBytes < name.utf8ByteSize then .error .nameTooLong
      else .ok (place ++ [name])

/-- Where a path starts, unless no path can be written like this. -/
def start (path : String) : Except SystemFault Place :=
  if path.toList.contains '\x00' then .error .nulByte
  else if maxPathBytes < path.utf8ByteSize then .error .nameTooLong
  else .ok (if Path.isAbsolute path then ["/"] else [])

/-- The place that a path leads to. It need not hold anything, but what lies before it has to. -/
def resolve (disk : Disk) (path : String) : Except SystemFault Place :=
  if path == "" then .error .notFound
  else do (Path.names path).foldlM disk.step (← start path)

/-- Puts an entry at a place. -/
def put (disk : Disk) (place : Place) (entry : DiskEntry) : Disk :=
  ⟨(place, entry) :: disk.entries.filter (fun e => e.1 != place)⟩

/-- Puts a file at a place, and directories at all places on the way to it. -/
def putFile (disk : Disk) (place : Place) (content : InputFile Float) : Disk :=
  let ways := (List.range place.length).tail.map (fun n => place.take n)
  (ways.foldl (fun disk way => disk.put way .directory) disk).put place (.file content)

/-- Whether there is anything at a path. -/
def present (disk : Disk) (path : String) : Bool :=
  match disk.resolve path with
  | .ok place => (disk.entry? place).isSome
  | .error _ => false

/-- What is found at a path. -/
def input (disk : Disk) (path : String) : InputFile Float :=
  match disk.resolve path with
  | .error _ => .absent
  | .ok place =>
      match disk.entry? place with
      | none => .absent
      | some .directory => .directory
      | some .device => .notAnArchive
      | some (.file content) => content

/-- Makes the directories at the given places, from the root down, where there are none. -/
def makeDirectoriesFrom (disk : Disk) (place : Place) : List String → Except SystemFault Disk
  | [] => .ok disk
  | name :: rest => do
      let next ← disk.step place name
      match disk.entry? next with
      | none => (disk.put next .directory).makeDirectoriesFrom next rest
      | some .directory => disk.makeDirectoriesFrom next rest
      | some _ => if rest.all Path.isIdle then .error .alreadyExists else .error .notDirectory

/-- Makes a directory and the ones that it lies in. -/
def makeDirectories (disk : Disk) (path : String) : Except SystemFault Disk := do
  disk.makeDirectoriesFrom (← start path) (Path.names path)

/-- The place at which a path has a file be written. A path that ends in a slash can only be that of
a directory, whether there is one or not. -/
def target (disk : Disk) (path : String) : Except SystemFault Place :=
  if path.endsWith "/" then do
    let names := ((Path.names path).reverse.dropWhile (fun name => name == "")).reverse
    let _ ← (names.dropLast ++ ["."]).foldlM disk.step (← start path)
    .error .isDirectory
  else disk.resolve path

/-- Writes a file. -/
def write (disk : Disk) (path : String) (arrays : List (String × StoredArray Float)) :
    Except SystemFault Disk := do
  let place ← disk.target path
  match disk.entry? place with
  | some .directory => .error .isDirectory
  | some .device => return disk
  | _ => return disk.put place (.file (.archive arrays))

/-- The archives below the root, by path in increasing order. -/
def archives (disk : Disk) : List (Place × List (String × StoredArray Float)) :=
  let found := disk.entries.filterMap (fun (place, entry) =>
    match entry with
    | .file (.archive arrays) =>
        if place.head? == some ".." || place.head? == some "/" then none else some (place, arrays)
    | _ => none)
  found.mergeSort (fun a b => decide (Path.ofNames a.1 ≤ Path.ofNames b.1))

/-- A file system in memory. -/
def files : FileSystem (StateM Disk) where
  present path := do return (← get).present path
  input path := do return (← get).input path
  makeDirectories path := do
    match (← get).makeDirectories path with
    | .ok disk => do set disk; return .ok ()
    | .error fault => return .error fault
  writeArrays path arrays := do
    match (← get).write path arrays with
    | .ok disk => do set disk; return .ok ()
    | .error fault => return .error fault

end Disk

end SeismicHazard
