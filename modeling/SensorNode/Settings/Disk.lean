/-
The disk on which settings are kept, and what paths name on it. A path is walked part by part: each part but the last
must lead to a directory, and two dots lead up. Of the disk outside of the working directory only the directories above
it and the standard ones are known.
-/
namespace SensorNode.Settings

/-- what a path can name -/
inductive Node
  | file (bytes : ByteArray)
  | directory

/-- the paths below the working directory and what they name -/
abbrev Disk := List (String × Node)

/-- the names that a path below the working directory consists of; a dot names the directory it stands in -/
def pathNames (path : String) : List String :=
  (path.splitOn "/").filter fun s => s ≠ "" ∧ s ≠ "."

/-- a place that a path comes by -/
inductive Place
  /-- at these names below the working directory -/
  | inside (names : List String)
  /-- a directory above the working directory -/
  | above
  /-- at these names below the root -/
  | root (names : List String)

namespace Place

/-- the directories that stand right below the root -/
def standard : List String :=
  ["bin", "boot", "dev", "etc", "home", "lib", "lib64", "media", "mnt", "opt", "proc", "root", "run", "sbin", "srv",
    "sys", "tmp", "usr", "var"]

/-- What stands at a place. Every directory on the way to a file is there; outside of the working directory nothing is
known but the directories above it and the standard ones. -/
def node? (disk : Disk) : Place → Option Node
  | .inside wanted =>
    match disk.find? fun e => pathNames e.1 = wanted with
    | some (_, node) => some node
    | none => if wanted = [] ∨ disk.any (fun e => wanted.isPrefixOf (pathNames e.1)) then some .directory else none
  | .above => some .directory
  | .root [] => some .directory
  | .root [name] => if standard.contains name then some .directory else none
  | .root _ => none

/-- the directory that a place is in -/
def parent : Place → Place
  | .inside [] => .above
  | .inside names => .inside names.dropLast
  | .above => .above
  | .root names => .root names.dropLast

/-- the place of a name in a directory -/
def child? (name : String) : Place → Option Place
  | .inside names => some (.inside (names ++ [name]))
  | .above => none
  | .root names => some (.root (names ++ [name]))

/-- goes from a directory along one part of a path; an empty part, as after a slash at the end, stays in it -/
def walk? (disk : Disk) (place : Place) (part : String) : Option Place :=
  match place.node? disk with
  | some .directory =>
    if part = "" ∨ part = "." then some place
    else if part = ".." then some place.parent
    else place.child? part
  | _ => none

end Place

/-- a path of this many bytes or more names nothing -/
def pathLimit : Nat := 4096

/-- What a path names: the place that its parts lead to one after the other, from the root if it begins with a slash and
else from the working directory. The empty path names nothing. -/
def lookup (disk : Disk) (path : String) : Option Node :=
  if path.isEmpty ∨ pathLimit ≤ path.utf8ByteSize then none
  else do
    let start := if path.startsWith "/" then Place.root [] else .inside []
    let place ← (path.splitOn "/").foldlM (Place.walk? disk) start
    place.node? disk

end SensorNode.Settings
