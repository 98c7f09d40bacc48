/-!
# The folder a program runs in

A folder holds files and nothing else. A path is followed part by part: empty parts and
`.` stay, `..` goes up, and every other part has to name something in the place reached
so far. A file cannot be entered, and what has a name too long has no name at all.

Of what lies outside, a program sees that there are folders further up, and what every
file system has: the usual folders at its root and two devices, the empty one and the
one that is the standard input.
-/

namespace LineCalc.CommandLine

/-- What a path leads to. -/
inductive Found where
  | file (content : List UInt8)
  | folder
  /-- A part in front of the last is a file. -/
  | throughFile
  /-- The path, or a part of it, is longer than any can be. -/
  | tooLong
  | nothing
  deriving DecidableEq, Repr

/-- A place that a path leads through. -/
inductive Place where
  /-- The folder that the program runs in. -/
  | here
  /-- A folder above it. -/
  | above
  /-- The root of the file system. -/
  | root
  /-- The folder of devices. -/
  | devices
  /-- Another folder at the root. -/
  | usual
  deriving DecidableEq, Repr

/-- One place up. The root has none above it. -/
def Place.up : Place → Place
  | here | above => above
  | root | devices | usual => root

/-- What a place holds under a name. -/
inductive Entry where
  | place (p : Place)
  | file (content : List UInt8)
  deriving DecidableEq, Repr

/-- The folders at the root, the devices apart. -/
def usualFolders : List String :=
  ["bin", "boot", "etc", "home", "lib", "media", "mnt", "opt", "proc", "root", "run", "sbin", "srv",
   "sys", "tmp", "usr", "var"]

/-- The most bytes that a part of a path can have. -/
def maxNameBytes : Nat := 255

/-- The most bytes that a path can have. -/
def maxPathBytes : Nat := 4095

/-- Files by name. Of two with one name the later counts. -/
structure Folder where
  files : List (String × List UInt8)

namespace Folder

/-- The content of a file. -/
def content? (f : Folder) (name : String) : Option (List UInt8) :=
  (f.files.reverse.find? fun file => file.1 = name).map Prod.snd

/-- The folder with a file of that name, in place of the one it had if it had one. -/
def create (f : Folder) (name : String) (content : List UInt8) : Folder :=
  ⟨f.files ++ [(name, content)]⟩

/-- What a place holds under a name. -/
def entry? (f : Folder) (stdin : List UInt8) (name : String) : Place → Option Entry
  | .here => (f.content? name).map .file
  | .root =>
      if name = "dev" then some (.place .devices)
      else if name ∈ usualFolders then some (.place .usual)
      else none
  | .devices =>
      if name = "null" then some (.file [])
      else if name = "stdin" then some (.file stdin)
      else none
  | .above | .usual => none

/-- Follow the parts of a path from a place. -/
def follow (f : Folder) (stdin : List UInt8) (p : Place) : List String → Found
  | [] => .folder
  | part :: parts =>
      if part = "" || part = "." then f.follow stdin p parts
      else if part = ".." then f.follow stdin p.up parts
      else
        match f.entry? stdin part p with
        | some (.place p) => f.follow stdin p parts
        -- A file is found only where the path ends: even an empty part would enter it.
        | some (.file content) => if parts.isEmpty then .file content else .throughFile
        | none => if maxNameBytes < part.utf8ByteSize then .tooLong else .nothing

/-- What a path leads to. -/
def find (f : Folder) (stdin : List UInt8) (path : String) : Found :=
  if path = "" then .nothing
  else if maxPathBytes < path.utf8ByteSize then .tooLong
  else
    let parts := path.splitOn "/"
    f.follow stdin (if parts.head? = some "" then .root else .here) parts

end Folder

end LineCalc.CommandLine
