import LayeredConfig.CommandLine.FileSystem
import LayeredConfig.Entries
import LayeredConfig.Text.Fields

/-!
# Working directories

A directory of named texts as a file system. Paths are followed name by name; beside the files of the
directory they can lead to the directories around it and to the devices of the system.
-/

namespace LayeredConfig.CommandLine

/-- A device of the system. -/
inductive Device where
  /-- It is empty and takes everything. -/
  | null
  | stdin
  | stdout
  | stderr
  /-- It takes nothing. -/
  | full
deriving DecidableEq, Repr

namespace Device

/-- The device with a name. -/
def ofName? : String → Option Device
  | "null" => some .null
  | "stdin" => some .stdin
  | "stdout" => some .stdout
  | "stderr" => some .stderr
  | "full" => some .full
  | _ => none

/-- Where a text goes that is written to the device. -/
def sink : Device → Except FileFault Sink
  | .null | .stdin => .ok .nothing
  | .stdout => .ok .stdout
  | .stderr => .ok .stderr
  | .full => .error .noSpace

end Device

/-- A place in the tree of directories. -/
inductive Place where
  /-- The top of the tree. -/
  | top
  /-- A directory of which no contents are known. -/
  | foreign
  | devices
  | device (d : Device)
  /-- Behind the names, seen from the working directory. -/
  | within (names : List String)
  | nowhere
deriving DecidableEq, Repr

namespace Place

/-- The directories at the top of the tree, beside that of the devices. -/
def topDirectories : List String :=
  ["bin", "boot", "etc", "home", "lib", "media", "mnt", "opt", "proc", "root", "run", "sbin", "srv",
    "sys", "tmp", "usr", "var"]

/-- The place with a name in a directory. -/
def child : Place → String → Place
  | .top, "dev" => .devices
  | .top, name => if topDirectories.contains name then .foreign else .nowhere
  | .devices, name => (Device.ofName? name).elim .nowhere .device
  | .within names, name => .within (names ++ [name])
  | _, _ => .nowhere

/-- The directory around a directory. -/
def parent : Place → Place
  | .within [] => .foreign
  | .within names => .within names.dropLast
  | .devices => .top
  | p => p

end Place

/-- What can be at a place. -/
inductive Occupant where
  | directory
  | file (text : String)
  | device (d : Device)
deriving DecidableEq, Repr

/-- A working directory with the texts of its files. The names of files in directories below it have
slashes. -/
structure Directory where
  files : Entries String

namespace Directory

/-- The longest name, in bytes. -/
def maxNameLength : Nat := 255

/-- The longest path, in bytes. -/
def maxPathLength : Nat := 4095

/-- The names along a path. -/
def steps (path : String) : List String :=
  ((Text.fields '/' path.toList).map String.ofList).filter (· ≠ "")

/-- The names along a path that lead on. A point stands for the directory itself. -/
def names (path : String) : List String :=
  (steps path).filter (· ≠ ".")

/-- Does the path end as that of a directory? -/
def namesDirectory (path : String) : Bool :=
  path.endsWith "/"

/-- What is at a place. -/
def occupant? (d : Directory) : Place → Option Occupant
  | .top | .foreign | .devices | .within [] => some .directory
  | .device device => some (.device device)
  | .within names =>
    match d.files.get? ("/".intercalate names) with
    | some text => some (.file text)
    | none => if d.files.any fun (name, _) => names.isPrefixOf (steps name) then some .directory else none
  | .nowhere => none

/-- Follows one name. -/
def step (d : Directory) (p : Place) (name : String) : Except FileFault Place :=
  match d.occupant? p with
  | none => .error .missing
  | some .directory =>
    if name = "." then .ok p
    else if name = ".." then .ok p.parent
    else if maxNameLength < name.utf8ByteSize then .error .nameTooLong
    else .ok (p.child name)
  | some _ => .error .notDirectory

/-- Where a path starts. -/
def start (path : String) : Place :=
  if path.startsWith "/" then .top else .within []

/-- The place that a path leads to, whether something is there or not. -/
def place (d : Directory) (path : String) : Except FileFault Place :=
  if path.isEmpty then .error .missing
  else if maxPathLength < path.utf8ByteSize then .error .nameTooLong
  else (steps path).foldlM d.step (start path)

/-- The text of the file that a path leads to. Devices are empty. -/
def read (d : Directory) (path : String) : Except FileFault String := do
  match d.occupant? (← d.place path) with
  | none => throw .missing
  | some .directory => throw .isDirectory
  | some (.file text) => if namesDirectory path then throw .notDirectory else return text
  | some (.device _) => if namesDirectory path then throw .notDirectory else return ""

/-- The path to the directory that holds what the last name of a path stands for, if that name can be
one of a file. -/
def holder? (path : String) : Option (List String) :=
  match (steps path).reverse with
  | last :: before => if last = "." || last = ".." then none else some (before.reverse ++ ["."])
  | [] => none

/-- Where a text goes that is written to what a path leads to. A path that ends as that of a directory
is none of a file, whatever is there. -/
def sink (d : Directory) (path : String) : Except FileFault Sink := do
  match namesDirectory path && path.utf8ByteSize ≤ maxPathLength, holder? path with
  | true, some holder =>
    let _ ← holder.foldlM d.step (start path)
    throw .isDirectory
  | _, _ =>
    match d.occupant? (← d.place path) with
    | none | some (.file _) => return .file
    | some .directory => throw .isDirectory
    | some (.device device) => device.sink

/-- The directory with another text in a file. Paths that lead to no file of it change nothing. -/
def write (d : Directory) (path text : String) : Directory :=
  match d.sink path, d.place path with
  | .ok .file, .ok (.within names) => ⟨d.files.put ("/".intercalate names) text⟩
  | _, _ => d

/-- The directory as a file system. -/
def fileSystem (d : Directory) : FileSystem :=
  ⟨d.read, d.sink⟩

end Directory

end LayeredConfig.CommandLine
