/-
Module: Emblem.Files.FileSystem
Purpose: A file system as a value: a map from locations to files and directories, without links, and
  a working directory. It is a storage for state actions.
Main exports: Location, Entry, FileSystem, FileSystem.occupant?, FileSystem.put, FileSystem.find,
  FileSystem.plant, FileSystem.files
-/
import Emblem.Files.Storage
import Emblem.Raster.Png
import Emblem.Text.Utf8

namespace Emblem.Files

/-- The names that lead from the root to an entry, the last one first. -/
abbrev Location := List String

/-- What is at a location. -/
inductive Entry where
  | directory
  | file (content : Content)

/-- Locations with their entries, and the location that relative paths start from. The root is
always a directory. -/
structure FileSystem where
  entries : List (Location × Entry)
  here : Location

/-- The greatest length of a name in octets. -/
def nameLimit : Nat := 255

/-- The greatest length of a path in octets. -/
def pathLimit : Nat := 4095

namespace FileSystem

def empty : FileSystem :=
  ⟨[], []⟩

def occupant? (fs : FileSystem) (l : Location) : Option Entry :=
  if l = [] then some .directory else fs.entries.lookup l

/-- Puts an entry at a location, in place of what was there. -/
def put (fs : FileSystem) (l : Location) (e : Entry) : FileSystem :=
  { fs with entries := (l, e) :: fs.entries.filter (·.1 ≠ l) }

/-- A location holds what was put there last. -/
theorem occupant?_put_self (fs : FileSystem) {l : Location} (h : l ≠ []) (e : Entry) :
    (fs.put l e).occupant? l = some e := by
  simp [occupant?, put, h]

/-- Goes from a directory to what a name in it leads to. -/
def enter (fs : FileSystem) (l : Location) (name : String) : Except Trouble Location :=
  match fs.occupant? l with
  | none => .error .noEntry
  | some (.file _) => .error .notDirectory
  | some .directory =>
    if name = "." then .ok l
    else if name = ".." then .ok l.tail
    else if nameLimit < name.utf8ByteSize then .error .nameTooLong
    else
      match fs.occupant? (name :: l) with
      | none => .error .noEntry
      | some _ => .ok (name :: l)

/-- Goes along names. -/
def walk (fs : FileSystem) (l : Location) (names : List String) : Except Trouble Location :=
  names.foldlM fs.enter l

/-- The names of a path, without the empty ones that repeated slashes leave. -/
def pathNames (path : String) : List String :=
  ((names path.toList).filter (· ≠ [])).map String.ofList

/-- Where a path starts. -/
def origin (fs : FileSystem) (path : String) : Location :=
  if isAbsolute path then [] else fs.here

/-- Whether a path ends in a slash and so means a directory. -/
def endsInSlash (path : String) : Bool :=
  path.toList.getLast? == some '/'

/-- Refuses a path for its own form. -/
def checkPath (path : String) : Except Trouble Unit := do
  if path.toList.contains '\x00' then throw .nulByte
  if path.isEmpty then throw .noEntry
  if pathLimit < path.utf8ByteSize then throw .nameTooLong

def find (fs : FileSystem) (path : String) : Except Trouble (Location × Entry) := do
  checkPath path
  let l ← fs.walk (fs.origin path) (pathNames path)
  match fs.occupant? l with
  | none => throw .noEntry
  | some (.file content) =>
    if endsInSlash path then throw .notDirectory else return (l, .file content)
  | some .directory => return (l, .directory)

/-- The directory of the last name of a path, and that name; a path that ends in dots or is the root
has no last name to make something under. -/
def findSlot (fs : FileSystem) (path : String) : Except Trouble (Location × Option String) := do
  checkPath path
  let ns := pathNames path
  let dir ← fs.walk (fs.origin path) ns.dropLast
  match fs.occupant? dir with
  | none => throw .noEntry
  | some (.file _) => throw .notDirectory
  | some .directory =>
    match ns.getLast? with
    | none => return (dir, none)
    | some name => return (dir, if name = "." ∨ name = ".." then none else some name)

def read (fs : FileSystem) (path : String) : Except ReadTrouble (List UInt8) :=
  match fs.find path with
  | .error trouble => .error (.opening trouble)
  | .ok (_, .directory) => .error (.reading .isDirectory)
  | .ok (_, .file (.octets data)) => .ok data
  | .ok (_, .file (.picture p)) => .ok p.toPng.data.toList

/-- Makes a directory in one that is there. -/
def makeDirectory (fs : FileSystem) (path : String) : Except Trouble FileSystem := do
  match ← fs.findSlot path with
  | (_, none) => throw .exists
  | (dir, some name) =>
    if nameLimit < name.utf8ByteSize then throw .nameTooLong
    match fs.occupant? (name :: dir) with
    | some _ => throw .exists
    | none => return fs.put (name :: dir) .directory

/-- Whether a path leads to a directory. -/
def isDirectory (fs : FileSystem) (path : String) : Bool :=
  match fs.find path with
  | .ok (_, .directory) => true
  | _ => false

/-- Makes a file or replaces the contents of one. -/
def write (fs : FileSystem) (path : String) (content : Content) : Except Trouble FileSystem := do
  match ← fs.findSlot path with
  | (_, none) => throw .isDirectory
  | (dir, some name) =>
    if endsInSlash path then throw .isDirectory
    if nameLimit < name.utf8ByteSize then throw .nameTooLong
    match fs.occupant? (name :: dir) with
    | some .directory => throw .isDirectory
    | _ => return fs.put (name :: dir) (.file content)

/-- Puts directories at a location and at all above it that hold nothing. -/
def plantDirectories (fs : FileSystem) : Location → FileSystem
  | [] => fs
  | name :: up =>
    let fs := fs.plantDirectories up
    match fs.occupant? (name :: up) with
    | some _ => fs
    | none => fs.put (name :: up) .directory

/-- Puts a text file at a path from a location on, and directories above it. -/
def plant (fs : FileSystem) (base : Location) (path text : String) : FileSystem :=
  let l := (pathNames path).reverse ++ base
  (fs.plantDirectories l.tail).put l (.file (.octets (Text.encode text)))

/-- The paths of all files below a location, from that location on, with what the files hold. -/
def files (fs : FileSystem) (base : Location) : List (String × Content) :=
  fs.entries.filterMap fun (l, e) =>
    match e with
    | .directory => none
    | .file content =>
      if base.reverse.isPrefixOf l.reverse then
        some ("/".intercalate (l.reverse.drop base.length), content)
      else none

end FileSystem

/-- Runs a change of the file system that may be refused; a refused one changes nothing. -/
def change (f : FileSystem → Except Trouble FileSystem) :
    StateM FileSystem (Except Trouble Unit) := do
  match f (← get) with
  | .ok fs =>
    set fs
    return .ok ()
  | .error trouble => return .error trouble

instance : Storage (StateM FileSystem) where
  read path := return (← get).read path
  makeDirectory path := change (·.makeDirectory path)
  isDirectory path := return (← get).isDirectory path
  write path content := change (·.write path content)

end Emblem.Files
