import SchemaDoc.FileSystem.Resolve
import SchemaDoc.Stream.Source

/-!
# Access to files

Files are opened by their paths, for reading or for appending, and directories are listed. A file
that is opened for appending is created if it is missing, and stays the same file while it is open,
even if it is removed.

Data is refused by the full device and by nothing else: a regular file takes whatever is appended to
it. For reading the device stands in here as an empty file. In truth it delivers zeros without end,
and a run over it never ends, so what is said of a run with the device among its inputs is said of
no run that comes to its end.
-/

namespace SchemaDoc

/-- A file opened for appending. -/
inductive Handle where
  /-- The regular file with that identity at that location. -/
  | file (place : Location) (id : Nat)
  /-- The device that refuses all data. -/
  | fullDevice
  deriving DecidableEq, Repr

/-- Flushes an opened file. Appended data is never held back, so there is nothing to refuse. -/
def Handle.flush : Handle → Option Fault
  | file _ _ => none
  | fullDevice => none

namespace FileSystem

variable (fs : FileSystem)

/-- What stands at a path. -/
def entry? (p : Path) : Option Entry := (fs.locate p).toOption.bind fs.lookup?

/-- The content of the regular file at a path. -/
def content? (p : Path) : Option Bytes :=
  match fs.entry? p with
  | some (.file _ data) => some data.content
  | _ => none

/-- Whether a path leads to a regular file. -/
def isFile (p : Path) : Bool :=
  match fs.entry? p with
  | some (.file _ _) => true
  | _ => false

/-- Whether a path leads to the regular file that was opened as `handle`. -/
def leadsTo (p : Path) (handle : Handle) : Bool :=
  match (fs.locate p).toOption, handle with
  | some place, .file opened id =>
    place == opened &&
      match fs.lookup? place with
      | some (.file other _) => other == id
      | _ => false
  | _, _ => false

/-- Opens what stands at a path for reading. A directory opens, and breaks when it is read. -/
def openRead (p : Path) : Except Fault Source := do
  let place ← fs.locate p
  match fs.lookup? place with
  | some (.file _ data) => .ok { content := data.content }
  | some .fullDevice => .ok { content := [] }
  | some .directory => .ok { content := [], fault := some .isDirectory }
  | none => .error .notFound

/-- The names of what stands in the directory at a location. -/
def children (place : Location) : List Bytes :=
  fs.entries.filterMap fun (other, _) =>
    other.getLast?.bind fun name => if other = place ++ [name] then some name else none

/-- The names of what stands in the directory at a path. -/
def list (p : Path) : Except Fault (List Bytes) := do
  return fs.children (← fs.locateDirectory p)

/-- Opens what stands at a location for appending and creates a file there if nothing does. -/
def openAppendAt (place : Location) : Except Fault (FileSystem × Handle) :=
  match fs.lookup? place with
  | some .directory => .error .isDirectory
  | some (.file id _) => .ok (fs, .file place id)
  | some .fullDevice => .ok (fs, .fullDevice)
  | none => .ok (fs.create place ⟨[]⟩, .file place fs.nextId)

/-- Opens the file at a path for appending and creates it if it is missing. -/
def openAppend (p : Path) : Except Fault (FileSystem × Handle) := do
  let (place, name) ← fs.locateParent p
  fs.openAppendAt (place ++ [name])

/-- Appends to an opened file. Data for a file that is gone goes nowhere. -/
def append (handle : Handle) (bs : Bytes) : Except Fault FileSystem :=
  match handle with
  | .fullDevice => if bs = [] then .ok fs else .error .noSpace
  | .file place id =>
    match fs.lookup? place with
    | some (.file other data) =>
      if other = id then .ok (fs.put place (.file id (data.append bs))) else .ok fs
    | _ => .ok fs

end FileSystem

end SchemaDoc
