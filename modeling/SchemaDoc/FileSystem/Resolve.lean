import SchemaDoc.Fault
import SchemaDoc.FileSystem.Basic

/-!
# Following paths

A path leads to a location name by name, from the root or from the working directory. Every name but
the last must be that of a directory, and so must the last one when a separator follows it.
-/

namespace SchemaDoc

namespace FileSystem

variable (fs : FileSystem)

/-- The length of the longest path that is allowed. -/
def maxPathLength : Nat := 4095

/-- Refuses paths that cannot be followed at all. -/
def checkPath (p : Path) : Except Fault Unit :=
  if 0 ∈ p.bytes then .error .embeddedNul
  else if p.bytes = [] then .error .notFound
  else if maxPathLength < p.bytes.length then .error .nameTooLong
  else .ok ()

/-- Where a path starts. -/
def start (p : Path) : Location := if p.isAbsolute then [] else fs.workingDirectory

/-- Where one name leads from a location. -/
def enter (place : Location) (name : Bytes) : Except Fault Location :=
  if !fs.isDirectory place then .error .notDirectory
  else if name = Path.here then .ok place
  else if name = Path.up then .ok place.dropLast
  else if maxNameLength < name.length then .error .nameTooLong
  else if fs.lookup? (place ++ [name]) = none then .error .notFound
  else .ok (place ++ [name])

/-- Follows names from a location. -/
def walk (place : Location) (names : List Bytes) : Except Fault Location :=
  names.foldlM fs.enter place

/-- The location of what stands at a path. -/
def locate (p : Path) : Except Fault Location := do
  checkPath p
  let place ← fs.walk (fs.start p) p.names
  if p.endsInSeparator && !fs.isDirectory place then .error .notDirectory else .ok place

/-- The location of the directory that a path leads to. -/
def locateDirectory (p : Path) : Except Fault Location := do
  let place ← fs.locate p
  if fs.isDirectory place then .ok place else .error .notDirectory

/-- The location in which a path has, or would have, its last name, with that name. The name must be
one that a regular file can have there. -/
def locateParent (p : Path) : Except Fault (Location × Bytes) := do
  checkPath p
  match p.names.getLast? with
  | none => .error .isDirectory
  | some name =>
    if name = Path.here ∨ name = Path.up then
      (fs.walk (fs.start p) p.names).bind fun _ => .error .isDirectory
    else
      (fs.walk (fs.start p) p.names.dropLast).bind fun place =>
        if !fs.isDirectory place then .error .notDirectory
        else if p.endsInSeparator then .error .isDirectory
        else if maxNameLength < name.length then .error .nameTooLong
        else .ok (place, name)

end FileSystem

end SchemaDoc
