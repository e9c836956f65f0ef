import SchemaDoc.FileSystem.Access

/-!
# Setting up and comparing file systems

Files are put in place and taken away from outside of any batch, and what a batch changed is found
by comparing the files before and after it.
-/

namespace SchemaDoc

namespace FileSystem

/-- A file system with an empty working directory. -/
def fresh : FileSystem where
  entries :=
    [([Utf8.encode "dev".toList], .directory),
      ([Utf8.encode "dev".toList, Utf8.encode "full".toList], .fullDevice),
      ([Utf8.encode "home".toList], .directory)]
  workingDirectory := [Utf8.encode "home".toList]
  nextId := 0
  nodup := by decide
  named := by decide

variable (fs : FileSystem)

/-- Makes a directory of a location where nothing stands. -/
def addDirectoryAt (place : Location) : FileSystem :=
  if fs.lookup? place = none then fs.put place .directory else fs

/-- Follows names from a location and makes directories on the way where nothing stands, as far as
the way leads through directories. -/
def makeWay (fs : FileSystem) (place : Location) : List Bytes → FileSystem
  | [] => fs
  | name :: names =>
    if !fs.isDirectory place then fs
    else if name = Path.here then fs.makeWay place names
    else if name = Path.up then fs.makeWay place.dropLast names
    else if maxNameLength < name.length then fs
    else (fs.addDirectoryAt (place ++ [name])).makeWay (place ++ [name]) names

/-- Makes a directory, and those on the way to it. -/
def addDirectory (p : Path) : FileSystem := fs.makeWay (fs.start p) p.names

/-- Gives the file at a location a content, and creates it if nothing stands there. -/
def addFileAt (place : Location) (content : Bytes) : FileSystem :=
  match fs.lookup? place with
  | some (.file id _) => fs.put place (.file id (.ofBytes content))
  | some _ => fs
  | none => fs.create place (.ofBytes content)

/-- Gives the file at a path a content, and creates it and the directories on the way to it if they
are missing. Nothing comes of it where no file can stand. -/
def addFile (p : Path) (content : Bytes) : FileSystem :=
  let fs := fs.makeWay (fs.start p) p.names.dropLast
  match fs.locateParent p with
  | .ok (place, name) => fs.addFileAt (place ++ [name]) content
  | .error _ => fs

/-- Removes the file at a path, if one stands there. -/
def remove (p : Path) : FileSystem :=
  match fs.locate p with
  | .ok place => if fs.isFile p then fs.erase place else fs
  | .error _ => fs

/-- The path of a location, relative to the working directory if it lies there. -/
def pathTo (place : Location) : Path :=
  let joined (names : Location) : Bytes := [Path.separator].intercalate names
  if fs.workingDirectory.isPrefixOf place then ⟨joined (place.drop fs.workingDirectory.length)⟩
  else ⟨Path.separator :: joined place⟩

/-- The regular files of `later` that do not stand in `fs` with the same content. -/
def changes (later : FileSystem) : List (Path × Bytes) :=
  later.entries.filterMap fun (place, entry) =>
    match entry, fs.lookup? place with
    | .file _ data, some (.file _ old) =>
      if data.content = old.content then none else some (fs.pathTo place, data.content)
    | .file _ data, _ => some (fs.pathTo place, data.content)
    | _, _ => none

end FileSystem

end SchemaDoc
