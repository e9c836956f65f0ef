import SchemaDoc.Command.Run
import SchemaDoc.FileSystem.Setup

/-!
# The program

The outer layer of the command: it reads what the arguments name from the disk, lets `Command.run`
work on that, and carries its outcome out, to the standard streams and the ends of the logs.
-/

namespace SchemaDoc

namespace Program

/-- A path as the system takes it. -/
def pathName (p : Path) : String := String.ofList p.display

/-- Takes over what stands at a path, if something does. -/
def load (files : FileSystem) (p : Path) : IO FileSystem := do
  match ← (IO.FS.readBinFile (pathName p)).toBaseIO with
  | .ok content => return files.addFile p content.toList
  | .error _ =>
    let isDirectory ← ((← IO.currentDir) / pathName p).isDir
    return if isDirectory then files.addDirectory p else files

/-- Takes over what stands at a path and at the paths of the directories around it. -/
def loadAll (files : FileSystem) (p : Path) : IO FileSystem := do
  let around := (List.range p.bytes.length).filter fun n =>
    0 < n && p.bytes[n]? == some Path.separator
  let files ← around.foldlM (fun files n => load files ⟨p.bytes.take n⟩) files
  load files p

/-- Takes over a directory with what stands in it. -/
def loadDirectory (files : FileSystem) (dir : Path) : IO FileSystem := do
  let files ← loadAll files dir
  match ← ((← IO.currentDir) / pathName dir).readDir.toBaseIO with
  | .error _ => return files
  | .ok entries =>
    entries.foldlM (fun files entry => load files (dir.join (Utf8.encode entry.fileName.toList)))
      files

/-- Takes over what a request is about. -/
def loadRequest (request : Command.Request) : IO FileSystem := do
  let files ← loadAll .fresh request.settings.debugLog
  let files ← loadAll files request.settings.errorLog
  if request.files.isEmpty then loadDirectory files request.directory
  else request.files.foldlM loadAll files

/-- The variables of the environment that matter. -/
def environment : IO (List (Text × Bytes)) := do
  let names := Command.Parameter.all.filterMap (·.environmentName)
  let values ← names.mapM fun name => do
    return (← IO.getEnv (String.ofList name)).map fun value => (name, Utf8.encode value.toList)
  return values.filterMap id

/-- Appends to the files on the disk what was appended to them in the outcome. -/
def appendChanges (before after : FileSystem) : IO Unit := do
  for (p, content) in before.changes after do
    let known := (before.content? p).getD []
    let handle ← IO.FS.Handle.mk (pathName p) .append
    handle.write ⟨(content.drop known.length).toArray⟩

/-- Carries out what the command leaves behind. -/
def conclude (before : FileSystem) (done : Command.Outcome) : IO UInt32 := do
  let errors := done.trace.filter fun record => record.level == .error
  for record in errors do
    IO.eprintln ("ERROR " ++ String.ofList record.message)
  (← IO.getStdout).write ⟨done.output.toArray⟩
  (← IO.getStdout).flush
  appendChanges before done.files
  IO.eprint (String.ofList done.error)
  return done.code

/-- Runs the command with the given arguments. -/
def run (arguments : List Bytes) : IO UInt32 := do
  let environment ← environment
  let files ← match Command.Request.ofArguments arguments environment with
    | .ok request => loadRequest request
    | .error _ => pure .fresh
  let selfName := Utf8.encode ((← IO.appPath).fileName.getD "").toList
  conclude files (Command.run arguments environment selfName files .taken)

end Program

end SchemaDoc

/-- The entry point of the program. -/
def main (arguments : List String) : IO UInt32 :=
  SchemaDoc.Program.run (arguments.map fun argument => SchemaDoc.Utf8.encode argument.toList)
