import SchemaDoc.FileSystem.Access
import SchemaDoc.Trace

/-!
# Log files

A log file is opened when its first line is written, and only then. A log that cannot be opened or
written is given up for good with one warning, so that logging never disturbs the work. What a log
does about its file are its acts, and the warnings are read off those in vain.
-/

namespace SchemaDoc

/-- How far a log file got. -/
inductive LogState where
  /-- No line was written yet. -/
  | closed
  /-- The file is open. -/
  | opened (handle : Handle)
  /-- The file was given up. -/
  | disabled
  deriving DecidableEq, Repr

/-- A log file. -/
structure LogFile where
  /-- Its path. -/
  path : Path
  /-- How far it got. -/
  state : LogState := .closed
  deriving DecidableEq, Repr

namespace LogFile

/-- Something that a log does about its file, with the fault that it meets if that is in vain. -/
inductive Act where
  /-- It opens the file. -/
  | opening (fault : Option Fault)
  /-- It writes to the file. -/
  | writing (bs : Bytes) (fault : Option Fault)
  deriving DecidableEq, Repr

/-- The warning that `action` failed on the log at `path`. -/
def warning (path : Path) (action : Text) (fault : Fault) : Trace.Record :=
  { level := .warn
    message := "Cannot ".toList ++ action ++ " log ".toList ++ path.display ++ ": ".toList ++
      fault.message }

/-- The warning that tells of an act in vain on the log at `path`. -/
def Act.warning? (path : Path) : Act → Option Trace.Record
  | opening fault => fault.map (warning path "open".toList)
  | writing _ fault => fault.map (warning path "write".toList)

/-- What comes of an operation on a log file. -/
structure Outcome where
  /-- The file system afterwards. -/
  files : FileSystem
  /-- The log afterwards. -/
  log : LogFile
  /-- What the log did about its file. -/
  acts : List Act := []
  deriving DecidableEq, Repr

/-- The warnings given. -/
def Outcome.warnings (done : Outcome) : List Trace.Record :=
  done.acts.filterMap (·.warning? done.log.path)

variable (log : LogFile)

/-- The bytes in which a line is written to a log. -/
def lineBytes (line : Text) : Bytes := Utf8.encode line ++ [newline]

/-- Opens the log if it is still closed. -/
def prepare (files : FileSystem) : Outcome :=
  match log.state with
  | .closed =>
    match files.openAppend log.path with
    | .ok (files, handle) =>
      { files, log := { log with state := .opened handle }, acts := [.opening none] }
    | .error fault =>
      { files, log := { log with state := .disabled }, acts := [.opening (some fault)] }
  | _ => { files, log }

/-- Appends a line to the log if it is open. -/
def append (files : FileSystem) (line : Text) : Outcome :=
  match log.state with
  | .opened handle =>
    match files.append handle (lineBytes line) with
    | .ok files => { files, log, acts := [.writing (lineBytes line) none] }
    | .error fault =>
      { files, log := { log with state := .disabled }
        acts := [.writing (lineBytes line) (some fault)] }
  | _ => { files, log }

/-- Whether the log is open and writes to the file at `path`. -/
def writesTo (files : FileSystem) (path : Path) : Bool :=
  match log.state with
  | .opened handle => files.leadsTo path handle
  | _ => false

/-- Writes a line to the log. -/
def writeLine (files : FileSystem) (line : Text) : Outcome :=
  let ready := log.prepare files
  let done := ready.log.append ready.files line
  { done with acts := ready.acts ++ done.acts }

/-- Flushes the log if it is open, with a warning where that is refused. -/
def flush : List Trace.Record :=
  match log.state with
  | .opened handle => (handle.flush.map (warning log.path "flush".toList)).toList
  | _ => []

end LogFile

end SchemaDoc
