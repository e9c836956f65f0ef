import SchemaDoc.Log.File
import SchemaDoc.Settings
import SchemaDoc.Stream.Event

/-!
# Records of a batch

The journal of a batch keeps two log files: one for every line before and after, one for the inputs
that could not be processed. A `Recorder` is the journal together with the files it writes to, the
trace that it adds to and the acts of its logs.
-/

namespace SchemaDoc

/-- The two logs of a batch. -/
structure Journal where
  /-- How much is recorded. -/
  level : LogLevel
  /-- The log of every line. -/
  debug : LogFile
  /-- The log of inputs that could not be processed. -/
  errors : LogFile
  /-- The input whose lines are recorded. -/
  current : Option Path := none
  /-- The number of inputs that could not be processed. -/
  errorsRecorded : Nat := 0
  deriving DecidableEq, Repr

namespace Journal

/-- The two logs of a journal. -/
inductive Log where
  /-- The log of every line. -/
  | debug
  /-- The log of inputs that could not be processed. -/
  | errors
  deriving DecidableEq, Repr

/-- The file of a log. -/
def file (j : Journal) : Log → LogFile
  | .debug => j.debug
  | .errors => j.errors

/-- The journal with another file for a log. -/
def setFile (j : Journal) (log : Log) (file : LogFile) : Journal :=
  match log with
  | .debug => { j with debug := file }
  | .errors => { j with errors := file }

/-- The journal that the settings ask for, before anything is recorded. -/
def ofSettings (s : Settings) : Journal where
  level := s.logLevel
  debug := { path := s.debugLog }
  errors := { path := s.errorLog }

/-- The name of the input whose lines are recorded. -/
def currentName (j : Journal) : Text :=
  match j.current with
  | some path => path.display
  | none => "<input>".toList

/-- The line above the lines of an input. -/
def banner (path : Path) : Text := "=== ".toList ++ path.display ++ " ===".toList

/-- The line about an input that could not be processed. -/
def errorLine (path : Path) (message : Text) : Text := path.display ++ ": ".toList ++ message

/-- The lines that record an event about the input `name`. -/
def eventLines (name : Text) : Event → List Text
  | .started => []
  | .line number before after =>
    let mark := name ++ ':' :: Text.ofNat number
    (mark ++ ": < ".toList ++ before) :: after.lines.map fun line => mark ++ ": > ".toList ++ line
  | .finished stats =>
    let totals := name ++ ": ".toList ++ Text.ofNat stats.linesRead ++ " lines in, ".toList ++
      Text.ofNat stats.linesWritten ++ " lines out, ".toList ++
      Text.ofNat stats.hoistedComments ++ " comments hoisted".toList
    if stats.endedInsideEnum then [totals, name ++ ": input ended inside an enum body".toList]
    else [totals]

end Journal

/-- A journal with the files around it and the trace so far. -/
structure Recorder where
  /-- The files. -/
  files : FileSystem
  /-- The journal. -/
  journal : Journal
  /-- The trace so far. -/
  trace : List Trace.Record := []
  /-- What the logs did so far, one after the other. -/
  history : List (Journal.Log × LogFile.Act) := []
  deriving DecidableEq, Repr

namespace Recorder

variable (r : Recorder)

/-- Adds a record to the trace. -/
def note (level : Trace.Level) (message : Text) : Recorder :=
  { r with trace := r.trace ++ [{ level, message }] }

/-- Writes a line to a log. -/
def write (log : Journal.Log) (line : Text) : Recorder :=
  let done := (r.journal.file log).writeLine r.files line
  { files := done.files
    journal := r.journal.setFile log done.log
    trace := r.trace ++ done.warnings
    history := r.history ++ done.acts.map (log, ·) }

/-- Writes lines to a log. -/
def writeAll (log : Journal.Log) (lines : List Text) : Recorder :=
  lines.foldl (fun r line => r.write log line) r

/-- Turns to another input. -/
def beginInput (path : Path) : Recorder :=
  let r := { r with journal := { r.journal with current := some path } }
  if r.journal.level.recordsLines then r.write .debug (Journal.banner path) else r

/-- Records that an input could not be processed. -/
def recordError (path : Path) (message : Text) : Recorder :=
  let line := Journal.errorLine path message
  let r := { r with journal := { r.journal with errorsRecorded := r.journal.errorsRecorded + 1 } }
  let r := r.note .error line
  if r.journal.level.recordsErrors then r.write .errors line else r

/-- Records an event in the journal. -/
def log (event : Event) : Recorder :=
  if r.journal.level.recordsLines then
    r.writeAll .debug (Journal.eventLines r.journal.currentName event)
  else r

/-- Follows an event: first in the trace, then in the journal. -/
def observe (event : Event) : Recorder := { r with trace := r.trace ++ event.trace }.log event

/-- The lines that following an event adds to the file at `path`, if the log of every line is that
file. -/
def growth? (path : Path) : Option (Event → List Bytes) :=
  if r.journal.level.recordsLines && r.journal.debug.writesTo r.files path then
    some fun event =>
      splitLines ((Journal.eventLines r.journal.currentName event).flatMap LogFile.lineBytes)
  else none

/-- Follows the events of a run. -/
def observeAll (events : List Event) : Recorder := events.foldl observe r

/-- Flushes both logs. -/
def flush : Recorder :=
  { r with trace := r.trace ++ r.journal.debug.flush ++ r.journal.errors.flush }

/-- No data is held back, so there is nothing to flush. -/
@[simp]
theorem flush_eq : r.flush = r := by
  have hflush (log : LogFile) : log.flush = [] := by
    unfold LogFile.flush
    split
    · next handle _ => cases handle <;> rfl
    · rfl
  rw [flush, hflush, hflush, List.append_nil, List.append_nil]

end Recorder

end SchemaDoc
