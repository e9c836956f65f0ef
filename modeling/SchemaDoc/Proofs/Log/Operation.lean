import SchemaDoc.Batch.Summary
import SchemaDoc.Log.Recorder

/-!
# What a recorder is asked to do

A recorder is asked to remark something in the trace, to turn to an input, to record a failure or to
follow an event: an `Operation`. Each of them notes something beside the logs (`Recorder.noted`) and
has lines for one of the two logs, which it writes if the level asks for that log. `perform_eq` says
so, and with it what holds of a line that is written to a log (`Recorder.write`) holds of all that
is recorded.

`reports_performAll` is the first use of it: whatever the logs do, the failures that are recorded
are those that the trace tells of as errors, in their order, and they are counted.
-/

namespace SchemaDoc

namespace Journal

/-- The other one of the two logs. -/
def Log.other : Log → Log
  | debug => errors
  | errors => debug

theorem Log.eq_or_eq_other (log log' : Log) : log' = log ∨ log' = log.other := by
  cases log <;> cases log' <;> simp [other]

theorem Log.other_ne (log : Log) : log.other ≠ log := by
  cases log <;> simp [other]

theorem Log.other_other (log : Log) : log.other.other = log := by
  cases log <;> rfl

end Journal

/-- Whether a log is in use at a level. -/
def LogLevel.records (level : LogLevel) : Journal.Log → Bool
  | .debug => level.recordsLines
  | .errors => level.recordsErrors

namespace Recorder

/-! ### One line -/

section Write

variable (r : Recorder) (log : Journal.Log) (line : Text)

theorem files_write :
    (r.write log line).files = ((r.journal.file log).writeLine r.files line).files := rfl

theorem trace_write :
    (r.write log line).trace =
      r.trace ++ ((r.journal.file log).writeLine r.files line).warnings := rfl

theorem history_write :
    (r.write log line).history =
      r.history ++ ((r.journal.file log).writeLine r.files line).acts.map (log, ·) := rfl

theorem file_write_self :
    (r.write log line).journal.file log = ((r.journal.file log).writeLine r.files line).log := by
  cases log <;> rfl

theorem file_write_other :
    (r.write log line).journal.file log.other = r.journal.file log.other := by
  cases log <;> rfl

@[simp]
theorem level_write : (r.write log line).journal.level = r.journal.level := by
  cases log <;> rfl

@[simp]
theorem current_write : (r.write log line).journal.current = r.journal.current := by
  cases log <;> rfl

@[simp]
theorem errorsRecorded_write :
    (r.write log line).journal.errorsRecorded = r.journal.errorsRecorded := by
  cases log <;> rfl

theorem writeAll_cons (lines : List Text) :
    r.writeAll log (line :: lines) = (r.write log line).writeAll log lines := rfl

end Write

/-! ### Operations -/

/-- Something that a recorder can be asked to do. -/
inductive Operation where
  /-- To remark something in the trace that is no failure. -/
  | remark (level : Trace.Level) (message : Text) (hlevel : level ≠ .error)
  /-- To turn to another input. -/
  | beginInput (path : Path)
  /-- To record that an input could not be processed. -/
  | recordError (path : Path) (message : Text)
  /-- To follow an event of a run. -/
  | observe (event : Event)

namespace Operation

/-- The log that an operation has lines for. -/
def log : Operation → Journal.Log
  | recordError _ _ => .errors
  | _ => .debug

/-- The lines that an operation has for its log, when the lines of the input `name` are recorded. -/
def lines (name : Text) : Operation → List Text
  | remark _ _ _ => []
  | beginInput path => [Journal.banner path]
  | recordError path message => [Journal.errorLine path message]
  | observe event => Journal.eventLines name event

/-- The failure that an operation records, if it records one. -/
def failure? : Operation → Option Failure
  | recordError path message => some { path, message }
  | _ => none

theorem filterMap_failure?_cons (op : Operation) (ops : List Operation) :
    (op :: ops).filterMap failure? = op.failure?.toList ++ ops.filterMap failure? := by
  cases h : op.failure? <;> simp [h]

end Operation

/-- Does what an operation asks for. -/
def perform (r : Recorder) : Operation → Recorder
  | .remark level message _ => r.note level message
  | .beginInput path => r.beginInput path
  | .recordError path message => r.recordError path message
  | .observe event => r.observe event

/-- Does what operations ask for, one after the other. -/
def performAll (r : Recorder) (ops : List Operation) : Recorder := ops.foldl perform r

/-- What an operation notes beside the logs: in the trace, which input the recorder turns to, and
the number of failures. -/
def noted (r : Recorder) : Operation → Recorder
  | .remark level message _ => r.note level message
  | .beginInput path => { r with journal := { r.journal with current := some path } }
  | .recordError path message =>
    let journal := { r.journal with errorsRecorded := r.journal.errorsRecorded + 1 }
    { r with journal }.note .error (Journal.errorLine path message)
  | .observe event => { r with trace := r.trace ++ event.trace }

variable (r : Recorder) (op : Operation)

@[simp]
theorem files_noted : (r.noted op).files = r.files := by
  cases op <;> rfl

@[simp]
theorem level_noted : (r.noted op).journal.level = r.journal.level := by
  cases op <;> rfl

@[simp]
theorem history_noted : (r.noted op).history = r.history := by
  cases op <;> rfl

@[simp]
theorem file_noted (log : Journal.Log) : (r.noted op).journal.file log = r.journal.file log := by
  cases op <;> cases log <;> rfl

/-- **One operation** is noted, and its lines are written if the level asks for their log. -/
theorem perform_eq :
    r.perform op =
      if r.journal.level.records op.log then
        (r.noted op).writeAll op.log (op.lines r.journal.currentName)
      else r.noted op := by
  cases op with
  | remark level message => exact (ite_self _).symm
  | beginInput path => rfl
  | recordError path message => rfl
  | observe event => rfl

theorem performAll_cons (ops : List Operation) :
    r.performAll (op :: ops) = (r.perform op).performAll ops := rfl

theorem performAll_append (ops others : List Operation) :
    r.performAll (ops ++ others) = (r.performAll ops).performAll others :=
  List.foldl_append

/-- Following the events of a run is one operation for each. -/
theorem performAll_observe (events : List Event) :
    r.performAll (events.map .observe) = r.observeAll events :=
  List.foldl_map

end Recorder

/-! ### The trace and the count of failures -/

/-- The line about a failure. -/
def Failure.line (failure : Failure) : Text := Journal.errorLine failure.path failure.message

/-- What the trace tells of a failure. -/
def Failure.record (failure : Failure) : Trace.Record :=
  { level := .error, message := failure.line }

/-- The records of a trace that tell of failures. -/
def Trace.errors (trace : List Record) : List Record :=
  trace.filter fun record => record.level = .error

@[simp]
theorem Trace.errors_append (trace others : List Record) :
    Trace.errors (trace ++ others) = Trace.errors trace ++ Trace.errors others :=
  List.filter_append _ _

theorem Event.errors_trace (event : Event) : Trace.errors event.trace = [] := by
  cases event with
  | started => rfl
  | line number before after => rfl
  | finished stats => cases h : stats.endedInsideEnum <;> simp [Event.trace, h, Trace.errors]

/-- A log is warned of because it could not be opened or written. -/
theorem LogFile.exists_of_mem_warnings {done : Outcome} {record : Trace.Record}
    (h : record ∈ done.warnings) : ∃ action fault, record = warning done.log.path action fault ∧
      (action = "open".toList ∨ action = "write".toList) := by
  obtain ⟨act, -, hwarning⟩ := List.mem_filterMap.mp h
  cases act with
  | opening fault =>
    obtain ⟨fault, -, rfl⟩ := Option.map_eq_some_iff.mp hwarning
    exact ⟨_, fault, rfl, .inl rfl⟩
  | writing bs fault =>
    obtain ⟨fault, -, rfl⟩ := Option.map_eq_some_iff.mp hwarning
    exact ⟨_, fault, rfl, .inr rfl⟩

theorem LogFile.errors_warnings (log : LogFile) (files : FileSystem) (line : Text) :
    Trace.errors (log.writeLine files line).warnings = [] := by
  refine List.filter_eq_nil_iff.mpr fun record hrecord => ?_
  obtain ⟨action, fault, rfl, -⟩ := exists_of_mem_warnings hrecord
  exact of_decide_eq_false rfl

namespace Recorder

/-- From `r` to `r'`, the trace told of the given failures, and they were counted. -/
structure Reports (failures : List Failure) (r r' : Recorder) : Prop where
  /-- What was added to the trace tells of the failures and of no other. -/
  trace_eq : ∃ told, r'.trace = r.trace ++ told ∧ Trace.errors told = failures.map Failure.record
  /-- The number of failures grew by theirs. -/
  errorsRecorded_eq : r'.journal.errorsRecorded = r.journal.errorsRecorded + failures.length

variable {r r' r'' : Recorder} {failures others : List Failure}

theorem Reports.refl (r : Recorder) : Reports [] r r := ⟨⟨[], by simp, rfl⟩, rfl⟩

theorem Reports.trans (h : Reports failures r r') (h' : Reports others r' r'') :
    Reports (failures ++ others) r r'' := by
  obtain ⟨told, htrace, herrors⟩ := h.trace_eq
  obtain ⟨told', htrace', herrors'⟩ := h'.trace_eq
  refine ⟨⟨told ++ told', ?_, ?_⟩, ?_⟩
  · rw [htrace', htrace, List.append_assoc]
  · rw [Trace.errors_append, herrors, herrors', List.map_append]
  · rw [h'.errorsRecorded_eq, h.errorsRecorded_eq, List.length_append, Nat.add_assoc]

variable (r)

theorem reports_noted (op : Operation) : Reports op.failure?.toList r (r.noted op) := by
  cases op with
  | remark level message hlevel => exact ⟨⟨[_], rfl, by simp [Trace.errors, hlevel]; rfl⟩, rfl⟩
  | beginInput path => exact ⟨⟨[], by simp [noted], rfl⟩, rfl⟩
  | recordError path message => exact ⟨⟨[_], rfl, rfl⟩, rfl⟩
  | observe event => exact ⟨⟨event.trace, rfl, event.errors_trace⟩, rfl⟩

theorem reports_write (log : Journal.Log) (line : Text) : Reports [] r (r.write log line) :=
  ⟨⟨_, r.trace_write log line, LogFile.errors_warnings _ _ _⟩, r.errorsRecorded_write log line⟩

theorem reports_writeAll (log : Journal.Log) (lines : List Text) :
    Reports [] r (r.writeAll log lines) := by
  induction lines generalizing r with
  | nil => exact .refl r
  | cons line lines ih => exact (r.reports_write log line).trans (ih _)

theorem reports_perform (op : Operation) : Reports op.failure?.toList r (r.perform op) := by
  have hnoted := r.reports_noted op
  rw [perform_eq]
  split
  · rw [← List.append_nil op.failure?.toList]
    exact hnoted.trans (reports_writeAll _ _ _)
  · exact hnoted

/-- **All operations**: the failures that they record are told of in the trace, and counted. -/
theorem reports_performAll (ops : List Operation) :
    Reports (ops.filterMap Operation.failure?) r (r.performAll ops) := by
  induction ops generalizing r with
  | nil => exact .refl r
  | cons op ops ih =>
    rw [Operation.filterMap_failure?_cons, performAll_cons]
    exact (r.reports_perform op).trans (ih _)

end Recorder

end SchemaDoc
