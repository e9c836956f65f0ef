import SchemaDoc.Proofs.Batch.Output
import SchemaDoc.Proofs.Log.Arrival

/-!
# What a batch leaves behind

Beside its output, a batch leaves records of its failures, and it leaves log files. Its failures are
kept in three places, in the summary, in the trace and in a log, and `Session.run_reports_failures`
says that these agree. `Session.run_footprint` says that nothing else becomes of the files around a
batch than that the logs in use are created or get longer, even where the batch ends early.

Both are known from the operations that the batch asks its recorder for, `Session.run_operations`,
and hold wherever the inputs lead.
-/

namespace SchemaDoc

namespace Session

/-- **The three records of failures agree.** A batch that is carried through has told in the trace
of an error for each failure of its summary, in their order, and of no other, and has counted them,
at every level and even if the log of failures was given up. If that log is in use and its lines
arrive in a file to which the other log does not go, then just the lines of the failures were
appended to this file; without a failure it was not even created. -/
theorem run_reports_failures {s : Session} {inputs : List Path} {sink : Sink} {summary : Summary}
    (hok : (s.run inputs sink).result = .ok summary) :
    let before := s.recorder
    let after := (s.run inputs sink).session.recorder
    (∃ told, after.trace = before.trace ++ told ∧
      Trace.errors told = summary.failures.map Failure.record) ∧
    after.journal.errorsRecorded = before.journal.errorsRecorded + summary.failures.length ∧
    ∀ place, before.journal.level.recordsErrors →
      before.journal.errors.Attached before.files place →
      before.journal.debug.place? before.files ≠ some place →
      after.files.bytesAt place =
        before.files.bytesAt place ++
          (summary.failures.map Failure.line).flatMap LogFile.lineBytes ∧
      (summary.failures = [] → after.files.lookup? place = before.files.lookup? place) := by
  intro before after
  obtain ⟨ops, hrecorder, hfailures⟩ := s.run_operations inputs sink
  have hreports := s.recorder.reports_performAll ops
  rw [← hrecorder, ← hfailures summary hok] at hreports
  refine ⟨hreports.trace_eq, hreports.errorsRecorded_eq, ?_⟩
  intro place hlevel hattached hapart
  have hfeeds : s.recorder.Feeds .errors place := ⟨hlevel, hattached, hapart⟩
  have hfed := hfeeds.fed_performAll ops
  rw [← hrecorder, ← hfailures summary hok] at hfed
  exact ⟨hfed.bytesAt_eq, fun hnone => hfed.lookup?_eq (by rw [hnone]; rfl)⟩

/-- A batch with a directory and a path where nothing stands among its inputs. -/
theorem run_reports_failures_mixed :
    let s := Sample.session Sample.settings
    let after := (s.run Sample.inputs {}).session.recorder
    let directory := "d: read error: Is a directory (os error 21)".toList
    let missing :=
      "none.proto: cannot open 'none.proto': No such file or directory (os error 2)".toList
    (∃ summary, (s.run Sample.inputs {}).result = .ok summary ∧
      summary.failures.map Failure.line = [directory, missing]) ∧
    (Trace.errors after.trace).map Trace.Record.message = [directory, missing] ∧
    after.journal.errorsRecorded = 2 ∧
    after.files.bytesAt [Utf8.encode "home".toList, Utf8.encode "protodox.error.log".toList] =
      LogFile.lineBytes directory ++ LogFile.lineBytes missing := by
  intro s after directory missing
  have hclear : s.Clear Sample.inputs := by decide
  obtain ⟨-, hok⟩ := run_of_unlimited hclear {} rfl rfl
  have hlines : (Fate.countAll s.fate {} Sample.inputs).failures.map Failure.line =
      [directory, missing] := by decide
  have hlength : (Fate.countAll s.fate {} Sample.inputs).failures.length = 2 := by
    rw [← List.length_map Failure.line, hlines]
    rfl
  obtain ⟨⟨told, htrace, herrors⟩, hcount, hlog⟩ := run_reports_failures hok
  have hattached : s.recorder.journal.errors.Attached s.recorder.files
      [Utf8.encode "home".toList, Utf8.encode "protodox.error.log".toList] :=
    .closed rfl (by decide)
  have hempty : s.recorder.files.bytesAt
      [Utf8.encode "home".toList, Utf8.encode "protodox.error.log".toList] = [] := by decide
  obtain ⟨hbytes, -⟩ := hlog _ rfl hattached (by decide)
  refine ⟨⟨_, hok, hlines⟩, ?_, ?_, ?_⟩
  · have hsilent : Trace.errors s.recorder.trace = [] := rfl
    rw [htrace, Trace.errors_append, herrors, hsilent, List.nil_append, List.map_map]
    exact hlines
  · rw [hcount, hlength]
    rfl
  · rw [hbytes, hempty, hlines]
    simp

/-- **The footprint of a batch.** Whatever the inputs and the sink, and whether the batch is carried
through or not, what stands at a location stays there unless it is the file of one of the logs. A
path finds what it found before unless it now leads to such a file. No file loses any of its
content, so what a log held stands at its beginning. Without logs, nothing at all becomes of the
files, and if only failures are logged, then nothing but of the file of that log. -/
theorem run_footprint (s : Session) (inputs : List Path) (sink : Sink) :
    let before := s.recorder.files
    let after := (s.run inputs sink).session.recorder.files
    let level := s.recorder.journal.level
    let debugPlace? := s.recorder.journal.debug.place? before
    let errorsPlace? := s.recorder.journal.errors.place? before
    (∀ place, debugPlace? ≠ some place → errorsPlace? ≠ some place →
      after.lookup? place = before.lookup? place) ∧
    (∀ p, (∀ place, after.locate p = .ok place →
        debugPlace? ≠ some place ∧ errorsPlace? ≠ some place) →
      after.entry? p = before.entry? p) ∧
    (∀ p old, before.content? p = some old → ∃ new, after.content? p = some new ∧ old <+: new) ∧
    (level = .none → after = before) ∧
    (level = .errors → ∀ p, (∀ place, after.locate p = .ok place → errorsPlace? ≠ some place) →
      after.entry? p = before.entry? p) := by
  intro before after level debugPlace? errorsPlace?
  have hgrown := (s.run_extends inputs sink).grown
  have hplaces (place : Location) (hplace : place ∈ s.recorder.places) :
      (level.recordsLines ∧ debugPlace? = some place) ∨ errorsPlace? = some place := by
    obtain ⟨log, hlevel, hlog⟩ := Recorder.mem_places_iff.mp hplace
    cases log with
    | debug => exact .inl ⟨hlevel, hlog⟩
    | errors => exact .inr hlog
  refine ⟨?_, ?_, fun p old => hgrown.content?_isPrefix, ?_, ?_⟩
  · intro place hdebug herrors
    refine hgrown.lookup?_eq place fun hplace => ?_
    rcases hplaces place hplace with ⟨-, h⟩ | h
    · exact hdebug h
    · exact herrors h
  · intro p hp
    refine hgrown.entry?_eq fun place hplace hlocate => ?_
    obtain ⟨hdebug, herrors⟩ := hp place hlocate
    rcases hplaces place hplace with ⟨-, h⟩ | h
    · exact hdebug h
    · exact herrors h
  · intro hnone
    obtain ⟨ops, hrecorder, -⟩ := s.run_operations inputs sink
    exact (congrArg Recorder.files hrecorder).trans (Recorder.files_performAll_of_none hnone ops)
  · intro hlevel p hp
    refine hgrown.entry?_eq fun place hplace hlocate => ?_
    rcases hplaces place hplace with ⟨h, -⟩ | h
    · rw [hlevel] at h
      exact Bool.false_ne_true h
    · exact hp place hlocate h

/-- A batch whose failures are logged to the end of one of its inputs: nothing becomes of the other
inputs, and the log of every line is not created. -/
theorem run_footprint_into_input :
    let log : Path := .ofText "b.txt".toList
    let s := Sample.session { Sample.settings with logLevel := .errors, errorLog := log }
    let after := (s.run Sample.inputs {}).session.recorder.files
    after.entry? Sample.settings.debugLog = none ∧
    after.entry? (.ofText "a.proto".toList) = Sample.files.entry? (.ofText "a.proto".toList) ∧
    ∃ new, after.content? log = some new ∧ Utf8.encode "b".toList <+: new := by
  intro log s after
  obtain ⟨-, hother, hgrows, -, herrors⟩ := run_footprint s Sample.inputs {}
  refine ⟨?_, hother _ ?_, hgrows log _ (by decide)⟩
  · refine (herrors rfl Sample.settings.debugLog ?_).trans (by decide)
    intro place hlocate
    have hmissing : after.locate Sample.settings.debugLog = .error .notFound := by decide
    cases hmissing.symm.trans hlocate
  · intro place hlocate
    have hplace : after.locate (.ofText "a.proto".toList) =
        .ok [Utf8.encode "home".toList, Utf8.encode "a.proto".toList] := by decide
    obtain rfl := Except.ok.inj (hplace.symm.trans hlocate)
    decide

end Session

end SchemaDoc
