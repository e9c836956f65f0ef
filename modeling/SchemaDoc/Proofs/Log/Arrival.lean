import SchemaDoc.Proofs.Log.Frame

/-!
# Where recorded lines arrive

A log is `Attached` to a place if the lines written to it arrive in the regular file there. It
stays so when lines are written to it (`Attached.writeLine`) and when files grow elsewhere
(`Attached.of_grown`). A recorder `Feeds` a place from one of its logs if that log is in use and
attached to the place, and the other log goes elsewhere. Then just the lines for that log stand
there in the end: `Fed` says which lines these are, `Feeds.fed_perform` for each thing that the
recorder can be asked to do, and `Fed.trans` puts them one after the other.

What is `Logged` in the log of every line depends on the input that the recorder is at; the log of
failures has one line for each of them, whatever else is done: `Feeds.fed_performAll`.
-/

namespace SchemaDoc

namespace LogFile

/-- The lines of the log arrive in the regular file at `place`. -/
inductive Attached (log : LogFile) (files : FileSystem) (place : Location) : Prop
  /-- The first line opens the file there, or creates it. -/
  | closed (hstate : log.state = .closed) (hplace : files.appendPlace? log.path = some place)
  /-- The file was opened and still stands there. -/
  | opened {id : Nat} {data : FileData} (hstate : log.state = .opened (.file place id))
    (hfile : files.lookup? place = some (.file id data))

variable {log : LogFile} {files files' : FileSystem} {place : Location}

/-- Files that grow do not get in the way of a log. -/
theorem Attached.of_grown {places : List Location} (h : log.Attached files place)
    (hgrown : FileSystem.Grown places files files') : log.Attached files' place := by
  cases h with
  | closed hstate hplace => exact .closed hstate ((hgrown.appendPlace?_eq log.path).trans hplace)
  | @opened id data hstate hfile =>
    have hgrows := hgrown.grows place
    rw [hfile] at hgrows
    obtain ⟨data', hfile', -⟩ := hgrows.exists_file
    exact .opened hstate hfile'

/-- An attached log can be opened, which leaves the bytes of its file alone. -/
theorem Attached.prepare (h : log.Attached files place) :
    ∃ id data, (log.prepare files).log.state = .opened (.file place id) ∧
      (log.prepare files).files.lookup? place = some (.file id data) ∧
      data.content = files.bytesAt place := by
  cases h with
  | closed hstate hplace =>
    obtain ⟨grown, id, data, hopen, hfile, hcontent⟩ :=
      FileSystem.openAppend_of_appendPlace? hplace
    refine ⟨id, data, ?_⟩
    simp only [LogFile.prepare, hstate, hopen]
    exact ⟨trivial, hfile, hcontent⟩
  | @opened id data hstate hfile =>
    refine ⟨id, data, ?_⟩
    simp only [LogFile.prepare, hstate]
    exact ⟨trivial, hfile, (FileSystem.bytesAt_of_lookup? hfile).symm⟩

/-- **A line** written to an attached log stands at the end of the file, and the log stays
attached. -/
theorem Attached.writeLine (h : log.Attached files place) (line : Text) :
    (log.writeLine files line).log.Attached (log.writeLine files line).files place ∧
      (log.writeLine files line).files.bytesAt place = files.bytesAt place ++ lineBytes line := by
  obtain ⟨id, data, hstate, hfile, hcontent⟩ := h.prepare
  obtain ⟨files', data', happend, hfile', hcontent'⟩ :=
    FileSystem.append_of_lookup? hfile (lineBytes line)
  have hfiles : (log.writeLine files line).files = files' := by
    simp only [LogFile.writeLine, append, hstate, happend]
  have hlog : (log.writeLine files line).log = (log.prepare files).log := by
    simp only [LogFile.writeLine, append, hstate, happend]
  rw [hfiles, hlog]
  refine ⟨.opened hstate hfile', ?_⟩
  rw [FileSystem.bytesAt_of_lookup? hfile', hcontent', hcontent]

end LogFile

namespace Recorder

open Journal (Log)

/-- The lines of a log in use are recorded in the file at `place`, and nothing else is. -/
structure Feeds (r : Recorder) (log : Log) (place : Location) : Prop where
  /-- The level asks for the log. -/
  records : r.journal.level.records log
  /-- The lines arrive. -/
  attached : (r.journal.file log).Attached r.files place
  /-- The other log goes to another file. -/
  other_ne : (r.journal.file log.other).place? r.files ≠ some place

/-- From `r` to `r'`, the given lines of a log were recorded in the file at `place`, and nothing
else. -/
structure Fed (log : Log) (place : Location) (lines : List Text) (r r' : Recorder) : Prop where
  /-- Further lines will arrive. -/
  feeds : r'.Feeds log place
  /-- The lines stand at the end of the file. -/
  bytesAt_eq : r'.files.bytesAt place = r.files.bytesAt place ++ lines.flatMap LogFile.lineBytes
  /-- Without a line, the file is not even created. -/
  lookup?_eq : lines = [] → r'.files.lookup? place = r.files.lookup? place

variable {r r' r'' : Recorder} {log : Log} {place : Location} {lines lines' : List Text}

theorem Fed.trans (h : Fed log place lines r r') (h' : Fed log place lines' r' r'') :
    Fed log place (lines ++ lines') r r'' := by
  refine ⟨h'.feeds, ?_, ?_⟩
  · rw [h'.bytesAt_eq, h.bytesAt_eq, List.append_assoc, List.flatMap_append]
  · intro hnil
    obtain ⟨hlines, hlines'⟩ := List.append_eq_nil_iff.mp hnil
    exact (h'.lookup?_eq hlines').trans (h.lookup?_eq hlines)

theorem Fed.trans_nil (h : Fed log place lines r r') (h' : Fed log place [] r' r'') :
    Fed log place lines r r'' := by
  have hall := h.trans h'
  rwa [List.append_nil] at hall

/-- Nothing is recorded by what touches neither the files nor the logs. -/
theorem Feeds.fed_nil (h : r.Feeds log place) (hfiles : r'.files = r.files)
    (hlevel : r'.journal.level = r.journal.level)
    (hfile : ∀ log, r'.journal.file log = r.journal.file log) : Fed log place [] r r' := by
  refine ⟨⟨?_, ?_, ?_⟩, by simp [hfiles], fun _ => by rw [hfiles]⟩
  · rw [hlevel]
    exact h.records
  · rw [hfiles, hfile]
    exact h.attached
  · rw [hfiles, hfile]
    exact h.other_ne

/-- **One line** of the log. -/
theorem Feeds.fed_write (h : r.Feeds log place) (line : Text) :
    Fed log place [line] r (r.write log line) := by
  obtain ⟨hattached, hbytes⟩ := h.attached.writeLine line
  have hgrown := (LogFile.writeLine_within (r.journal.file log) r.files line).grown
  refine ⟨⟨?_, ?_, ?_⟩, ?_, fun hnil => absurd hnil (List.cons_ne_nil _ _)⟩
  · rw [level_write]
    exact h.records
  · rw [file_write_self, files_write]
    exact hattached
  · rw [file_write_other, files_write, LogFile.place?_eq_of_grown hgrown]
    exact h.other_ne
  · rw [List.flatMap_singleton, files_write]
    exact hbytes

/-- **One line** of the other log, which goes to another file. -/
theorem Feeds.fed_write_other (h : r.Feeds log place) (line : Text) :
    Fed log place [] r (r.write log.other line) := by
  have hdone := LogFile.writeLine_within (r.journal.file log.other) r.files line
  have hoff : place ∉ ((r.journal.file log.other).place? r.files).toList := by
    simpa using h.other_ne
  have hlookup : (r.write log.other line).files.lookup? place = r.files.lookup? place := by
    rw [files_write]
    exact hdone.grown.lookup?_eq place hoff
  have hself : (r.write log.other line).journal.file log = r.journal.file log := by
    simpa only [log.other_other] using r.file_write_other log.other line
  refine ⟨⟨?_, ?_, ?_⟩, ?_, fun _ => hlookup⟩
  · rw [level_write]
    exact h.records
  · rw [hself, files_write]
    exact h.attached.of_grown hdone.grown
  · rw [file_write_self, files_write]
    intro hplace
    exact hoff (hdone.place?_subset (Option.mem_toList.mpr hplace))
  · simp [FileSystem.bytesAt, hlookup]

theorem Feeds.fed_writeAll (h : r.Feeds log place) (lines : List Text) :
    Fed log place lines r (r.writeAll log lines) := by
  induction lines generalizing r with
  | nil => exact h.fed_nil rfl rfl fun _ => rfl
  | cons line lines ih =>
    have hline := h.fed_write line
    exact hline.trans (ih hline.feeds)

theorem Feeds.fed_writeAll_other (h : r.Feeds log place) (lines : List Text) :
    Fed log place [] r (r.writeAll log.other lines) := by
  induction lines generalizing r with
  | nil => exact h.fed_nil rfl rfl fun _ => rfl
  | cons line lines ih =>
    have hline := h.fed_write_other line
    exact hline.trans (ih hline.feeds)

/-- **One operation** records its lines in its log, and nothing in the other. -/
theorem Feeds.fed_perform (h : r.Feeds log place) (op : Operation) :
    Fed log place (if op.log = log then op.lines r.journal.currentName else []) r
      (r.perform op) := by
  have hnoted : Fed log place [] r (r.noted op) :=
    h.fed_nil (r.files_noted op) (r.level_noted op) (r.file_noted op)
  rw [perform_eq]
  rcases log.eq_or_eq_other op.log with hlog | hlog
  · rw [hlog, if_pos rfl, if_pos h.records]
    exact hnoted.trans (hnoted.feeds.fed_writeAll _)
  · rw [hlog, if_neg log.other_ne]
    split
    · exact hnoted.trans (hnoted.feeds.fed_writeAll_other _)
    · exact hnoted

/-! ### The log of every line -/

/-- Every line is recorded, and in the file at `place`, where nothing else is recorded. -/
abbrev LogsTo (r : Recorder) (place : Location) : Prop := r.Feeds .debug place

/-- From `r` to `r'`, the given lines were recorded in the log of every line, and nothing else. -/
abbrev Logged (place : Location) (lines : List Text) (r r' : Recorder) : Prop :=
  Fed .debug place lines r r'

theorem Feeds.logged_note (h : r.LogsTo place) (level : Trace.Level) (message : Text) :
    Logged place [] r (r.note level message) :=
  h.fed_nil rfl rfl fun _ => rfl

/-- Turning to another input records its banner. -/
theorem Feeds.logged_beginInput (h : r.LogsTo place) (path : Path) :
    Logged place [Journal.banner path] r (r.beginInput path) :=
  h.fed_perform (.beginInput path)

theorem currentName_beginInput (r : Recorder) (path : Path) :
    (r.beginInput path).journal.currentName = path.display := by
  unfold beginInput
  dsimp only
  split <;> rfl

theorem Feeds.logged_recordError (h : r.LogsTo place) (path : Path) (message : Text) :
    Logged place [] r (r.recordError path message) :=
  h.fed_perform (.recordError path message)

theorem current_writeAll (r : Recorder) (log : Log) (lines : List Text) :
    (r.writeAll log lines).journal.current = r.journal.current := by
  induction lines generalizing r with
  | nil => rfl
  | cons line lines ih => rw [writeAll_cons, ih, current_write]

theorem current_observe (r : Recorder) (event : Event) :
    (r.observe event).journal.current = r.journal.current := by
  have hobserve := r.perform_eq (.observe event)
  rw [perform] at hobserve
  rw [hobserve]
  split
  · exact current_writeAll _ _ _
  · rfl

/-- **The events of a run** are recorded in their lines, one after the other. -/
theorem Feeds.logged_observeAll (h : r.LogsTo place) (events : List Event) :
    Logged place (events.flatMap (Journal.eventLines r.journal.currentName)) r
      (r.observeAll events) := by
  induction events generalizing r with
  | nil => exact h.fed_nil rfl rfl fun _ => rfl
  | cons event events ih =>
    have hevent : Logged place (Journal.eventLines r.journal.currentName event) r
        (r.observe event) := h.fed_perform (.observe event)
    have hname : (r.observe event).journal.currentName = r.journal.currentName := by
      rw [Journal.currentName, current_observe, Journal.currentName]
    have hrest := ih hevent.feeds
    rw [hname] at hrest
    exact hevent.trans hrest

/-! ### The log of failures -/

/-- **All operations** record in the log of failures a line for each failure, in their order. -/
theorem Feeds.fed_performAll (h : r.Feeds .errors place) (ops : List Operation) :
    Fed .errors place ((ops.filterMap Operation.failure?).map Failure.line) r
      (r.performAll ops) := by
  induction ops generalizing r with
  | nil => exact h.fed_nil rfl rfl fun _ => rfl
  | cons op ops ih =>
    have hop : Fed .errors place (op.failure?.toList.map Failure.line) r (r.perform op) := by
      have hperform := h.fed_perform op
      cases op <;> exact hperform
    rw [Operation.filterMap_failure?_cons, List.map_append, performAll_cons]
    exact hop.trans (ih hop.feeds)

end Recorder

end SchemaDoc
