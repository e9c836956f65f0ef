import SchemaDoc.Proofs.FileSystem.Growth
import SchemaDoc.Proofs.Log.Operation

/-!
# What recording touches

A log touches one regular file at most, the one at `LogFile.place?`: it opens that file or creates
it, and makes it longer. Whatever a recorder is told, the files around it therefore grow at the
places of the logs that are in use, and these logs stay with their places: `Recorder.Extends`.

An input is `Recorder.Clear` of a recorder if the path to it looks at none of these places. What the
input delivers is then the same whatever was recorded in between: `Recorder.Extends.openRead_eq`.
-/

namespace SchemaDoc

open FileSystem (Grown)

namespace LogFile

/-- The location of the regular file that the lines of a log go to, if there is one. -/
def place? (log : LogFile) (files : FileSystem) : Option Location :=
  match log.state with
  | .closed => files.appendPlace? log.path
  | .opened handle => handle.place?
  | .disabled => none

variable {log : LogFile} {files files' : FileSystem}

theorem place?_eq_of_grown {places : List Location} (h : Grown places files files')
    (log : LogFile) : log.place? files' = log.place? files := by
  unfold place?
  cases log.state with
  | closed => exact h.appendPlace?_eq log.path
  | opened handle => rfl
  | disabled => rfl

/-- An operation on a log touched no file but that of the log, and left the log with this file or
with none. -/
structure Outcome.Within (log : LogFile) (files : FileSystem) (done : Outcome) : Prop where
  /-- Only the file of the log may have grown. -/
  grown : Grown (log.place? files).toList files done.files
  /-- The log did not turn to another file. -/
  place?_subset : (done.log.place? done.files).toList ⊆ (log.place? files).toList

theorem prepare_within (log : LogFile) (files : FileSystem) :
    (log.prepare files).Within log files := by
  unfold prepare
  split
  · next hstate =>
    split
    · next grown handle hopen =>
      have hplace : log.place? files = handle.place? := by
        rw [place?, hstate, FileSystem.appendPlace?, hopen]
      refine ⟨?_, ?_⟩
      · rw [hplace]
        exact FileSystem.grown_openAppend hopen
      · rw [hplace]
        exact List.Subset.refl _
    · exact ⟨.refl _ _, by simp [place?]⟩
  · exact ⟨.refl _ _, List.Subset.refl _⟩

theorem append_within (log : LogFile) (files : FileSystem) (line : Text) :
    (log.append files line).Within log files := by
  unfold append
  split
  · next handle hstate =>
    have hplace : log.place? files = handle.place? := by rw [place?, hstate]
    split
    · next happend =>
      have hgrown := FileSystem.grown_append happend
      exact ⟨by rwa [hplace], by rw [place?_eq_of_grown hgrown]; exact List.Subset.refl _⟩
    · exact ⟨.refl _ _, by simp [place?]⟩
  · exact ⟨.refl _ _, List.Subset.refl _⟩

/-- **Writing a line** touches no file but that of the log. -/
theorem writeLine_within (log : LogFile) (files : FileSystem) (line : Text) :
    (log.writeLine files line).Within log files := by
  have hready := prepare_within log files
  have hdone := append_within (log.prepare files).log (log.prepare files).files line
  exact ⟨hready.grown.trans (hdone.grown.mono hready.place?_subset),
    List.Subset.trans hdone.place?_subset hready.place?_subset⟩

/-- An open log writes to the file at a path if the path leads to the place of the log. -/
theorem locate_of_writesTo {p : Path} (h : log.writesTo files p) :
    ∃ place, log.place? files = some place ∧ files.locate p = .ok place := by
  unfold writesTo at h
  split at h
  · next handle hstate =>
    unfold FileSystem.leadsTo at h
    split at h
    · next place opened id hlocate =>
      have hopened : place = opened := by simpa using (Bool.and_eq_true_iff.mp h).1
      have hlocate : files.locate p = .ok place := by
        cases hcase : files.locate p <;> simp_all [Except.toOption]
      exact ⟨place, by simp [place?, hstate, Handle.place?, hopened], hlocate⟩
    · cases h
  · cases h

/-- A path that leads to the file of an open log looks at the place of the log. -/
theorem exists_of_writesTo {p : Path} (h : log.writesTo files p) :
    ∃ place, log.place? files = some place ∧ place ∈ files.trail p := by
  obtain ⟨place, hplace, hlocate⟩ := locate_of_writesTo h
  exact ⟨place, hplace, FileSystem.mem_trail_of_locate hlocate⟩

end LogFile

namespace Recorder

/-- The logs that are in use at the recorder's level. -/
def logs (r : Recorder) : List LogFile :=
  (if r.journal.level.recordsLines then [r.journal.debug] else []) ++
    if r.journal.level.recordsErrors then [r.journal.errors] else []

/-- The places of the logs in use. -/
def places (r : Recorder) : List Location := r.logs.filterMap fun log => log.place? r.files

/-- The location of the file that the lines of a log go to, if there is one. -/
def place? (r : Recorder) (log : Journal.Log) : Option Location :=
  (r.journal.file log).place? r.files

/-- A recorder comes from another by recording: at its places the files may have grown, and it has
no other places. -/
structure Extends (r' r : Recorder) : Prop where
  /-- The level is not touched. -/
  level_eq : r'.journal.level = r.journal.level
  /-- Only at the places of the logs in use may files have grown. -/
  grown : Grown r.places r.files r'.files
  /-- No log turned to another file. -/
  places_subset : r'.places ⊆ r.places

namespace Extends

variable {r r' r'' : Recorder}

theorem refl (r : Recorder) : r.Extends r := ⟨rfl, .refl _ _, List.Subset.refl _⟩

theorem trans (h' : r''.Extends r') (h : r'.Extends r) : r''.Extends r where
  level_eq := h'.level_eq.trans h.level_eq
  grown := h.grown.trans (h'.grown.mono h.places_subset)
  places_subset := List.Subset.trans h'.places_subset h.places_subset

end Extends

variable {r : Recorder}

/-- The places are those of the files of the logs in use. -/
theorem mem_places_iff {place : Location} : place ∈ r.places ↔
    ∃ log, r.journal.level.records log = true ∧
      (r.journal.file log).place? r.files = some place := by
  have hlogs (f : LogFile) : f ∈ r.logs ↔
      ∃ log, r.journal.level.records log = true ∧ r.journal.file log = f := by
    constructor
    · intro hf
      rcases List.mem_append.mp hf with hf | hf
      · exact ⟨.debug, by simp_all [LogLevel.records, Journal.file]⟩
      · exact ⟨.errors, by simp_all [LogLevel.records, Journal.file]⟩
    · rintro ⟨log, hlevel, rfl⟩
      cases log <;> simp_all [logs, LogLevel.records, Journal.file]
  simp only [places, List.mem_filterMap, hlogs]
  constructor
  · rintro ⟨_, ⟨log, hlevel, rfl⟩, hplace⟩
    exact ⟨log, hlevel, hplace⟩
  · rintro ⟨log, hlevel, hplace⟩
    exact ⟨_, ⟨log, hlevel, rfl⟩, hplace⟩

/-- **One line** for a log in use. -/
theorem extends_write {log : Journal.Log} (h : r.journal.level.records log) (line : Text) :
    (r.write log line).Extends r := by
  have hdone := LogFile.writeLine_within (r.journal.file log) r.files line
  have hsub : ((r.journal.file log).place? r.files).toList ⊆ r.places := fun place hplace =>
    mem_places_iff.mpr ⟨log, h, Option.mem_toList.mp hplace⟩
  refine ⟨r.level_write log line, ?_, ?_⟩
  · rw [files_write]
    exact hdone.grown.mono hsub
  · intro place hplace
    obtain ⟨log', hlevel, hplace⟩ := mem_places_iff.mp hplace
    rw [level_write] at hlevel
    rw [files_write] at hplace
    rcases log.eq_or_eq_other log' with rfl | rfl
    · rw [file_write_self] at hplace
      exact hsub (hdone.place?_subset (Option.mem_toList.mpr hplace))
    -- the other log still finds the way to its place in the files as they are now
    · rw [file_write_other, LogFile.place?_eq_of_grown hdone.grown] at hplace
      exact mem_places_iff.mpr ⟨_, hlevel, hplace⟩

theorem extends_writeAll {log : Journal.Log} (h : r.journal.level.records log)
    (lines : List Text) : (r.writeAll log lines).Extends r := by
  induction lines generalizing r with
  | nil => exact .refl r
  | cons line lines ih =>
    have hline := extends_write h line
    exact (ih (by rwa [hline.level_eq])).trans hline

variable (r)

/-- **One operation** touches the places of the logs in use only. -/
theorem extends_perform (op : Operation) : (r.perform op).Extends r := by
  have hnoted : (r.noted op).Extends r := by
    cases op <;> exact ⟨rfl, .refl _ _, List.Subset.refl _⟩
  rw [perform_eq]
  split
  · next h => exact (extends_writeAll (by rwa [level_noted]) _).trans hnoted
  · exact hnoted

/-- **All operations** together touch the places of the logs in use only. -/
theorem extends_performAll (ops : List Operation) : (r.performAll ops).Extends r := by
  induction ops generalizing r with
  | nil => exact .refl r
  | cons op ops ih => exact (ih _).trans (r.extends_perform op)

theorem extends_note (level : Trace.Level) (message : Text) : (r.note level message).Extends r :=
  ⟨rfl, .refl _ _, List.Subset.refl _⟩

theorem extends_beginInput (path : Path) : (r.beginInput path).Extends r :=
  r.extends_perform (.beginInput path)

variable {r}

/-- With no log in use, nothing at all is done to the files. -/
theorem files_performAll_of_none (h : r.journal.level = .none) (ops : List Operation) :
    (r.performAll ops).files = r.files := by
  induction ops generalizing r with
  | nil => rfl
  | cons op ops ih =>
    have hunused : r.journal.level.records op.log = false := by
      rw [h]
      cases op.log <;> rfl
    have hone : (r.perform op).files = r.files := by
      rw [perform_eq, hunused, if_neg Bool.false_ne_true, files_noted]
    rw [performAll_cons, ih ((r.extends_perform op).level_eq.trans h), hone]

/-! ### Inputs that the records do not reach -/

/-- The path looks at no file that is recorded to. -/
def Clear (r : Recorder) (p : Path) : Prop := ∀ place ∈ r.places, place ∉ r.files.trail p

instance (r : Recorder) (p : Path) : Decidable (r.Clear p) :=
  inferInstanceAs (Decidable (∀ place ∈ r.places, place ∉ r.files.trail p))

variable {r' : Recorder} {p : Path}

theorem Extends.clear (h : r'.Extends r) (hp : r.Clear p) : r'.Clear p := by
  intro place hplace
  rw [h.grown.trail_eq hp]
  exact hp place (h.places_subset hplace)

/-- **What an input delivers** does not depend on the records that it is clear of. -/
theorem Extends.openRead_eq (h : r'.Extends r) (hp : r.Clear p) :
    r'.files.openRead p = r.files.openRead p :=
  h.grown.openRead_eq hp

/-- An input that is clear of the records does not grow by them. -/
theorem Clear.growth?_eq_none (hp : r.Clear p) : r.growth? p = none := by
  unfold growth?
  split
  · next h =>
    obtain ⟨hlevel, hwrites⟩ := Bool.and_eq_true_iff.mp h
    obtain ⟨place, hplace, htrail⟩ := LogFile.exists_of_writesTo hwrites
    exact absurd htrail (hp place (mem_places_iff.mpr ⟨.debug, hlevel, hplace⟩))
  · rfl

end Recorder

end SchemaDoc
