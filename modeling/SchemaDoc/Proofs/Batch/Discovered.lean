import SchemaDoc.Proofs.Batch.Output
import SchemaDoc.Proofs.Input.Discovery

/-!
# Batches of discovered schemas

A batch of schemas leaves no input out and copies none. Into a sink that never fails each schema is
recast or counted as a failure, unless its lines are logged to the schema itself, which has no end
then: `Batch.process_counts` for one schema, `Batch.processAll_counts` for all of them. Whether this
can happen is known before the batch starts, because a log does not turn to another file:
`Recorder.place?_performAll`.

`Session.discover_exact` joins this to what is discovered in a directory.
-/

namespace SchemaDoc

open Recorder (Operation)

/-! ### What recording keeps -/

namespace Recorder

variable {r : Recorder}

/-- What is kept by notes and by lines for a log is kept by all operations. -/
theorem performAll_keeps {P : Recorder → Prop} (hnoted : ∀ r op, P r → P (r.noted op))
    (hwrite : ∀ r log line, P r → P (r.write log line)) (h : P r) (ops : List Operation) :
    P (r.performAll ops) := by
  have hwriteAll (log : Journal.Log) (lines : List Text) {r : Recorder} (h : P r) :
      P (r.writeAll log lines) := by
    induction lines generalizing r with
    | nil => exact h
    | cons line lines ih => exact ih (hwrite r log line h)
  induction ops generalizing r with
  | nil => exact h
  | cons op ops ih =>
    rw [performAll_cons]
    refine ih ?_
    rw [perform_eq]
    split
    · exact hwriteAll _ _ (hnoted r op h)
    · exact hnoted r op h

theorem place?_write_subset (r : Recorder) (log written : Journal.Log) (line : Text) :
    ((r.write written line).place? log).toList ⊆ (r.place? log).toList := by
  have hdone := LogFile.writeLine_within (r.journal.file written) r.files line
  rw [place?, files_write]
  rcases written.eq_or_eq_other log with rfl | rfl
  · rw [file_write_self]
    exact hdone.place?_subset
  · rw [file_write_other, LogFile.place?_eq_of_grown hdone.grown]
    exact List.Subset.refl _

/-- **No log turns to another file**, whatever is recorded. -/
theorem place?_performAll {place : Location} {log : Journal.Log} (ops : List Operation)
    (h : (r.performAll ops).place? log = some place) : r.place? log = some place := by
  have hsubset : ((r.performAll ops).place? log).toList ⊆ (r.place? log).toList := by
    refine performAll_keeps (P := fun r' => (r'.place? log).toList ⊆ (r.place? log).toList)
      (fun r' op hr' => ?_) (fun r' written line hr' => ?_) (List.Subset.refl _) ops
    · rwa [place?, files_noted, file_noted]
    · exact List.Subset.trans (r'.place?_write_subset log written line) hr'
  exact Option.mem_toList.mp (hsubset (Option.mem_toList.mpr h))

/-- An input grows by the records only if the log of every line goes there. -/
theorem place?_of_growth? {p : Path} {growth : Event → List Bytes} (h : r.growth? p = some growth) :
    r.journal.level.recordsLines ∧ ∃ place, r.place? .debug = some place ∧
      r.files.locate p = .ok place := by
  unfold growth? at h
  split at h
  · next hgrows =>
    obtain ⟨hlevel, hwrites⟩ := Bool.and_eq_true_iff.mp hgrows
    exact ⟨hlevel, LogFile.locate_of_writesTo hwrites⟩
  · cases h

end Recorder

/-! ### Counting schemas -/

/-- A sink that takes everything. -/
structure Sink.Unfailing (sink : Sink) : Prop where
  limit_eq : sink.limit = none
  flushing_eq : sink.flushing = .succeeds

theorem Sink.Unfailing.write {sink : Sink} (h : sink.Unfailing) (out : Bytes) :
    (sink.write out).sink.Unfailing :=
  ⟨h.limit_eq, h.flushing_eq⟩

theorem Sink.Unfailing.delivery_eq {α : Type} {sink : Sink} (h : sink.Unfailing) (out : Bytes)
    (value : α) : sink.delivery out value = .ok value := by
  have hflush : (sink.write out).sink.flush = none := by
    simp [Sink.flush, Sink.write, h.flushing_eq]
  have hrefusal : sink.refusal? out = none := by
    rw [Sink.refusal?, hflush, sink.write_of_fits (by simp [h.limit_eq])]
    rfl
  rw [Sink.delivery, hrefusal]

namespace Batch

/-- From one summary to another, so many schemas were counted and nothing else. -/
structure Counted (summary summary' : Summary) (schemas : Nat) : Prop where
  schemas_eq : summary'.transformed + summary'.failures.length =
    summary.transformed + summary.failures.length + schemas
  passedThrough_eq : summary'.passedThrough = summary.passedThrough
  skipped_eq : summary'.skipped = summary.skipped

/-- How a batch of schemas goes into a sink that takes everything: all of them are counted, or it
comes to one that grows by the records. -/
inductive Step.Counts (b : Batch) (paths : List Path) (step : Step) : Prop
  /-- All are counted. -/
  | all (hstop : step.stop = none) (hsink : step.batch.sink.Unfailing)
    (hcounted : Counted b.summary step.batch.summary paths.length)
  /-- One has no end. -/
  | endless {path : Path} (hpath : path ∈ paths) (hstop : step.stop = some (.endless path))
    (ops : List Operation) {growth : Event → List Bytes}
    (hgrowth : (b.recorder.performAll ops).growth? path = some growth)

variable {b : Batch} {c : Classifier} {path : Path}

/-- A schema that cannot be opened or read is counted as a failure. -/
theorem settle_counts_failure {b' : Batch} (error : StreamError) (hwrite : error.isWrite = false)
    (hends : error ≠ .endless) (hsink : b'.sink.Unfailing) (hsummary : b'.summary = b.summary)
    (written : Bytes) (counted : Summary) :
    (b'.settle path written counted (.error error)).Counts b [path] := by
  have hcounted (failure : Failure) : Counted b.summary
      { b'.summary with failures := b'.summary.failures ++ [failure] } 1 := by
    rw [hsummary]
    exact ⟨by simp [Nat.add_assoc], rfl, rfl⟩
  cases error with
  | read fault => exact .all rfl hsink (hcounted _)
  | write fault => cases hwrite
  | cannotOpen other fault => exact .all rfl hsink (hcounted _)
  | endless => exact absurd rfl hends

theorem recastInput_counts (path : Path) (hsink : b.sink.Unfailing) :
    (b.recastInput path).Counts b [path] := by
  unfold recastInput
  dsimp only
  cases hgrowth : (b.recorder.beginInput path).growth? path with
  | none =>
    dsimp only
    cases hread : (b.recorder.beginInput path).files.read path with
    | ok content =>
      obtain ⟨-, hrun, hresult⟩ := Run.ofSource_delivery content b.sink
      rw [Run.ofFile_of_read_eq_ok hread, hresult, hsink.delivery_eq]
      refine .all rfl (hrun ▸ hsink.write _) ⟨?_, rfl, rfl⟩
      simp only [settle, List.length_singleton]
      omega
    | error error =>
      obtain ⟨events, -, hrun⟩ := Run.ofFile_of_read_eq_error hread b.sink
      rw [hrun]
      have hends : error ≠ .endless := by
        obtain ⟨fault, rfl, -⟩ | ⟨fault, rfl, -⟩ := FileSystem.openRead_of_read_eq_error hread
        · simp
        · simp
      refine settle_counts_failure error (FileSystem.isWrite_of_read_eq_error hread) hends ?_ ?_ _ _
      · exact hsink
      · rfl
  | some growth =>
    dsimp only [Run.ofGrowingFile]
    cases (b.recorder.beginInput path).files.openRead path with
    | error fault =>
      refine settle_counts_failure (.cannotOpen path fault) rfl (by simp) ?_ ?_ _ _
      · exact hsink
      · rfl
    | ok source =>
      -- the schema would grow by every line that is read from it
      have hrun : (Run.ofGrowing source growth b.sink).result = .error .endless := by
        simp [Run.ofGrowing, hsink.limit_eq]
      refine .endless List.mem_cons_self ?_ [.beginInput path] hgrowth
      simp [hrun, Except.map, settle]

/-- **One schema** is counted, unless it grows by the records. -/
theorem process_counts (hkind : c.classify path = .schema) (hsink : b.sink.Unfailing) :
    (b.process c path).Counts b [path] := by
  unfold process
  simp only [hkind]
  generalize path.display ++ " classified as ".toList ++ InputKind.schema.name = message
  have hcounts := recastInput_counts (b := { b with recorder := b.recorder.note .debug message })
    path hsink
  cases hcounts with
  | all hstop hsink hcounted => exact .all hstop hsink hcounted
  | endless hpath hstop ops hgrowth =>
    exact .endless hpath hstop (.remark .debug message (by decide) :: ops) hgrowth

/-- **All schemas** are counted, up to one that grows by the records. -/
theorem processAll_counts {paths : List Path} (hkinds : ∀ path ∈ paths, c.classify path = .schema)
    (hsink : b.sink.Unfailing) : (processAll c b paths).Counts b paths := by
  induction paths generalizing b with
  | nil => exact .all rfl hsink ⟨rfl, rfl, rfl⟩
  | cons path paths ih =>
    obtain ⟨hkind, hkinds⟩ := List.forall_mem_cons.mp hkinds
    obtain ⟨before, hbefore, -⟩ := b.process_records path c
    rw [processAll]
    cases process_counts hkind hsink with
    | all hstop hsink hcounted =>
      simp only [hstop]
      cases ih hkinds hsink with
      | all hstop' hsink' hcounted' =>
        refine .all hstop' hsink' ⟨?_, ?_, ?_⟩
        · rw [hcounted'.schemas_eq, hcounted.schemas_eq, List.length_singleton, List.length_cons]
          omega
        · exact hcounted'.passedThrough_eq.trans hcounted.passedThrough_eq
        · exact hcounted'.skipped_eq.trans hcounted.skipped_eq
      | endless hpath hstop' ops hgrowth =>
        rw [hbefore, ← Recorder.performAll_append] at hgrowth
        exact .endless (List.mem_cons_of_mem _ hpath) hstop' (before ++ ops) hgrowth
    | endless hpath hstop ops hgrowth =>
      obtain rfl := List.mem_singleton.mp hpath
      simp only [hstop]
      exact .endless List.mem_cons_self hstop ops hgrowth

end Batch

namespace Session

variable {s : Session}

/-- **A batch of schemas** into a sink that never fails counts all of them, unless its log of every
line goes to one of them. -/
theorem run_of_schemas {paths : List Path}
    (hkinds : ∀ path ∈ paths, s.classifier.classify path = .schema)
    (hpaths : ∀ path ∈ paths, ∃ place, s.recorder.files.locate path = .ok place) {sink : Sink}
    (hsink : sink.Unfailing) :
    (∃ summary, (s.run paths sink).result = .ok summary ∧ summary.skipped = 0 ∧
      summary.passedThrough = 0 ∧
      summary.transformed + summary.failures.length = paths.length) ∨
    ∃ path ∈ paths, ∃ place, (s.run paths sink).result = .error (.endless path) ∧
      s.recorder.journal.level.recordsLines ∧ s.recorder.place? .debug = some place ∧
      s.recorder.files.locate path = .ok place := by
  have hcounts := Batch.processAll_counts (b := { recorder := s.recorder, sink }) hkinds hsink
  unfold run
  generalize Batch.processAll s.classifier { recorder := s.recorder, sink } paths = step at hcounts
  cases hcounts with
  | all hstop hsink hcounted =>
    refine .inl ⟨step.batch.summary, ?_, hcounted.skipped_eq, hcounted.passedThrough_eq, ?_⟩
    · simp only [hstop]
    · simpa using hcounted.schemas_eq
  | @endless path hpath hstop ops growth hgrowth =>
    have hextends := s.recorder.extends_performAll ops
    obtain ⟨hlevel, later, hlater, hlocate⟩ := Recorder.place?_of_growth? hgrowth
    -- where the path leads in the end is where it led at the start
    obtain ⟨place, hplace⟩ := hpaths path hpath
    obtain rfl : place = later :=
      Except.ok.inj ((hextends.grown.locate_eq_ok hplace).symm.trans hlocate)
    rw [hextends.level_eq] at hlevel
    refine .inr ⟨path, hpath, place, ?_, hlevel, Recorder.place?_performAll ops hlater, hplace⟩
    simp only [hstop]

/-- **The schemas of a directory** are all counted by a batch into a sink that never fails, unless
the log of every line is one of them. Discovery itself only leaves a note before the batch. -/
theorem runDiscovered_counts {dir : Path} {place : Location}
    (hdir : s.recorder.files.locateDirectory dir = .ok place) {sink : Sink}
    (hsink : sink.Unfailing) :
    let names := s.classifier.schemaNames s.recorder.files dir place
    (∃ summary, (s.runDiscovered dir sink).result = .ok summary ∧ summary.skipped = 0 ∧
      summary.passedThrough = 0 ∧
      summary.transformed + summary.failures.length = names.length) ∨
    ∃ name ∈ names, (s.runDiscovered dir sink).result = .error (.endless (dir.join name)) ∧
      s.recorder.journal.level.recordsLines ∧
      s.recorder.place? .debug = some (place ++ [name]) := by
  intro names
  have hof (name : Bytes) (h : name ∈ names) := Classifier.of_mem_schemaNames hdir h
  obtain ⟨message, hrun⟩ : ∃ message, s.runDiscovered dir sink =
      Session.run { s with recorder := s.recorder.note .debug message }
        (names.map dir.join) sink := by
    simp only [runDiscovered, discover, Classifier.discover_eq hdir]
    exact ⟨_, rfl⟩
  let noted : Session := { s with recorder := s.recorder.note .debug message }
  have hkinds : ∀ path ∈ names.map dir.join, noted.classifier.classify path = .schema := by
    intro path hpath
    obtain ⟨name, hname, rfl⟩ := List.mem_map.mp hpath
    exact (hof name hname).2.1
  have hpaths : ∀ path ∈ names.map dir.join, ∃ place,
      noted.recorder.files.locate path = .ok place := by
    intro path hpath
    obtain ⟨name, hname, rfl⟩ := List.mem_map.mp hpath
    exact ⟨_, (hof name hname).2.2⟩
  rw [hrun]
  rcases run_of_schemas hkinds hpaths hsink with hok | hendless
  · obtain ⟨summary, hresult, hskipped, hcopied, hcount⟩ := hok
    exact .inl ⟨summary, hresult, hskipped, hcopied, by simpa using hcount⟩
  · obtain ⟨path, hpath, last, hresult, hlevel, hplace, hlocate⟩ := hendless
    obtain ⟨name, hname, rfl⟩ := List.mem_map.mp hpath
    obtain rfl : place ++ [name] = last :=
      Except.ok.inj ((hof name hname).2.2.symm.trans hlocate)
    exact .inr ⟨name, hname, hresult, hlevel, hplace⟩

/-- **Discovery is exact.** It fails if the directory cannot be listed. Otherwise it gives the paths
of all regular files right below the directory whose names are those of schemas, except where the
path is too long, in strictly ascending order of the names and whatever the order of the listing.
Taken to a sink that never fails, all of them are recast or counted as failures, unless the log of
every line is one of them. -/
theorem discover_exact (s : Session) (dir : Path) :
    (∀ fault, s.recorder.files.list dir = .error fault →
      (s.discover dir).2 = .error (.discovery dir fault) ∧
      ∀ sink, (s.runDiscovered dir sink).result = .error (.discovery dir fault)) ∧
    ∀ place, s.recorder.files.locateDirectory dir = .ok place → ∃ names : List Bytes,
      (s.discover dir).2 = .ok (names.map dir.join) ∧
      names.Pairwise (· < ·) ∧
      (∀ name, name ∈ names ↔ s.classifier.IsSchema s.recorder.files place name ∧
        (dir.join name).bytes.length ≤ FileSystem.maxPathLength) ∧
      (∀ name ∈ names, s.classifier.selfName ≠ some name) ∧
      (∀ files : FileSystem, files.entries.Perm s.recorder.files.entries →
        files.workingDirectory = s.recorder.files.workingDirectory →
        s.classifier.discover files dir = .ok (names.map dir.join)) ∧
      ∀ sink : Sink, sink.limit = none → sink.flushing = .succeeds →
        (∃ summary, (s.runDiscovered dir sink).result = .ok summary ∧ summary.skipped = 0 ∧
          summary.passedThrough = 0 ∧
          summary.transformed + summary.failures.length = names.length) ∨
        ∃ name ∈ names, (s.runDiscovered dir sink).result = .error (.endless (dir.join name)) ∧
          s.recorder.journal.level.recordsLines ∧
          s.recorder.place? .debug = some (place ++ [name]) := by
  refine ⟨fun fault hlist => ?_, fun place hdir => ?_⟩
  · have hdiscover : s.classifier.discover s.recorder.files dir = .error fault := by
      rw [Classifier.discover, hlist]
      rfl
    simp [runDiscovered, discover, hdiscover]
  · let names := s.classifier.schemaNames s.recorder.files dir place
    have hdiscover : s.classifier.discover s.recorder.files dir = .ok (names.map dir.join) :=
      Classifier.discover_eq hdir
    have hmem (name : Bytes) : name ∈ names ↔
        s.classifier.IsSchema s.recorder.files place name ∧
          (dir.join name).bytes.length ≤ FileSystem.maxPathLength :=
      Classifier.mem_schemaNames_iff hdir
    refine ⟨names, by simp [discover, hdiscover],
      s.classifier.pairwise_schemaNames s.recorder.files dir place, hmem, ?_, ?_, ?_⟩
    · intro name hname
      obtain ⟨hproper, -, -⟩ := Classifier.of_mem_schemaNames hdir hname
      exact ((hmem name).mp hname).1.selfName_ne hproper
    · intro files hentries hstart
      exact (Classifier.discover_eq_of_perm hentries hstart).trans hdiscover
    · intro sink hlimit hflush
      exact runDiscovered_counts hdir ⟨hlimit, hflush⟩

/-- A schema with another file and a directory beside it, with all logs in use. -/
theorem discover_exact_of_one_schema :
    let s := Sample.session Sample.settings
    let dir : Path := .ofText ".".toList
    ∃ names : List Bytes, (s.discover dir).2 = .ok (names.map dir.join) ∧
      names.Pairwise (· < ·) ∧ Utf8.encode "a.proto".toList ∈ names ∧
      Utf8.encode "b.txt".toList ∉ names ∧ Utf8.encode "d".toList ∉ names ∧
      ∃ summary, (s.runDiscovered dir {}).result = .ok summary ∧
        summary.transformed + summary.failures.length = names.length := by
  intro s dir
  obtain ⟨-, hok⟩ := discover_exact s dir
  obtain ⟨names, hdiscover, hsorted, hmem, -, -, hrun⟩ :=
    hok [Utf8.encode "home".toList] (by decide)
  refine ⟨names, hdiscover, hsorted, ?_, ?_, ?_, ?_⟩
  · exact (hmem _).mpr ⟨⟨⟨_, _, rfl⟩, by decide⟩, by decide⟩
  · intro hname
    obtain ⟨⟨-, hkind⟩, -⟩ := (hmem _).mp hname
    exact absurd hkind (by decide)
  · intro hname
    obtain ⟨⟨⟨id, data, hfile⟩, -⟩, -⟩ := (hmem _).mp hname
    cases hfile
  · rcases hrun {} rfl rfl with ⟨summary, hresult, -, -, hcount⟩ | ⟨name, hname, -, -, hplace⟩
    · exact ⟨summary, hresult, hcount⟩
    · obtain ⟨⟨⟨id, data, hfile⟩, -⟩, -⟩ := (hmem _).mp hname
      have hlog : s.recorder.place? .debug =
          some [Utf8.encode "home".toList, Utf8.encode "protodox.log".toList] := by decide
      rw [← Option.some.inj (hlog.symm.trans hplace)] at hfile
      cases hfile

/-- A directory that can be listed, although its path with one more name is too long. -/
def longDirectory : Path := ⟨Path.here ++ List.replicate 4094 Path.separator⟩

theorem length_join_longDirectory (name : Bytes) :
    (longDirectory.join name).bytes.length = 4095 + name.length := by
  have hends : longDirectory.endsInSeparator := by decide +kernel
  rw [Path.join, if_pos hends, List.length_append, longDirectory, List.length_append,
    List.length_replicate]
  rfl

/-- The schema in a directory with a long path is not discovered. -/
theorem discover_of_longDirectory :
    let s := Sample.session Sample.settings
    let place : Location := [Utf8.encode "home".toList]
    s.recorder.files.locateDirectory longDirectory = .ok place ∧
      s.classifier.IsSchema s.recorder.files place (Utf8.encode "a.proto".toList) ∧
      (s.discover longDirectory).2 = .ok [] := by
  intro s place
  have hdir : s.recorder.files.locateDirectory longDirectory = .ok place := by decide +kernel
  have hnames : s.classifier.schemaNames s.recorder.files longDirectory place = [] := by
    refine List.eq_nil_iff_forall_not_mem.mpr fun name hname => ?_
    obtain ⟨hproper, -, -⟩ := Classifier.of_mem_schemaNames hdir hname
    obtain ⟨-, hlength⟩ := (Classifier.mem_schemaNames_iff hdir).mp hname
    have hpos := List.length_pos_iff.mpr hproper.ne_nil
    rw [length_join_longDirectory, FileSystem.maxPathLength] at hlength
    omega
  refine ⟨hdir, ⟨⟨_, _, rfl⟩, by decide⟩, ?_⟩
  simp only [discover, Classifier.discover_eq hdir, hnames, List.map_nil]

end Session

end SchemaDoc
