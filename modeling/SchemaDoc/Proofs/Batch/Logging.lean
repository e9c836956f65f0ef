import SchemaDoc.Proofs.Batch.Output
import SchemaDoc.Proofs.Log.Arrival
import SchemaDoc.Proofs.Log.Lines

/-!
# Batches and their logs

Two things are to be known about the logs of a batch. They do not matter to its outcome: two
sessions whose settings differ in nothing but the logs write and return the same, even where a log
cannot be opened or written (`Session.run_unaffected_by_logging`). And the log of every line is a
faithful account: what it says is known from the schemas among the inputs alone, and holds all that
was written for them (`Session.debugLog_replays`).
-/

namespace SchemaDoc

namespace Session

/-- A session starts with a classifier by its settings, the files as they are and closed logs. -/
theorem start_eq_ok_iff {settings : Settings} {files : FileSystem} {s : Session} :
    start settings files = .ok s ↔ ∃ classifier, Classifier.ofSettings settings = .ok classifier ∧
      s = { settings, classifier, recorder := { files, journal := .ofSettings settings } } := by
  unfold start
  cases Classifier.ofSettings settings with
  | error error => simp
  | ok classifier => simp [eq_comm]

/-- **Logging does not change the outcome.** Among the same files, let two settings agree on what is
a schema and what is left out. As long as no input leads to a log in use or through it, sessions by
these settings can be started or cannot for the same reason, and then they write the same to every
sink and return the same. -/
theorem run_unaffected_by_logging {settings settings' : Settings} {files : FileSystem}
    {inputs : List Path} (hpattern : settings'.schemaPattern = settings.schemaPattern)
    (hself : settings'.selfName = settings.selfName)
    (h : ∀ s, start settings files = .ok s → s.Clear inputs)
    (h' : ∀ s, start settings' files = .ok s → s.Clear inputs) (sink : Sink) :
    let outcome (s : Session) := ((s.run inputs sink).written, (s.run inputs sink).result)
    (start settings' files).map outcome = (start settings files).map outcome := by
  intro outcome
  have hclassifier : Classifier.ofSettings settings' = Classifier.ofSettings settings := by
    rw [Classifier.ofSettings, Classifier.ofSettings, hpattern, hself]
  cases hcase : Classifier.ofSettings settings with
  | error error => simp only [start, hclassifier, hcase, hpattern, Except.map]
  | ok classifier =>
    have hs : start settings files = .ok _ := start_eq_ok_iff.mpr ⟨classifier, hcase, rfl⟩
    have hs' : start settings' files = .ok _ :=
      start_eq_ok_iff.mpr ⟨classifier, hclassifier.trans hcase, rfl⟩
    rw [hs, hs']
    exact congrArg Except.ok
      ((run_eq_deliver (h' _ hs') sink).trans (run_eq_deliver (h _ hs) sink).symm)

/-- A session without logs and one with both logs in vain, of which one cannot be opened and the
other cannot be written, when the sink is full at the last input. -/
theorem run_unaffected_by_logging_in_vain :
    let silent : Settings := { Sample.settings with logLevel := .none }
    let vain : Settings := { Sample.settings with
      debugLog := .ofText "/dev/full".toList, errorLog := .ofText "d".toList }
    let outcome (s : Session) :=
      ((s.run Sample.inputs { limit := some 21 }).written,
        (s.run Sample.inputs { limit := some 21 }).result)
    (start vain Sample.files).map outcome = (start silent Sample.files).map outcome ∧
      (start silent Sample.files).map outcome =
        .ok (Utf8.encode "benum E \x7b\n /// x\n A,\n".toList, .error (.output .noSpace)) := by
  intro silent vain outcome
  have hsilent : start silent Sample.files = .ok (Sample.session silent) := rfl
  have hvain : start vain Sample.files = .ok (Sample.session vain) := rfl
  have h : ∀ s, start silent Sample.files = .ok s → s.Clear Sample.inputs := by
    rw [hsilent]
    rintro s ⟨⟩
    decide
  have h' : ∀ s, start vain Sample.files = .ok s → s.Clear Sample.inputs := by
    rw [hvain]
    rintro s ⟨⟩
    decide
  have hpattern : vain.schemaPattern = silent.schemaPattern := rfl
  have hself : vain.selfName = silent.selfName := rfl
  refine ⟨run_unaffected_by_logging hpattern hself h h' { limit := some 21 }, ?_⟩
  rw [hsilent]
  exact congrArg Except.ok (Prod.ext (by decide) (by decide))

end Session

/-! ### The log of every line -/

/-- What the log of every line says about the input at `path` among the given files. -/
def Classifier.logLines (c : Classifier) (files : FileSystem) (path : Path) : List LogLine :=
  match c.classify path with
  | .schema => LogLine.ofSchema path (files.read path)
  | _ => []

/-- What is recorded of a run over the input at `path` that comes to its end, if it can be read. -/
theorem Run.eventLines_ofFile {files : FileSystem} {path : Path} {sink : Sink}
    (hstop : (Fate.ofRead .recast (files.read path)).refusal? sink = none) :
    Journal.banner path ::
        (ofFile files path sink).events.flatMap (Journal.eventLines path.display) =
      (LogLine.ofSchema path (files.read path)).map LogLine.text := by
  cases hread : files.read path with
  | ok content =>
    obtain ⟨-, -, hresult⟩ := ofSource_delivery content sink
    have hrefusal : sink.refusal? (ofBytes content).written = none := by
      rwa [hread] at hstop
    obtain ⟨stats, hstats⟩ : ∃ stats, (ofSource { content } sink).result = .ok stats := by
      rw [Sink.delivery, hrefusal] at hresult
      cases hrun : (ofSource { content } sink).result with
      | ok stats => exact ⟨stats, rfl⟩
      | error error => simp [hrun, Except.map] at hresult
    rw [ofFile_of_read_eq_ok hread, eventLines_ofSource path hstats]
    rfl
  | error error =>
    obtain ⟨events, hevents, hrun⟩ := ofFile_of_read_eq_error hread sink
    have hnone : events.flatMap (Journal.eventLines path.display) = [] := by
      refine List.flatMap_eq_nil_iff.mpr fun event hevent => ?_
      rw [List.mem_singleton.mp (hevents hevent)]
      rfl
    rw [hrun, hnone]
    rfl

namespace Batch

open Recorder (Logged)

variable {b : Batch} {c : Classifier} {path : Path} {place : Location}

/-- Settling an input adds nothing to what is recorded of it. -/
theorem settle_logged {r : Recorder} {lines : List Text} (h : Logged place lines r b.recorder)
    (path : Path) (written : Bytes) (counted : Summary) (result : Except StreamError Nat) :
    Logged place lines r (b.settle path written counted result).batch.recorder := by
  refine h.trans_nil ?_
  unfold settle
  split
  · exact h.feeds.fed_nil rfl rfl fun _ => rfl
  · exact h.feeds.fed_nil rfl rfl fun _ => rfl
  · exact h.feeds.fed_nil rfl rfl fun _ => rfl
  · exact h.feeds.logged_recordError _ _

/-- A schema that does not end the batch is recorded as it should be. -/
theorem recastInput_logged (h : b.recorder.LogsTo place) (hp : b.recorder.Clear path)
    (hstop : (b.recastInput path).stop = none) :
    Logged place ((LogLine.ofSchema path (b.recorder.files.read path)).map LogLine.text)
      b.recorder (b.recastInput path).batch.recorder := by
  have hextends := b.recorder.extends_beginInput path
  rw [(recastInput_takes hp).stop_eq, Option.map_eq_none_iff, ← hextends.read_eq hp] at hstop
  have hbegin := h.logged_beginInput path
  have hrun := hbegin.feeds.logged_observeAll
    (Run.ofFile (b.recorder.beginInput path).files path b.sink).events
  rw [Recorder.currentName_beginInput] at hrun
  rw [← hextends.read_eq hp, ← Run.eventLines_ofFile hstop, recastInput]
  simp only [(hextends.clear hp).growth?_eq_none]
  exact settle_logged (hbegin.trans hrun) path _ _ _

/-- **One input** that does not end the batch is recorded as it should be. -/
theorem process_logged (h : b.recorder.LogsTo place) (hp : b.recorder.Clear path)
    (hstop : (b.process c path).stop = none) :
    Logged place ((c.logLines b.recorder.files path).map LogLine.text)
      b.recorder (b.process c path).batch.recorder := by
  unfold process at hstop ⊢
  unfold Classifier.logLines
  have hnote (message : Text) := h.logged_note .debug message
  cases hkind : c.classify path with
  | schema =>
    simp only [hkind] at hstop ⊢
    refine (hnote _).trans (recastInput_logged (hnote _).feeds ?_ hstop)
    exact (b.recorder.extends_note _ _).clear hp
  | passthrough => exact settle_logged (hnote _) path _ _ _
  | selfIdentity => exact hnote _

/-- **All inputs** of a batch that comes to its end are recorded one after the other. -/
theorem processAll_logged {r : Recorder} {inputs : List Path} (b : Batch)
    (hb : b.recorder.Extends r) (hlogs : b.recorder.LogsTo place)
    (h : ∀ path ∈ inputs, r.Clear path) (hstop : (processAll c b inputs).stop = none) :
    Logged place ((inputs.flatMap (c.logLines r.files)).map LogLine.text)
      b.recorder (processAll c b inputs).batch.recorder := by
  induction inputs generalizing b with
  | nil => exact hlogs.fed_nil rfl rfl fun _ => rfl
  | cons path inputs ih =>
    obtain ⟨hpath, hinputs⟩ := List.forall_mem_cons.mp h
    rw [processAll] at hstop ⊢
    cases hstep : (b.process c path).stop with
    | some error => simp [hstep] at hstop
    | none =>
      simp only [hstep] at hstop ⊢
      have hlines : c.logLines b.recorder.files path = c.logLines r.files path := by
        rw [Classifier.logLines, Classifier.logLines, hb.read_eq hpath]
      have hone := process_logged hlogs (hb.clear hpath) hstep
      have hrest := ih (b.process c path).batch ((b.process_records path c).extends.trans hb)
        hone.feeds hinputs hstop
      rw [List.flatMap_cons, List.map_append, ← hlines]
      exact hone.trans hrest

end Batch

namespace Session

variable {s : Session} {inputs : List Path}

/-- What the log of every line says about the input at `path`, as the session stands. -/
def logLines (s : Session) (path : Path) : List LogLine :=
  s.classifier.logLines s.recorder.files path

/-- What a batch that comes to its end adds to the log of every line. -/
theorem run_logged {place : Location} {sink : Sink} {summary : Summary}
    (hlogs : s.recorder.LogsTo place) (h : s.Clear inputs)
    (hok : (s.run inputs sink).result = .ok summary) :
    Recorder.Logged place ((inputs.flatMap s.logLines).map LogLine.text) s.recorder
      (s.run inputs sink).session.recorder := by
  have hall := Batch.processAll_logged (c := s.classifier) { recorder := s.recorder, sink }
    (.refl _) hlogs h
  unfold run at hok ⊢
  dsimp only at hok ⊢
  split at hok
  · cases hok
  · next hstop =>
    rw [Recorder.flush_eq]
    exact (hall hstop).trans_nil ((hall hstop).feeds.logged_note _ _)

/-- The lines that the log says went out are what is written for the schemas. -/
theorem flatMap_output?_logLines (s : Session) (inputs : List Path) :
    ((inputs.flatMap s.logLines).filterMap LogLine.output?).flatMap LogFile.lineBytes =
      (inputs.filter fun path => s.classifier.classify path = .schema).flatMap
        fun path => (s.fate path).output := by
  induction inputs with
  | nil => rfl
  | cons path inputs ih =>
    rw [List.flatMap_cons, List.filterMap_append, List.flatMap_append, ih]
    by_cases hkind : s.classifier.classify path = .schema
    · rw [List.filter_cons_of_pos (by simpa using hkind), List.flatMap_cons]
      refine congrArg (· ++ _) ?_
      rw [logLines, Classifier.logLines, fate, Classifier.fate, hkind]
      cases s.recorder.files.read path with
      | ok content => exact LogLine.ofContent_output path content
      | error error => rfl
    · rw [List.filter_cons_of_neg (by simpa using hkind)]
      have hnone : s.logLines path = [] := by
        rw [logLines, Classifier.logLines]
        cases hcase : s.classifier.classify path with
        | schema => exact absurd hcase hkind
        | passthrough => rfl
        | selfIdentity => rfl
      rw [hnone]
      rfl

/-- **The log of every line replays the batch.** Let all be logged, the log of every line be one
that can be opened and written, and not the other log, and let no input lead to a log or through it.
A batch that comes to its end has then added to the log what can be said of its schemas: a banner
for each and, if it can be read, each of its lines followed by the lines that come of it, the
totals, and a line if it ends in the body of an enum. The lines that come out are all that is
written for the schemas. -/
theorem debugLog_replays {settings : Settings} {files : FileSystem} {place : Location} {sink : Sink}
    {summary : Summary} (hs : start settings files = .ok s) (hlevel : settings.logLevel = .all)
    (hplace : files.appendPlace? settings.debugLog = some place)
    (hapart : files.appendPlace? settings.errorLog ≠ some place) (hclear : s.Clear inputs)
    (hok : (s.run inputs sink).result = .ok summary) :
    let done := s.run inputs sink
    let said := inputs.flatMap s.logLines
    (done.session.recorder.files.content? settings.debugLog).getD [] =
      (files.content? settings.debugLog).getD [] ++
        (said.map LogLine.text).flatMap LogFile.lineBytes ∧
    (said.filterMap LogLine.output?).flatMap LogFile.lineBytes =
      (inputs.filter fun path => s.classifier.classify path = .schema).flatMap
        (fun path => (s.fate path).output) ∧
    done.written = inputs.flatMap fun path => (s.fate path).output := by
  intro done said
  have hgrown := (run_extends s inputs sink).grown
  obtain ⟨classifier, -, rfl⟩ := start_eq_ok_iff.mp hs
  refine ⟨?_, flatMap_output?_logLines _ inputs, ?_⟩
  · have hlogs : Recorder.LogsTo { files, journal := .ofSettings settings } place := by
      refine ⟨?_, .closed rfl hplace, hapart⟩
      rw [Journal.ofSettings, hlevel]
      rfl
    have hplace' : done.session.recorder.files.appendPlace? settings.debugLog = some place :=
      (hgrown.appendPlace?_eq settings.debugLog).trans hplace
    rw [FileSystem.content?_of_appendPlace? hplace', FileSystem.content?_of_appendPlace? hplace]
    exact (run_logged hlogs hclear hok).bytesAt_eq
  · have hdeliver := run_eq_deliver hclear sink
    obtain ⟨hwritten, hresult⟩ := Prod.ext_iff.mp hdeliver
    exact hwritten.trans (Fate.deliver_of_ok (hresult.symm.trans hok))

/-- The log behind a batch of all kinds of inputs. -/
theorem debugLog_replays_mixed :
    let s := Sample.session Sample.settings
    let schema : Path := .ofText "a.proto".toList
    let said : List LogLine :=
      [.banner schema, .before schema 1 "enum E \x7b".toList, .after schema 1 "enum E \x7b".toList,
        .before schema 2 " A; // x".toList, .after schema 2 " /// x".toList,
        .after schema 2 " A,".toList,
        .totals schema
          { linesRead := 2, linesWritten := 3, hoistedComments := 1, endedInsideEnum := true },
        .unfinished schema, .banner (.ofText "none.proto".toList)]
    start Sample.settings Sample.files = .ok s ∧ s.Clear Sample.inputs ∧
    (∃ summary, (s.run Sample.inputs {}).result = .ok summary) ∧
    ((s.run Sample.inputs {}).session.recorder.files.content? Sample.settings.debugLog).getD [] =
      (said.map LogLine.text).flatMap LogFile.lineBytes ∧
    (said.filterMap LogLine.output?).flatMap LogFile.lineBytes =
      Utf8.encode "enum E \x7b\n /// x\n A,\n".toList := by
  intro s schema said
  have hs : start Sample.settings Sample.files = .ok s := rfl
  have hclear : s.Clear Sample.inputs := by decide
  obtain ⟨-, hok⟩ := run_of_unlimited hclear {} rfl rfl
  have hplace : Sample.files.appendPlace? Sample.settings.debugLog =
      some [Utf8.encode "home".toList, Utf8.encode "protodox.log".toList] := by decide
  obtain ⟨hlog, houtput, -⟩ := debugLog_replays hs rfl hplace (by decide) hclear hok
  have hsaid : Sample.inputs.flatMap s.logLines = said := by decide
  have hempty : (Sample.files.content? Sample.settings.debugLog).getD [] = [] := by decide
  rw [hsaid, hempty, List.nil_append] at hlog
  rw [hsaid] at houtput
  exact ⟨hs, hclear, ⟨_, hok⟩, hlog, houtput.trans (by decide)⟩

end Session

end SchemaDoc
