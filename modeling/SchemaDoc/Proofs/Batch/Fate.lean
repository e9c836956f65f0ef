import SchemaDoc.Proofs.Batch.Operations
import SchemaDoc.Proofs.Input.Delivery

/-!
# What becomes of an input

An input is left out, recast, copied or counted as a failure. Which of these is its `Fate`, given by
its name and by what its path delivers before the batch starts. `Batch.process_takes` says that a
batch takes an input to its fate as long as the path keeps clear of the logs; that it stays clear of
them while other inputs are taken is known from what the batch has recorded.

So a batch is the same, as far as the output goes, as delivering the fates of its inputs to the sink
in order, with no records at all: `Session.run_eq_deliver`.
-/

namespace SchemaDoc

/-- What becomes of an input when its output is not refused. -/
inductive Fate where
  /-- It is left out. -/
  | skipped
  /-- It is a schema with that content, which is recast. -/
  | recast (content : Bytes)
  /-- It is something else with that content, which is copied. -/
  | copied (content : Bytes)
  /-- It cannot be opened or read. -/
  | failed (error : StreamError)
  deriving DecidableEq, Repr

/-- The fate of an input that is handled in the given way if it can be read. -/
def Fate.ofRead (handled : Bytes → Fate) : Except StreamError Bytes → Fate
  | .ok content => handled content
  | .error error => .failed error

/-- The fate of the input at `path` among the given files. -/
def Classifier.fate (c : Classifier) (files : FileSystem) (path : Path) : Fate :=
  match c.classify path with
  | .schema => .ofRead .recast (files.read path)
  | .passthrough => .ofRead .copied (files.read path)
  | .selfIdentity => .skipped

/-- An input is counted as a failure only if it cannot be opened or read. -/
theorem Classifier.read_eq_of_fate_eq_failed {c : Classifier} {files : FileSystem} {path : Path}
    {error : StreamError} (h : c.fate files path = .failed error) :
    files.read path = .error error := by
  unfold fate at h
  cases hread : files.read path with
  | ok content => cases hkind : c.classify path <;> simp [hkind, hread, Fate.ofRead] at h
  | error other =>
    cases hkind : c.classify path <;> simp [hkind, hread, Fate.ofRead] at h
    · rw [h]
    · rw [h]

namespace Fate

/-- What is written for an input. -/
def output : Fate → Bytes
  | skipped => []
  | recast content => (Run.ofBytes content).written
  | copied content => content
  | failed _ => []

/-- The number of lines that an input is counted with. -/
def lines : Fate → Nat
  | skipped => 0
  | recast content => (Run.outputLines content).length
  | copied content => (splitLines content).length
  | failed _ => 0

/-- Why the sink does not take an input to its fate. Only behind output of an input that could be
read the sink is flushed. -/
def refusal? (sink : Sink) (fate : Fate) : Option Fault :=
  match fate with
  | skipped => none
  | recast _ => sink.refusal? fate.output
  | copied _ => sink.refusal? fate.output
  | failed _ => none

/-- The summary when the input at `path` is counted. -/
def count (path : Path) (summary : Summary) (fate : Fate) : Summary :=
  match fate with
  | skipped => { summary with skipped := summary.skipped + 1 }
  | recast _ =>
    { summary with
      transformed := summary.transformed + 1
      linesWritten := summary.linesWritten + fate.lines }
  | copied _ =>
    { summary with
      passedThrough := summary.passedThrough + 1
      linesWritten := summary.linesWritten + fate.lines }
  | failed error =>
    { summary with failures := summary.failures ++ [{ path, message := error.message }] }

/-- Takes inputs with the given fates to a sink in order, until the output is refused. -/
def deliver (fate : Path → Fate) (sink : Sink) (summary : Summary) :
    List Path → Bytes × Except BatchError Summary
  | [] => ([], .ok summary)
  | path :: paths =>
    let output := sink.write (fate path).output
    match (fate path).refusal? sink with
    | some fault => (output.accepted, .error (.output fault))
    | none =>
      let (written, result) := deliver fate output.sink ((fate path).count path summary) paths
      (output.accepted ++ written, result)

end Fate

/-- An input delivers the same before and after records that it is clear of. -/
theorem Recorder.Extends.read_eq {r r' : Recorder} {path : Path} (h : r'.Extends r)
    (hp : r.Clear path) : r'.files.read path = r.files.read path := by
  rw [FileSystem.read, FileSystem.read, h.openRead_eq hp]

namespace Batch

/-- A step takes the input at `path` to its fate, from a given sink and summary on. -/
structure Step.Takes (sink : Sink) (summary : Summary) (path : Path) (fate : Fate) (step : Step) :
    Prop where
  /-- The output of the input is written, as far as there is room. -/
  written_eq : step.written = (sink.write fate.output).accepted
  /-- The sink is as the output leaves it. -/
  sink_eq : step.batch.sink = (sink.write fate.output).sink
  /-- The batch ends if the output is refused, and for no other reason. -/
  stop_eq : step.stop = (fate.refusal? sink).map .output
  /-- Otherwise the input is counted. -/
  summary_eq : step.stop = none → step.batch.summary = fate.count path summary

section Step

variable {b : Batch} {c : Classifier} {path : Path} {sink : Sink} {summary counted : Summary}

/-- An input whose output was delivered, or refused. -/
theorem settle_takes {fate : Fate} {lines : Nat} (hsink : b.sink = (sink.write fate.output).sink)
    (hrefusal : fate.refusal? sink = sink.refusal? fate.output)
    (hcount : fate.count path summary =
      { counted with linesWritten := counted.linesWritten + lines }) :
    (b.settle path (sink.write fate.output).accepted counted
      (sink.delivery fate.output lines)).Takes sink summary path fate := by
  unfold Sink.delivery
  cases h : sink.refusal? fate.output with
  | some fault => exact ⟨rfl, hsink, by rw [hrefusal, h]; rfl, by simp [settle]⟩
  | none => exact ⟨rfl, hsink, by rw [hrefusal, h]; rfl, fun _ => hcount.symm⟩

/-- An input that could not be read. -/
theorem settle_takes_failed {files : FileSystem} {error : StreamError}
    (h : files.read path = .error error) :
    (b.settle path [] counted (.error error)).Takes b.sink b.summary path (.failed error) := by
  obtain ⟨fault, rfl, -⟩ | ⟨fault, rfl, -⟩ := FileSystem.openRead_of_read_eq_error h
  · exact ⟨by simp [Fate.output, settle], by simp [Fate.output, settle], rfl, fun _ => rfl⟩
  · exact ⟨by simp [Fate.output, settle], by simp [Fate.output, settle], rfl, fun _ => rfl⟩

theorem recastInput_takes (hp : b.recorder.Clear path) :
    (b.recastInput path).Takes b.sink b.summary path
      (.ofRead .recast (b.recorder.files.read path)) := by
  have hbegin := b.recorder.extends_beginInput path
  have hread := hbegin.read_eq hp
  unfold recastInput
  simp only [(hbegin.clear hp).growth?_eq_none]
  cases h : b.recorder.files.read path with
  | ok content =>
    rw [Run.ofFile_of_read_eq_ok (hread.trans h)]
    obtain ⟨hwritten, hsink, hresult⟩ := Run.ofSource_delivery content b.sink
    rw [hwritten, hresult]
    exact settle_takes hsink rfl rfl
  | error error =>
    obtain ⟨events, -, hrun⟩ := Run.ofFile_of_read_eq_error (hread.trans h) b.sink
    let b' := { b with recorder := (b.recorder.beginInput path).observeAll events }
    rw [hrun]
    exact settle_takes_failed (b := b') h

theorem copyInput_takes : (b.copyInput path).Takes b.sink b.summary path
    (.ofRead .copied (b.recorder.files.read path)) := by
  unfold copyInput
  cases h : b.recorder.files.read path with
  | ok content =>
    rw [Copy.ofFile_of_read_eq_ok h]
    exact settle_takes rfl rfl rfl
  | error error =>
    rw [Copy.ofFile_of_read_eq_error h]
    exact settle_takes_failed h

theorem skipInput_takes : b.skipInput.Takes b.sink b.summary path .skipped :=
  ⟨by simp [skipInput, Fate.output], by simp [skipInput, Fate.output], rfl, fun _ => rfl⟩

/-- **One input** that is clear of the logs is taken to its fate. -/
theorem process_takes (hp : b.recorder.Clear path) :
    (b.process c path).Takes b.sink b.summary path (c.fate b.recorder.files path) := by
  unfold process Classifier.fate
  cases c.classify path with
  | schema =>
    refine recastInput_takes (b := { b with recorder := b.recorder.note _ _ }) ?_
    exact (b.recorder.extends_note _ _).clear hp
  | passthrough => exact copyInput_takes (b := { b with recorder := b.recorder.note _ _ })
  | selfIdentity => exact skipInput_takes (b := { b with recorder := b.recorder.note _ _ })

end Step

/-- What comes of a batch: why it ended before its end, or its summary. -/
def Step.result (step : Step) : Except BatchError Summary :=
  match step.stop with
  | some error => .error error
  | none => .ok step.batch.summary

/-- **All inputs**, if they are clear of the logs at the start, are taken to the fates that they
have then, until the output is refused. -/
theorem processAll_eq_deliver {c : Classifier} {r : Recorder} {inputs : List Path} (b : Batch)
    (hb : b.recorder.Extends r) (h : ∀ path ∈ inputs, r.Clear path) :
    ((processAll c b inputs).written, (processAll c b inputs).result) =
      Fate.deliver (c.fate r.files) b.sink b.summary inputs := by
  induction inputs generalizing b with
  | nil => rfl
  | cons path inputs ih =>
    obtain ⟨hpath, hinputs⟩ := List.forall_mem_cons.mp h
    have htakes : (b.process c path).Takes b.sink b.summary path (c.fate r.files path) := by
      have hfate : c.fate b.recorder.files path = c.fate r.files path := by
        rw [Classifier.fate, Classifier.fate, hb.read_eq hpath]
      exact hfate ▸ process_takes (hb.clear hpath)
    have hrest := ih (b.process c path).batch ((b.process_records path c).extends.trans hb) hinputs
    rw [processAll, Fate.deliver]
    cases hrefusal : (c.fate r.files path).refusal? b.sink with
    | some fault =>
      have hstop : (b.process c path).stop = some (.output fault) := by
        rw [htakes.stop_eq, hrefusal]
        rfl
      simp only [hstop, Step.result, htakes.written_eq]
    | none =>
      have hstop : (b.process c path).stop = none := by
        rw [htakes.stop_eq, hrefusal]
        rfl
      rw [htakes.sink_eq, htakes.summary_eq hstop] at hrest
      simp only [hstop, ← hrest, htakes.written_eq]
      rfl

end Batch

namespace Session

/-- The fate of an input when the session stands where it does. -/
def fate (s : Session) (path : Path) : Fate := s.classifier.fate s.recorder.files path

/-- No input looks at a file that the session's logs in use are written to. -/
def Clear (s : Session) (inputs : List Path) : Prop := ∀ path ∈ inputs, s.recorder.Clear path

instance (s : Session) (inputs : List Path) : Decidable (s.Clear inputs) :=
  inferInstanceAs (Decidable (∀ path ∈ inputs, s.recorder.Clear path))

/-- A batch makes no change but to the logs in use. -/
theorem run_extends (s : Session) (inputs : List Path) (sink : Sink) :
    (s.run inputs sink).session.recorder.Extends s.recorder := by
  obtain ⟨ops, hrecorder, -⟩ := s.run_operations inputs sink
  rw [hrecorder]
  exact s.recorder.extends_performAll ops

/-- **A batch without its records.** What a batch writes and returns is what comes of delivering
the fates of its inputs, if these are clear of the logs. -/
theorem run_eq_deliver {s : Session} {inputs : List Path} (h : s.Clear inputs) (sink : Sink) :
    ((s.run inputs sink).written, (s.run inputs sink).result) =
      Fate.deliver s.fate sink {} inputs := by
  have hall : _ = Fate.deliver s.fate sink {} inputs :=
    Batch.processAll_eq_deliver { recorder := s.recorder, sink } (.refl _) h
  rw [← hall]
  simp only [run, Batch.Step.result]
  generalize Batch.processAll s.classifier { recorder := s.recorder, sink } inputs = step
  cases step.stop <;> rfl

end Session

end SchemaDoc
