import SchemaDoc.FileSystem.Setup
import SchemaDoc.Proofs.Batch.Fate
import SchemaDoc.Proofs.Stream.FailStop
import Mathlib.Algebra.GroupWithZero.Nat

/-!
# What a batch writes and counts

As long as flushing succeeds, delivering inputs to a sink comes to writing all their output at once,
`Fate.deliver_eq`: the sink ends up with as much of it as it takes, and what it cannot take ends the
batch. Into a sink that takes everything, a batch thus writes the output of its inputs in their
order and counts each of them once (`Session.run_composes`), and a sink that is full earlier holds
the beginning of that and changes nothing else: `Session.run_failStop`.
-/

namespace SchemaDoc

namespace Fate

/-- Whether an input is recast. -/
def isRecast : Fate → Bool
  | recast _ => true
  | _ => false

/-- Whether an input is copied. -/
def isCopied : Fate → Bool
  | copied _ => true
  | _ => false

/-- Whether an input is left out. -/
def isSkipped : Fate → Bool
  | skipped => true
  | _ => false

/-- The failure that is reported of the input at `path`, if it cannot be opened or read. -/
def failure? (path : Path) : Fate → Option Failure
  | failed error => some { path, message := error.message }
  | _ => none

theorem eq_failed_of_failure? {path : Path} {fate : Fate} {failure : Failure}
    (h : fate.failure? path = some failure) :
    ∃ error, fate = failed error ∧ failure = { path, message := error.message } := by
  cases fate with
  | failed error => exact ⟨error, rfl, (Option.some.inj h).symm⟩
  | _ => cases h

/-- Whether an input is copied whose last line no line feed ends. -/
def isUnterminated : Fate → Bool
  | copied content => Bytes.unterminated content
  | _ => false

/-- The summary when all inputs are counted. -/
def countAll (fate : Path → Fate) (summary : Summary) (paths : List Path) : Summary :=
  paths.foldl (fun summary path => (fate path).count path summary) summary

theorem countAll_cons (fate : Path → Fate) (summary : Summary) (path : Path) (paths : List Path) :
    countAll fate summary (path :: paths) =
      countAll fate ((fate path).count path summary) paths := rfl

/-- A sink that never refuses a flush refuses an input if it has no room for its output. -/
theorem refusal?_eq {sink : Sink} (hflush : sink.flushing = .succeeds) (fate : Fate) :
    fate.refusal? sink = (sink.write fate.output).fault := by
  have hsink : sink.refusal? fate.output = (sink.write fate.output).fault := by
    have hflush' : (sink.write fate.output).sink.flush = none := by
      simp [Sink.flush, Sink.write, hflush]
    rw [Sink.refusal?, hflush', Option.or_none]
  cases fate with
  | skipped => simp [refusal?, output]
  | recast content => exact hsink
  | copied content => exact hsink
  | failed error => simp [refusal?, output]

/-- **Delivering inputs one by one** is writing their output at once, and then counting them. -/
theorem deliver_eq (fate : Path → Fate) {sink : Sink} (hflush : sink.flushing = .succeeds)
    (summary : Summary) (paths : List Path) :
    deliver fate sink summary paths =
      ((sink.write (paths.flatMap fun path => (fate path).output)).accepted,
        match (sink.write (paths.flatMap fun path => (fate path).output)).fault with
        | some fault => .error (.output fault)
        | none => .ok (countAll fate summary paths)) := by
  induction paths generalizing sink summary with
  | nil => simp [deliver, countAll]
  | cons path paths ih =>
    rw [deliver, List.flatMap_cons, refusal?_eq hflush]
    cases hfault : (sink.write (fate path).output).fault with
    | some fault => simp only [sink.write_append_of_fault hfault, hfault]
    | none =>
      have hflush' : (sink.write (fate path).output).sink.flushing = .succeeds := hflush
      simp only [ih hflush', sink.write_append hfault]
      rfl

/-- What is not refused is written to its end. -/
theorem accepted_of_refusal?_eq_none {sink : Sink} {fate : Fate} (h : fate.refusal? sink = none) :
    (sink.write fate.output).accepted = fate.output := by
  have hfault : (sink.write fate.output).fault = none := by
    cases fate with
    | skipped => simp [output]
    | recast content => exact (Option.or_eq_none_iff.mp h).1
    | copied content => exact (Option.or_eq_none_iff.mp h).1
    | failed error => simp [output]
  rw [sink.write_of_fits (sink.write_fault_eq_none_iff.mp hfault)]

/-- A batch that comes to its end has written all output, whatever the sink. -/
theorem deliver_of_ok {fate : Path → Fate} {sink : Sink} {summary total : Summary}
    {paths : List Path} (h : (deliver fate sink summary paths).2 = .ok total) :
    (deliver fate sink summary paths).1 = paths.flatMap fun path => (fate path).output := by
  induction paths generalizing sink summary with
  | nil => rfl
  | cons path paths ih =>
    rw [deliver] at h ⊢
    cases hrefusal : (fate path).refusal? sink with
    | some fault => simp [hrefusal] at h
    | none =>
      simp only [hrefusal] at h ⊢
      rw [List.flatMap_cons, accepted_of_refusal?_eq_none hrefusal, ih h]

/-! ### Counting -/

theorem lines_eq (fate : Fate) :
    fate.lines = fate.output.count newline + if fate.isUnterminated then 1 else 0 := by
  cases fate with
  | skipped => rfl
  | recast content => exact (Run.count_newline_written content).symm
  | copied content => exact length_splitLines content
  | failed error => rfl

/-- **Every input is counted once**, by what becomes of it. -/
theorem countAll_eq (fate : Path → Fate) (summary : Summary) (paths : List Path) :
    countAll fate summary paths =
      { transformed := summary.transformed + paths.countP fun path => (fate path).isRecast
        passedThrough := summary.passedThrough + paths.countP fun path => (fate path).isCopied
        skipped := summary.skipped + paths.countP fun path => (fate path).isSkipped
        linesWritten := summary.linesWritten + (paths.map fun path => (fate path).lines).sum
        failures :=
          summary.failures ++ paths.filterMap fun path => (fate path).failure? path } := by
  induction paths generalizing summary with
  | nil => simp [countAll]
  | cons path paths ih =>
    rw [countAll_cons, ih]
    cases h : fate path with
    | skipped => simp [h, count, isRecast, isCopied, isSkipped, lines, failure?]; omega
    | recast content => simp [h, count, isRecast, isCopied, isSkipped, lines, failure?]; omega
    | copied content => simp [h, count, isRecast, isCopied, isSkipped, lines, failure?]; omega
    | failed error => simp [h, count, isRecast, isCopied, isSkipped, lines, failure?]

/-- The lines of all inputs are the line feeds of their output, with one more for each input that is
copied without a line feed at its end. -/
theorem sum_lines_eq (fate : Path → Fate) (paths : List Path) :
    (paths.map fun path => (fate path).lines).sum =
      (paths.flatMap fun path => (fate path).output).count newline +
        paths.countP fun path => (fate path).isUnterminated := by
  induction paths with
  | nil => rfl
  | cons path paths ih =>
    rw [List.map_cons, List.sum_cons, ih, lines_eq, List.flatMap_cons, List.count_append,
      List.countP_cons]
    omega

/-- The counts of a summary add up to the number of inputs. -/
theorem inputs_countAll (fate : Path → Fate) (summary : Summary) (paths : List Path) :
    (countAll fate summary paths).inputs = summary.inputs + paths.length := by
  have hcount (path : Path) (summary : Summary) :
      ((fate path).count path summary).inputs = summary.inputs + 1 := by
    cases fate path <;> simp [count, Summary.inputs] <;> omega
  induction paths generalizing summary with
  | nil => rfl
  | cons path paths ih =>
    rw [countAll_cons, ih, hcount, List.length_cons]
    omega

end Fate

/-! ### Whole batches -/

namespace Sample

/-- A schema, a file without a line feed at its end and a directory. -/
def files : FileSystem :=
  let schema := Utf8.encode "enum E \x7b\n A; // x".toList
  let files := FileSystem.fresh.addFile (.ofText "a.proto".toList) schema
  let files := files.addFile (.ofText "b.txt".toList) (Utf8.encode "b".toList)
  files.addDirectory (.ofText "d".toList)

/-- Settings with all logs in use. -/
def settings : Settings := { logLevel := .all, selfName := some (Utf8.encode "self".toList) }

/-- The session that these settings, or others that differ in the logs, start among these files. -/
def session (s : Settings) : Session where
  settings := s
  classifier :=
    { glob := .append .anything (.literal (Utf8.encode ".proto".toList))
      selfName := settings.selfName }
  recorder := { files, journal := .ofSettings s }

/-- Inputs of all kinds. -/
def inputs : List Path :=
  ["b.txt", "a.proto", "d", "none.proto", "self", "b.txt"].map fun name => .ofText name.toList

end Sample

namespace Session

variable {s : Session} {inputs : List Path}

/-- Without a log in use, every input is clear of the logs. -/
theorem clear_of_level_eq_none (h : s.recorder.journal.level = .none) (inputs : List Path) :
    s.Clear inputs := by
  intro path _ place hplace
  simp [Recorder.places, Recorder.logs, h, LogLevel.recordsLines, LogLevel.recordsErrors] at hplace

/-- A sink that never fails gets all output, and all inputs are counted. -/
theorem run_of_unlimited (h : s.Clear inputs) (sink : Sink) (hlimit : sink.limit = none)
    (hflush : sink.flushing = .succeeds) :
    (s.run inputs sink).written = inputs.flatMap (fun path => (s.fate path).output) ∧
      (s.run inputs sink).result = .ok (Fate.countAll s.fate {} inputs) := by
  have hrun := run_eq_deliver h sink
  rw [Fate.deliver_eq s.fate hflush, sink.write_of_fits (by simp [hlimit])] at hrun
  exact Prod.ext_iff.mp hrun

/-- **A batch is made up of its inputs.** Into a sink that never fails, it writes what comes of each
of them in their order: what a run over its content writes for a schema, the content itself for
something else, nothing for what is left out or cannot be read. All of them are counted once, the
failures are those that cannot be read, and the lines are those of the output and those that are
copied without a line feed at their end. -/
theorem run_composes (h : s.recorder.journal.level ≠ .none → s.Clear inputs) (sink : Sink)
    (hlimit : sink.limit = none) (hflush : sink.flushing = .succeeds) :
    let done := s.run inputs sink
    done.written = inputs.flatMap (fun path => (s.fate path).output) ∧
    ∃ summary, done.result = .ok summary ∧
      summary.transformed = inputs.countP (fun path => (s.fate path).isRecast) ∧
      summary.passedThrough = inputs.countP (fun path => (s.fate path).isCopied) ∧
      summary.skipped = inputs.countP (fun path => (s.fate path).isSkipped) ∧
      summary.failures = inputs.filterMap (fun path => (s.fate path).failure? path) ∧
      summary.inputs = inputs.length ∧
      summary.linesWritten = done.written.count newline +
        inputs.countP (fun path => (s.fate path).isUnterminated) := by
  intro done
  have hclear : s.Clear inputs := by
    by_cases hlevel : s.recorder.journal.level = .none
    · exact clear_of_level_eq_none hlevel inputs
    · exact h hlevel
  obtain ⟨hwritten, hresult⟩ := run_of_unlimited hclear sink hlimit hflush
  refine ⟨hwritten, _, hresult, ?_⟩
  have hinputs : _ = 0 + inputs.length := Fate.inputs_countAll s.fate {} inputs
  have hcount := Fate.countAll_eq s.fate {} inputs
  simp only [Nat.zero_add, List.nil_append] at hinputs hcount
  refine ⟨by rw [hcount], by rw [hcount], by rw [hcount], by rw [hcount], hinputs, ?_⟩
  rw [hcount, Fate.sum_lines_eq]
  exact congrArg (·.count newline + _) hwritten.symm

/-- A batch of all kinds of inputs: a schema that ends inside of an enum, a file without a line feed
at its end, twice, a directory, a path where nothing stands and the tool's own file. -/
theorem run_composes_mixed :
    let s := Sample.session Sample.settings
    start Sample.settings Sample.files = .ok s ∧ s.Clear Sample.inputs ∧
    (s.run Sample.inputs {}).written = Utf8.encode "benum E \x7b\n /// x\n A,\nb".toList ∧
    ∃ summary, (s.run Sample.inputs {}).result = .ok summary ∧
      summary.transformed = 1 ∧ summary.passedThrough = 2 ∧ summary.skipped = 1 ∧
      summary.failures.map (·.path) = [.ofText "d".toList, .ofText "none.proto".toList] ∧
      summary.inputs = 6 ∧ summary.linesWritten = 5 := by
  intro s
  have hclear : s.Clear Sample.inputs := by decide
  obtain ⟨hwritten, summary, hresult, hrecast, hcopied, hskipped, hfailures, hinputs, hlines⟩ :=
    run_composes (fun _ => hclear) {} rfl rfl
  have hbytes := hwritten.trans
    (show _ = Utf8.encode "benum E \x7b\n /// x\n A,\nb".toList by decide)
  refine ⟨rfl, hclear, hbytes, summary, hresult, hrecast.trans (by decide),
    hcopied.trans (by decide), hskipped.trans (by decide), ?_, hinputs, ?_⟩
  · rw [hfailures]
    decide
  · rw [hlines, hbytes]
    decide

/-- **Fail-stop of a batch.** A sink with room for `n` bytes ends up with the first `n` bytes that
the batch writes where there is room for all. Only if these are more, the batch returns an error,
and that of the output; otherwise it returns the same summary. The failures in the summary are
inputs that cannot be opened or read, with the message of just that. -/
theorem run_failStop (h : s.Clear inputs) (n : Nat) (refusal : Fault) :
    let full := s.run inputs {}
    let done := s.run inputs { limit := some n, refusal }
    done.written = full.written.take n ∧
    ∃ summary, full.result = .ok summary ∧
      done.result = (if n < full.written.length then .error (.output refusal) else .ok summary) ∧
      ∀ failure ∈ summary.failures, ∃ error, s.recorder.files.read failure.path = .error error ∧
        error.isWrite = false ∧ failure.message = error.message := by
  intro full done
  obtain ⟨hwritten, hresult⟩ := run_of_unlimited h {} rfl rfl
  have hdone := run_eq_deliver h { limit := some n, refusal }
  rw [Fate.deliver_eq s.fate rfl, Run.write_of_held_eq_zero, ← hwritten] at hdone
  obtain ⟨hwritten', hresult'⟩ := Prod.ext_iff.mp hdone
  refine ⟨?_, _, hresult, ?_, ?_⟩
  · refine Eq.trans hwritten' (List.take_eq_take_iff.mpr ?_)
    simp
  · refine Eq.trans hresult' ?_
    by_cases hroom : n < full.written.length
    · simp [full, hroom]
    · simp [full, hroom]
  · intro failure hfailure
    rw [Fate.countAll_eq] at hfailure
    obtain ⟨path, -, hpath⟩ := List.mem_filterMap.mp hfailure
    obtain ⟨error, hfate, rfl⟩ := Fate.eq_failed_of_failure? hpath
    have hread := Classifier.read_eq_of_fate_eq_failed hfate
    exact ⟨error, hread, FileSystem.isWrite_of_read_eq_error hread, rfl⟩

/-- The sink is full in the middle of the second input, behind which unreadable ones follow. -/
theorem run_failStop_mixed :
    let s := Sample.session Sample.settings
    let done := s.run Sample.inputs { limit := some 3, refusal := .wroteNothing }
    s.Clear Sample.inputs ∧ done.written = Utf8.encode "ben".toList ∧
      done.result = .error (.output .wroteNothing) := by
  intro s done
  have hclear : s.Clear Sample.inputs := by decide
  obtain ⟨hwritten, summary, -, hresult, -⟩ := run_failStop hclear 3 .wroteNothing
  exact ⟨hclear, hwritten.trans (by decide), hresult.trans (if_pos (by decide))⟩

end Session

end SchemaDoc
