import SchemaDoc.Batch.Session
import SchemaDoc.Proofs.Log.Frame

/-!
# What a batch has recorded

A batch reaches its files through its recorder only, by operations that it asks for one after the
other. `Batch.Records` says so, and that the failures among these operations are the failures that
the batch counts: an input that cannot be opened or read is recorded and counted at one place, in
`Batch.settle`, whatever its kind. What holds of every list of operations holds of a whole batch
therefore, also of one that ends early: `Session.run_operations`.
-/

namespace SchemaDoc

open Recorder (Operation)

namespace Batch

/-- From `b` to `b'`, the recorder was asked for operations, and the failures that these record are
those that were counted. -/
def Records (b b' : Batch) : Prop :=
  ∃ ops, b'.recorder = b.recorder.performAll ops ∧
    b'.summary.failures = b.summary.failures ++ ops.filterMap Operation.failure?

variable {b b' b'' : Batch}

/-- Nothing is asked for. -/
theorem records_nil (hrecorder : b'.recorder = b.recorder)
    (hfailures : b'.summary.failures = b.summary.failures) : b.Records b' :=
  ⟨[], hrecorder, by simpa using hfailures⟩

theorem Records.trans (h : b.Records b') (h' : b'.Records b'') : b.Records b'' := by
  obtain ⟨ops, hrecorder, hfailures⟩ := h
  obtain ⟨ops', hrecorder', hfailures'⟩ := h'
  refine ⟨ops ++ ops', ?_, ?_⟩
  · rw [hrecorder', hrecorder, Recorder.performAll_append]
  · rw [hfailures', hfailures, List.filterMap_append, List.append_assoc]

/-- A batch makes no change but to the logs in use. -/
theorem Records.extends (h : b.Records b') : b'.recorder.Extends b.recorder := by
  obtain ⟨ops, hrecorder, -⟩ := h
  rw [hrecorder]
  exact b.recorder.extends_performAll ops

variable (b) (path : Path)

/-- **Settling an input** records a failure if it counts one. -/
theorem settle_records (written : Bytes) {counted : Summary}
    (hcounted : counted.failures = b.summary.failures) (result : Except StreamError Nat) :
    b.Records (b.settle path written counted result).batch := by
  unfold settle
  split
  · exact records_nil rfl hcounted
  · exact records_nil rfl rfl
  · exact records_nil rfl rfl
  · exact ⟨[.recordError path _], rfl, rfl⟩

/-- Turning to an input and following a run over it is no failure yet. -/
theorem observeAll_records (events : List Event) (sink : Sink) :
    b.Records { b with recorder := (b.recorder.beginInput path).observeAll events, sink } := by
  refine ⟨.beginInput path :: events.map .observe, ?_, ?_⟩
  · rw [Recorder.performAll_cons, Recorder.performAll_observe]
    rfl
  · simp [Operation.failure?]

theorem recastInput_records : b.Records (b.recastInput path).batch := by
  unfold recastInput
  refine (b.observeAll_records path _ _).trans (settle_records _ path _ ?_ _)
  rfl

theorem copyInput_records : b.Records (b.copyInput path).batch := by
  unfold copyInput
  refine Records.trans (records_nil rfl rfl) (settle_records _ path _ ?_ _)
  rfl

/-- **One input**, whatever it is and whatever becomes of it. -/
theorem process_records (c : Classifier) : b.Records (b.process c path).batch := by
  unfold process
  dsimp only
  generalize path.display ++ " classified as ".toList ++ (c.classify path).name = message
  let noted := { b with recorder := b.recorder.note .debug message }
  have hnoted : b.Records noted :=
    ⟨[.remark .debug message (by decide)], rfl, (List.append_nil _).symm⟩
  refine hnoted.trans ?_
  cases c.classify path with
  | schema => exact noted.recastInput_records path
  | passthrough => exact noted.copyInput_records path
  | selfIdentity => exact records_nil rfl rfl

/-- **All inputs**, up to the one that ends the batch. -/
theorem processAll_records (c : Classifier) (inputs : List Path) :
    b.Records (processAll c b inputs).batch := by
  induction inputs generalizing b with
  | nil => exact records_nil rfl rfl
  | cons path inputs ih =>
    have hstep := b.process_records path c
    rw [processAll]
    cases (b.process c path).stop with
    | some error => exact hstep
    | none => exact hstep.trans (ih (b.process c path).batch)

end Batch

/-- **A whole batch** consists in operations of the recorder. If it is carried through, the failures
that it returns are those which were recorded. -/
theorem Session.run_operations (s : Session) (inputs : List Path) (sink : Sink) :
    ∃ ops, (s.run inputs sink).session.recorder = s.recorder.performAll ops ∧
      ∀ summary, (s.run inputs sink).result = .ok summary →
        summary.failures = ops.filterMap Operation.failure? := by
  obtain ⟨ops, hrecorder, hfailures⟩ :=
    Batch.processAll_records { recorder := s.recorder, sink } s.classifier inputs
  unfold run
  generalize Batch.processAll s.classifier { recorder := s.recorder, sink } inputs = step at *
  dsimp only
  split
  · exact ⟨ops, hrecorder, fun summary hsummary => nomatch hsummary⟩
  -- at the end the summary is remarked on, which is no failure
  · refine ⟨ops ++ [.remark .info step.batch.summary.message (by decide)], ?_, ?_⟩
    · rw [Recorder.performAll_append, ← hrecorder, Recorder.flush_eq]
      rfl
    · rintro summary ⟨⟩
      rw [hfailures, List.filterMap_append]
      simp [Operation.failure?]

end SchemaDoc
