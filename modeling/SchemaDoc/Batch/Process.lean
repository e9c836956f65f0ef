import SchemaDoc.Batch.Error
import SchemaDoc.Batch.Summary
import SchemaDoc.Input.Classifier
import SchemaDoc.Input.File
import SchemaDoc.Log.Recorder

/-!
# Batches

A batch takes a list of inputs to one sink. Each input is recast, copied or left out by its kind. An
input that cannot be opened or read is recorded and counted, and the batch goes on; output that is
refused ends it, and so does an input without end.
-/

namespace SchemaDoc

/-- A batch between two inputs. -/
structure Batch where
  /-- The records so far. -/
  recorder : Recorder
  /-- The sink so far. -/
  sink : Sink
  /-- What became of the inputs so far. -/
  summary : Summary := {}
  deriving DecidableEq, Repr

namespace Batch

/-- What one input does to a batch. -/
structure Step where
  /-- The bytes that the sink accepted. -/
  written : Bytes
  /-- The batch afterwards. -/
  batch : Batch
  /-- Why the batch ends here, if it does. -/
  stop : Option BatchError := none
  deriving DecidableEq, Repr

variable (b : Batch)

/-- Accounts for an input that was handled with the given result, when `counted` is the summary for
the case that it was processed. -/
def settle (path : Path) (written : Bytes) (counted : Summary) :
    Except StreamError Nat → Step
  | .ok lines =>
    { written
      batch := { b with summary := { counted with linesWritten := counted.linesWritten + lines } } }
  | .error (.write fault) => { written, batch := b, stop := some (.output fault) }
  | .error .endless => { written, batch := b, stop := some (.endless path) }
  | .error error =>
    let failure : Failure := { path, message := error.message }
    { written
      batch :=
        { b with
          recorder := b.recorder.recordError path error.message
          summary := { b.summary with failures := b.summary.failures ++ [failure] } } }

/-- Recasts the schema at `path`. If its lines are logged to that very file, they come in again. -/
def recastInput (path : Path) : Step :=
  let recorder := b.recorder.beginInput path
  let run := match recorder.growth? path with
    | none => Run.ofFile recorder.files path b.sink
    | some growth => Run.ofGrowingFile recorder.files path growth b.sink
  settle { b with recorder := recorder.observeAll run.events, sink := run.sink } path run.written
    { b.summary with transformed := b.summary.transformed + 1 } (run.result.map (·.linesWritten))

/-- Copies the file at `path`. -/
def copyInput (path : Path) : Step :=
  let copy := Copy.ofFile b.recorder.files path b.sink
  settle { b with sink := copy.sink } path copy.written
    { b.summary with passedThrough := b.summary.passedThrough + 1 } copy.result

/-- Leaves an input out. -/
def skipInput : Step :=
  { written := []
    batch := { b with summary := { b.summary with skipped := b.summary.skipped + 1 } } }

/-- Handles the input at `path` by its kind. -/
def process (c : Classifier) (path : Path) : Step :=
  let kind := c.classify path
  let b := { b with
    recorder := b.recorder.note .debug
      (path.display ++ " classified as ".toList ++ kind.name) }
  match kind with
  | .schema => b.recastInput path
  | .passthrough => b.copyInput path
  | .selfIdentity => b.skipInput

/-- Handles inputs in order as long as none ends the batch. -/
def processAll (c : Classifier) (b : Batch) : List Path → Step
  | [] => { written := [], batch := b }
  | path :: paths =>
    let step := b.process c path
    match step.stop with
    | some _ => step
    | none =>
      let rest := processAll c step.batch paths
      { rest with written := step.written ++ rest.written }

end Batch

end SchemaDoc
