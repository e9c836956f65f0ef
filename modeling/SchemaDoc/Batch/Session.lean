import SchemaDoc.Batch.Error
import SchemaDoc.Batch.Process
import SchemaDoc.Input.Discovery

/-!
# Sessions

A session holds what batches with the same settings share: the classifier and the records, with logs
that stay open from one batch to the next. A batch takes the inputs it is given, or the schemas that
are found in a directory.
-/

namespace SchemaDoc

/-- A batch run with its settings, ready for one list of inputs after the other. The logs stay open
in between. -/
structure Session where
  /-- The settings. -/
  settings : Settings
  /-- What decides the kind of an input. -/
  classifier : Classifier
  /-- The records so far. -/
  recorder : Recorder
  deriving DecidableEq, Repr

namespace Session

/-- The outcome of one list of inputs. -/
structure Outcome where
  /-- The bytes that the sink accepted. -/
  written : Bytes
  /-- The session afterwards. -/
  session : Session
  /-- What became of the inputs, or why the batch was not carried through. -/
  result : Except BatchError Summary

/-- A session by the settings, among the given files. -/
def start (settings : Settings) (files : FileSystem) : Except BatchError Session :=
  match Classifier.ofSettings settings with
  | .error error => .error (.invalidPattern settings.schemaPattern error)
  | .ok classifier =>
    .ok { settings, classifier, recorder := { files, journal := .ofSettings settings } }

variable (s : Session)

/-- Takes the inputs to the sink. When all of them are taken, the logs are flushed. -/
def run (inputs : List Path) (sink : Sink) : Outcome :=
  let step := Batch.processAll s.classifier { recorder := s.recorder, sink } inputs
  match step.stop with
  | some error =>
    { written := step.written
      session := { s with recorder := step.batch.recorder }
      result := .error error }
  | none =>
    { written := step.written
      session :=
        { s with recorder := step.batch.recorder.flush.note .info step.batch.summary.message }
      result := .ok step.batch.summary }

/-- The schemas in `dir`. -/
def discover (dir : Path) : Session × Except BatchError (List Path) :=
  match s.classifier.discover s.recorder.files dir with
  | .error fault => (s, .error (.discovery dir fault))
  | .ok found =>
    let message := "Discovered ".toList ++ Text.ofNat found.length ++ " schema files in ".toList ++
      dir.display
    ({ s with recorder := s.recorder.note .debug message }, .ok found)

/-- Takes the schemas in `dir` to the sink. -/
def runDiscovered (dir : Path) (sink : Sink) : Outcome :=
  match s.discover dir with
  | (s, .error error) => { written := [], session := s, result := .error error }
  | (s, .ok found) => s.run found sink

end Session

end SchemaDoc
