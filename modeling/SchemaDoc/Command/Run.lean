import SchemaDoc.Batch.Session
import SchemaDoc.Command.Request

/-!
# The command

The command takes the named inputs, or else the schemas of a directory, to the standard output. It
fails when the arguments make no sense, when the pattern has a mistake, when the directory cannot be
listed and when the output is refused; an input that cannot be processed does not make it fail.
-/

namespace SchemaDoc

namespace Command

/-- Where the standard output leads. -/
inductive StandardOutput where
  /-- To someone who takes everything. -/
  | taken
  /-- To the device that refuses all data. -/
  | refused
  deriving DecidableEq, Repr

namespace StandardOutput

/-- The number of bytes that are collected before they are sent on. -/
def bufferSize : Nat := 8192

/-- The standard output as a sink. In front of the device that refuses all data stands a buffer, so
the refusal comes when the buffer is full or flushed. -/
def sink : StandardOutput → Sink
  | taken => {}
  | refused => { limit := some bufferSize, flushing := .refusedWhenHolding .noSpace }

/-- What arrives of the bytes written. -/
def arrived (written : Bytes) : StandardOutput → Bytes
  | taken => written
  | refused => []

end StandardOutput

/-- What the command leaves behind. -/
structure Outcome where
  /-- The exit code. -/
  code : UInt32
  /-- What arrives at the standard output. -/
  output : Bytes := []
  /-- What is said about a failure. -/
  error : Text := []
  /-- The files afterwards. -/
  files : FileSystem
  /-- The trace. -/
  trace : List Trace.Record := []

/-- The answer to the question for the version. -/
def versionText : Text := "protodox 0.3.0\n".toList

/-- The answer to the question for help, and to arguments that make no sense. -/
def usageText : Text :=
  "Usage: protodox [-l LEVEL] [--debug-log PATH] [--error-log PATH] [-p GLOB] [-C DIR] ".toList ++
    "[FILE]...\n".toList

/-- The wording of a failure: the error, what lies behind it, and before a pattern with a mistake
what it was for. -/
def failureText (e : BatchError) : Text :=
  let context := match e with
    | .invalidPattern _ _ => "invalid filter configuration: ".toList
    | _ => []
  "Error: ".toList ++ context ++ e.message ++ ": ".toList ++ e.cause ++ "\n".toList

/-- The exit code after a failure. A pattern nested too deeply is a breakdown and has its own. -/
def failureCode : BatchError → UInt32
  | .invalidPattern _ .tooDeep => 101
  | _ => 1

/-- Takes the requested inputs of a session to the standard output. -/
def serve (session : Session) (request : Request) (stdout : StandardOutput) : Session.Outcome :=
  if request.files.isEmpty then
    let recorder := session.recorder.note .debug
      ("No inputs given, discovering in ".toList ++ request.directory.display)
    { session with recorder }.runDiscovered request.directory stdout.sink
  else session.run request.files stdout.sink

/-- The trace of a command whose inputs were all handled: a warning when some could not be
processed. -/
def closingTrace (summary : Summary) : List Trace.Record :=
  if summary.isClean then []
  else
    [{ level := .warn
       message := Text.ofNat summary.failures.length ++ " of ".toList ++
         Text.ofNat summary.inputs ++ " inputs could not be read".toList }]

/-- Does what is requested, for the tool under the given name. -/
def perform (request : Request) (selfName : Bytes) (files : FileSystem) (stdout : StandardOutput) :
    Outcome :=
  match Session.start { request.settings with selfName := some selfName } files with
  | .error e => { code := failureCode e, error := failureText e, files }
  | .ok session =>
    let done := serve session request stdout
    let recorder := done.session.recorder
    match done.result with
    | .ok summary =>
      { code := 0, output := stdout.arrived done.written, files := recorder.files
        trace := recorder.trace ++ closingTrace summary }
    | .error e =>
      { code := failureCode e, output := stdout.arrived done.written, error := failureText e
        files := recorder.files, trace := recorder.trace }

/-- What the command does when the reading of its arguments ends early. -/
def leave (exit : Exit) (files : FileSystem) (stdout : StandardOutput) : Outcome :=
  match exit with
  | .version => { code := 0, output := stdout.arrived (Utf8.encode versionText), files }
  | .help => { code := 0, output := stdout.arrived (Utf8.encode usageText), files }
  | .usage => { code := 2, error := usageText, files }

/-- The whole command, for the tool under the given name. -/
def run (arguments : List Bytes) (environment : List (Text × Bytes)) (selfName : Bytes)
    (files : FileSystem) (stdout : StandardOutput) : Outcome :=
  match Request.ofArguments arguments environment with
  | .ok request => perform request selfName files stdout
  | .error exit => leave exit files stdout

end Command

end SchemaDoc
