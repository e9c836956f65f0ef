import SchemaDoc.Stream.Error
import SchemaDoc.Stream.Event
import SchemaDoc.Stream.Sink
import SchemaDoc.Stream.Source

/-!
# Runs over one input

A run reads a source line by line, recasts each line and writes what comes out at once, so that a
fault leaves in the sink exactly what was written before it. The scope starts outside of any enum in
every run. `Run.transform` is a run from text to text, where nothing can fail.
-/

namespace SchemaDoc

/-- The text of a line as it was read: without its line feed and one carriage return before it, or
at the end of the input. -/
def Line.ofBytes (raw : Bytes) : Text :=
  let line := if raw.getLast? = some newline then raw.dropLast else raw
  Utf8.decode (if line.getLast? = some carriageReturn then line.dropLast else line)

/-- The bytes in which the outcome of a line is written. -/
def Recast.bytes (r : Recast) : Bytes := r.lines.flatMap fun line => Utf8.encode line ++ [newline]

/-- No line goes out without a byte. -/
theorem Recast.bytes_length_pos (r : Recast) : 0 < r.bytes.length := by
  simp only [bytes, lines, List.flatMap_append, List.length_append, List.flatMap_cons,
    List.flatMap_nil, List.length_cons, List.length_nil]
  omega

/-- The outcome of a run over one input. -/
structure Run where
  /-- The bytes that the sink accepted. -/
  written : Bytes
  /-- What the observer was told. -/
  events : List Event
  /-- The sink afterwards. -/
  sink : Sink
  /-- The totals, or why there are none. -/
  result : Except StreamError Stats

namespace Run

/-- The end of a run in scope `s` with the totals `stats`, behind the last line that could be
read. -/
def finish (sink : Sink) (s : Scope) (stats : Stats) (fault : Option Fault) : Run :=
  match fault with
  | some fault => { written := [], events := [], sink, result := .error (.read fault) }
  | none =>
    match sink.flush with
    | some fault => { written := [], events := [], sink, result := .error (.write fault) }
    | none =>
      let stats := { stats with endedInsideEnum := s.isInside }
      { written := [], events := [.finished stats], sink, result := .ok stats }

/-- A run that reads the line `raw` and, unless the output is refused, goes on like `rest`. -/
def ofLine (sink : Sink) (s : Scope) (stats : Stats) (raw : Bytes)
    (rest : Event → Sink → Scope → Stats → Run) : Run :=
  let before := Line.ofBytes raw
  let (after, next) := Line.recast s before
  let event := Event.line (stats.linesRead + 1) before after
  let output := sink.write after.bytes
  match output.fault with
  | some refusal =>
    { written := output.accepted, events := [event], sink := output.sink
      result := .error (.write refusal) }
  | none =>
    let run := rest event output.sink next (stats.addLine after)
    { run with written := output.accepted ++ run.written, events := event :: run.events }

/-- A run over the lines still to be read, behind lines that ended in scope `s` with the totals
`stats`. -/
def ofLines (sink : Sink) (s : Scope) (stats : Stats) (fault : Option Fault) : List Bytes → Run
  | [] => finish sink s stats fault
  | raw :: lines =>
    ofLine sink s stats raw fun _ sink s stats => ofLines sink s stats fault lines

/-- A run from `source` to `sink`. -/
def ofSource (source : Source) (sink : Sink) : Run :=
  let run := ofLines sink .outside {} source.fault source.lines
  { run with events := .started :: run.events }

/-- A run over `bs` in which nothing fails. -/
def ofBytes (bs : Bytes) : Run := ofSource { content := bs } {}

/-- The text that comes out of a run over the text `t`. -/
def transform (t : Text) : Text := Utf8.decode (ofBytes (Utf8.encode t)).written

end Run

end SchemaDoc
