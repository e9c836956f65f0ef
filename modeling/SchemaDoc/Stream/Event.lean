import SchemaDoc.Line.Recast
import SchemaDoc.Text.Quoted
import SchemaDoc.Trace

/-!
# Events of a run

A run tells an observer when it starts, what becomes of each line and, if it comes to its end, its
totals. The trace of a run says the same in words.
-/

namespace SchemaDoc

/-- The totals of a run. -/
structure Stats where
  /-- Number of lines read. -/
  linesRead : Nat := 0
  /-- Number of lines written. -/
  linesWritten : Nat := 0
  /-- Number of comments moved to a line of their own. -/
  hoistedComments : Nat := 0
  /-- Whether the input ended in the body of an enum. -/
  endedInsideEnum : Bool := false
  deriving DecidableEq, Repr

/-- The totals when one more line came out as `r`. -/
def Stats.addLine (stats : Stats) (r : Recast) : Stats :=
  { stats with
    linesRead := stats.linesRead + 1
    linesWritten := stats.linesWritten + r.lineCount
    hoistedComments := stats.hoistedComments + (if r.hoisted.isSome then 1 else 0) }

/-- What a run tells its observer. -/
inductive Event where
  /-- The run starts. -/
  | started
  /-- The line with that number came in as `before` and goes out as `after`. -/
  | line (number : Nat) (before : Text) (after : Recast)
  /-- The run came to its end. -/
  | finished (stats : Stats)
  deriving DecidableEq, Repr

/-- The records of the trace that go with an event, and before it. -/
def Event.trace : Event → List Trace.Record
  | started => [{ level := .debug, message := "Rewrite session started".toList }]
  | line number before after =>
    [{ level := .trace
       message := Text.quote before ++ " -> ".toList ++ Text.quote after.text
       line := some number }]
  | finished stats =>
    let unfinished : Trace.Record :=
      { level := .warn
        message := "Input ended inside an enum body after ".toList ++
          Text.ofNat stats.linesRead ++ " lines".toList }
    let finished : Trace.Record :=
      { level := .debug
        message := "Rewrite session finished: ".toList ++ Text.ofNat stats.linesRead ++
          " lines in, ".toList ++ Text.ofNat stats.linesWritten ++ " lines out".toList }
    if stats.endedInsideEnum then [unfinished, finished] else [finished]

end SchemaDoc
