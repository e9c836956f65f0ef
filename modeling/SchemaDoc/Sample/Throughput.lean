/-!
# Throughput

How many lines a second a run got through, as a double.
-/

namespace SchemaDoc

/-- A span of time. -/
structure Duration where
  /-- Whole seconds. -/
  seconds : UInt64
  /-- Billionths of a second besides. -/
  nanoseconds : UInt32
  deriving DecidableEq, Repr

/-- The span in seconds. -/
def Duration.toFloat (d : Duration) : Float :=
  d.seconds.toFloat + d.nanoseconds.toFloat / 1000000000.0

/-- Lines a second; none in no time. -/
def linesPerSecond (lines : UInt64) (elapsed : Duration) : Float :=
  let seconds := elapsed.toFloat
  if seconds == 0.0 then 0.0 else lines.toFloat / seconds

end SchemaDoc
