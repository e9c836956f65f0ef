import SchemaDoc.Log.Level
import SchemaDoc.Path

/-!
# Settings

What a batch needs to know beforehand: how much to log and where, which names are schemas, and under
which name the tool itself may stand among the inputs.
-/

namespace SchemaDoc

/-- The settings of a batch. -/
structure Settings where
  /-- How much is recorded in the logs. -/
  logLevel : LogLevel := .default
  /-- The log of every line. -/
  debugLog : Path := .ofText "protodox.log".toList
  /-- The log of inputs that could not be processed. -/
  errorLog : Path := .ofText "protodox.error.log".toList
  /-- The pattern of the names of schemas. -/
  schemaPattern : Text := "*.proto".toList
  /-- The name of the tool's own file, which is never processed. -/
  selfName : Option Bytes := none
  deriving DecidableEq, Repr

/-- Whether two settings say the same; paths count by their components. -/
def Settings.same (s t : Settings) : Bool :=
  decide (s.logLevel = t.logLevel) && s.debugLog.same t.debugLog && s.errorLog.same t.errorLog &&
    decide (s.schemaPattern = t.schemaPattern) && decide (s.selfName = t.selfName)

end SchemaDoc
