import SchemaDoc.Text.Basic

/-!
# Trace

What a run tells about itself while it goes, for whoever watches: records of five levels, those
about one line of input with its number.
-/

namespace SchemaDoc

namespace Trace

/-- How much a record matters. -/
inductive Level where
  /-- A single line. -/
  | trace
  /-- A step of the work. -/
  | debug
  /-- The result of the work. -/
  | info
  /-- Something that may surprise. -/
  | warn
  /-- An input that could not be processed. -/
  | error
  deriving DecidableEq, Repr

/-- One record of the trace. -/
structure Record where
  /-- How much the record matters. -/
  level : Level
  /-- What it says. -/
  message : Text
  /-- The number of the input line it is about. -/
  line : Option Nat := none
  deriving DecidableEq, Repr

end Trace

end SchemaDoc
