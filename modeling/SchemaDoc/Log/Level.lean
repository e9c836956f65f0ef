import SchemaDoc.Text.Blank

/-!
# Log levels

How much is recorded in the log files: nothing, the inputs that could not be processed, or every
line besides. A level can be given by several names, in any case and with blanks around it.
-/

namespace SchemaDoc

/-- How much is recorded. -/
inductive LogLevel where
  /-- Nothing. -/
  | none
  /-- Inputs that could not be processed. -/
  | errors
  /-- Every line as well. -/
  | all
  deriving DecidableEq, Repr

namespace LogLevel

/-- Whether inputs that could not be processed are recorded. -/
def recordsErrors : LogLevel → Bool
  | none => false
  | errors => true
  | all => true

/-- Whether every line is recorded. -/
def recordsLines : LogLevel → Bool
  | all => true
  | _ => false

/-- The place of a level in the order of the levels. -/
def rank : LogLevel → Nat
  | none => 0
  | errors => 1
  | all => 2

/-- The name of a level. -/
def name : LogLevel → Text
  | none => "none".toList
  | errors => "errors".toList
  | all => "all".toList

/-- The level when nothing else is asked for. -/
def default : LogLevel := none

/-- The names by which a level can be given, in lower case. -/
def aliases : LogLevel → List Text
  | none => ["none".toList, "off".toList, "0".toList]
  | errors => ["errors".toList, "error".toList, "1".toList]
  | all => ["all".toList, "everything".toList, "2".toList]

/-- The level that a text gives. -/
def ofText? (t : Text) : Option LogLevel :=
  let word := (Text.trim t).map Char.toLower
  [none, errors, all].find? fun level => word ∈ level.aliases

/-- The wording for a text that gives no level. -/
def unknownMessage (t : Text) : Text :=
  "unknown log level '".toList ++ t ++ "' (expected none, errors or all)".toList

end LogLevel

end SchemaDoc
