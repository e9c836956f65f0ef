import SchemaDoc.Path

/-!
# Summary of a batch

Every input of a batch is counted once: as recast, as copied, as left out, or as one that could not
be processed.
-/

namespace SchemaDoc

/-- An input that could not be processed. -/
structure Failure where
  /-- The input. -/
  path : Path
  /-- What went wrong. -/
  message : Text
  deriving DecidableEq, Repr

/-- What became of the inputs of a batch. -/
structure Summary where
  /-- Number of schemas recast. -/
  transformed : Nat := 0
  /-- Number of other files copied. -/
  passedThrough : Nat := 0
  /-- Number of inputs left out. -/
  skipped : Nat := 0
  /-- Number of lines written. -/
  linesWritten : Nat := 0
  /-- The inputs that could not be processed. -/
  failures : List Failure := []
  deriving DecidableEq, Repr

namespace Summary

variable (s : Summary)

/-- Whether every input could be processed. -/
def isClean : Bool := s.failures.isEmpty

/-- The number of inputs. -/
def inputs : Nat := s.transformed + s.passedThrough + s.skipped + s.failures.length

/-- The summary in one sentence. -/
def message : Text :=
  "Processed ".toList ++ Text.ofNat s.inputs ++ " inputs: ".toList ++
    Text.ofNat s.transformed ++ " rewritten, ".toList ++
    Text.ofNat s.passedThrough ++ " copied, ".toList ++
    Text.ofNat s.skipped ++ " skipped, ".toList ++
    Text.ofNat s.failures.length ++ " failed".toList

end Summary

end SchemaDoc
