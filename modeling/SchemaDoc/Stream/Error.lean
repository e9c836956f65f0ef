import SchemaDoc.Fault
import SchemaDoc.Path

/-!
# Errors of a run over one input
-/

namespace SchemaDoc

/-- Why one input was not processed to its end. -/
inductive StreamError where
  /-- Reading broke off. -/
  | read (fault : Fault)
  /-- Writing was refused. -/
  | write (fault : Fault)
  /-- The input could not be opened. -/
  | cannotOpen (path : Path) (fault : Fault)
  /-- The input grows as fast as it is read. -/
  | endless
  deriving DecidableEq, Repr

namespace StreamError

/-- The wording of an error. -/
def message : StreamError → Text
  | read fault => "read error: ".toList ++ fault.message
  | write fault => "write error: ".toList ++ fault.message
  | cannotOpen path fault =>
    "cannot open '".toList ++ path.display ++ "': ".toList ++ fault.message
  | endless => "the input grows as fast as it is read".toList

/-- Whether the output, and not the input, is to blame. -/
def isWrite : StreamError → Bool
  | write _ => true
  | _ => false

end StreamError

end SchemaDoc
