import SchemaDoc.Glob.Error
import SchemaDoc.Stream.Error

/-!
# Errors of a batch

The causes for which a batch cannot be started or carried through. An input that cannot be processed
is none of them.
-/

namespace SchemaDoc

/-- Why a batch cannot be started or carried through. -/
inductive BatchError where
  /-- The schema pattern has a mistake. -/
  | invalidPattern (pattern : Text) (error : Glob.Error)
  /-- The directory cannot be listed. -/
  | discovery (dir : Path) (fault : Fault)
  /-- The output is refused. -/
  | output (fault : Fault)
  /-- The input grows as fast as it is read. -/
  | endless (path : Path)
  deriving DecidableEq, Repr

namespace BatchError

/-- What lies behind an error. -/
def cause : BatchError → Text
  | invalidPattern pattern error => error.message pattern
  | discovery _ fault => fault.message
  | output fault => fault.message
  | endless _ => StreamError.endless.message

/-- The wording of an error, its cause included. -/
def message : BatchError → Text
  | invalidPattern pattern error =>
    "invalid schema pattern '".toList ++ pattern ++ "': ".toList ++ error.message pattern
  | discovery dir fault =>
    "cannot list directory '".toList ++ dir.display ++ "': ".toList ++ fault.message
  | output fault => "output error: ".toList ++ fault.message
  | endless path =>
    "no end of '".toList ++ path.display ++ "': ".toList ++ StreamError.endless.message

end BatchError

end SchemaDoc
