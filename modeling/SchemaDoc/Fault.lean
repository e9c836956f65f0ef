import SchemaDoc.Text.Basic

/-!
# Faults of reading and writing

The causes for which the outside world refuses to open, read, list or write something, each with the
one wording in which it is shown.
-/

namespace SchemaDoc

/-- Why an operation on a file or a stream was refused. -/
inductive Fault where
  /-- Nothing has that path. -/
  | notFound
  /-- The path leads through something that is not a directory. -/
  | notDirectory
  /-- A directory was read or written like a file. -/
  | isDirectory
  /-- The device takes no more data. -/
  | noSpace
  /-- A path, or a name in it, is longer than the system takes. -/
  | nameTooLong
  /-- The path holds a NUL byte. -/
  | embeddedNul
  /-- The other side took no byte of what was written. -/
  | wroteNothing
  /-- A cause that the stream itself words. -/
  | other (text : Text)
  deriving DecidableEq, Repr

/-- The wording of a fault. -/
def Fault.message : Fault → Text
  | notFound => "No such file or directory (os error 2)".toList
  | notDirectory => "Not a directory (os error 20)".toList
  | isDirectory => "Is a directory (os error 21)".toList
  | noSpace => "No space left on device (os error 28)".toList
  | nameTooLong => "File name too long (os error 36)".toList
  | embeddedNul => "file name contained an unexpected NUL byte".toList
  | wroteNothing => "failed to write whole buffer".toList
  | other text => text

end SchemaDoc
