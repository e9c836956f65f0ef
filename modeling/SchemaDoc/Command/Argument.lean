import SchemaDoc.Path

/-!
# Command line arguments

What a single argument is: a path, or an option by its long name or its letter, perhaps with its
value attached. An argument that starts with a dash is an option, unless it is a dash alone.
-/

namespace SchemaDoc

namespace Command

/-- The options that take a value. -/
inductive Parameter where
  /-- How much is logged. -/
  | logLevel
  /-- The log of every line. -/
  | debugLog
  /-- The log of inputs that could not be processed. -/
  | errorLog
  /-- The pattern of schema names. -/
  | pattern
  /-- The directory in which schemas are looked for when no input is named. -/
  | directory
  deriving DecidableEq, Repr

namespace Parameter

/-- The options in the order in which they are completed from the environment. -/
def all : List Parameter := [logLevel, debugLog, errorLog, pattern, directory]

/-- The long name. -/
def longName : Parameter → Bytes
  | logLevel => Utf8.encode "log-level".toList
  | debugLog => Utf8.encode "debug-log".toList
  | errorLog => Utf8.encode "error-log".toList
  | pattern => Utf8.encode "pattern".toList
  | directory => Utf8.encode "directory".toList

/-- The letter, as a byte. -/
def letter? : Parameter → Option UInt8
  | logLevel => some 0x6C
  | pattern => some 0x70
  | directory => some 0x43
  | _ => none

/-- The variable of the environment that takes the place of the option. -/
def environmentName : Parameter → Option Text
  | logLevel => some "PROTODOX_LOG_LEVEL".toList
  | debugLog => some "PROTODOX_DEBUG_LOG".toList
  | errorLog => some "PROTODOX_ERROR_LOG".toList
  | _ => none

end Parameter

/-- What one argument is, taken by itself. -/
inductive Argument where
  /-- A path. -/
  | file (path : Path)
  /-- An option, with its value if that is attached. -/
  | option (parameter : Parameter) (value : Option Bytes)
  /-- The mark behind which there are only paths. -/
  | endOfOptions
  /-- The question for the version. -/
  | version
  /-- The question for help. -/
  | help
  /-- Nothing known. -/
  | unknown
  deriving DecidableEq, Repr

namespace Argument

/-- The byte that starts an option. -/
def dash : UInt8 := 0x2D

/-- The byte between an option and its value. -/
def equals : UInt8 := 0x3D

/-- An argument that starts with two dashes, by what follows them. -/
def ofLong (body : Bytes) : Argument :=
  let name := body.takeWhile (· != equals)
  let value := (body.dropWhile (· != equals)).tail?
  match Parameter.all.find? (·.longName == name) with
  | some parameter => .option parameter value
  | none =>
    if value.isSome then .unknown
    else if name = Utf8.encode "version".toList then .version
    else if name = Utf8.encode "help".toList then .help
    else .unknown

/-- An argument that starts with one dash, by what follows it. The first letter decides, because no
known letter leaves the rest to further ones. -/
def ofShort (letter : UInt8) (rest : Bytes) : Argument :=
  match Parameter.all.find? (·.letter? == some letter) with
  | some parameter =>
    .option parameter <|
      match rest with
      | [] => none
      | b :: value => some (if b = equals then value else rest)
  | none =>
    if letter = 0x56 then .version
    else if letter = 0x68 then .help
    else .unknown

/-- What an argument is. A dash alone is a path. -/
def ofBytes (arg : Bytes) : Argument :=
  match arg with
  | [] => .file ⟨[]⟩
  | first :: rest =>
    if first ≠ dash then .file ⟨arg⟩
    else
      match rest with
      | [] => .file ⟨arg⟩
      | second :: body =>
        if second ≠ dash then .ofShort second body
        else if body = [] then .endOfOptions
        else .ofLong body

/-- Whether an argument can be the value of the option before it. -/
def isValue (arg : Bytes) : Bool :=
  match ofBytes arg with
  | .file _ => true
  | _ => false

end Argument

end Command

end SchemaDoc
