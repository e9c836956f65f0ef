import SchemaDoc.Command.Argument
import SchemaDoc.Settings

/-!
# Requests

The arguments name the input files and give options. An option may be given once, with its value
attached or in the next argument; `--` ends the options. Arguments count in their order: the first
one that asks for the version, for help, or makes no sense decides. What no argument gives may come
from the environment, under the same rules, and else has a default.
-/

namespace SchemaDoc

namespace Command

/-- How the reading of the arguments can end early. -/
inductive Exit where
  /-- The version is asked for. -/
  | version
  /-- Help is asked for. -/
  | help
  /-- The arguments make no sense. -/
  | usage
  deriving DecidableEq, Repr

/-- What the arguments give. -/
structure Given where
  /-- The level of logging. -/
  logLevel : Option LogLevel := none
  /-- The log of every line. -/
  debugLog : Option Path := none
  /-- The log of inputs that could not be processed. -/
  errorLog : Option Path := none
  /-- The pattern of schema names. -/
  pattern : Option Text := none
  /-- The directory of schemas. -/
  directory : Option Path := none
  /-- The inputs. -/
  files : List Path := []
  deriving DecidableEq, Repr

namespace Given

/-- A path that is given must not be empty. -/
def pathOf (value : Bytes) : Except Exit Path :=
  if value = [] then .error .usage else .ok ⟨value⟩

/-- A text that is given must be UTF-8. -/
def textOf (value : Bytes) : Except Exit Text :=
  match Utf8.decode? value with
  | some t => .ok t
  | none => .error .usage

/-- A level that is given must be a known one. -/
def levelOf (value : Bytes) : Except Exit LogLevel := do
  match LogLevel.ofText? (← textOf value) with
  | some level => return level
  | none => throw .usage

variable (g : Given)

/-- Whether an option has its value. -/
def has : Parameter → Bool
  | .logLevel => g.logLevel.isSome
  | .debugLog => g.debugLog.isSome
  | .errorLog => g.errorLog.isSome
  | .pattern => g.pattern.isSome
  | .directory => g.directory.isSome

/-- Gives an option its value, which must be a valid one and the first. -/
def set (parameter : Parameter) (value : Bytes) : Except Exit Given :=
  if g.has parameter then .error .usage
  else
    match parameter with
    | .logLevel => do return { g with logLevel := some (← levelOf value) }
    | .debugLog => do return { g with debugLog := some (← pathOf value) }
    | .errorLog => do return { g with errorLog := some (← pathOf value) }
    | .pattern => do return { g with pattern := some (← textOf value) }
    | .directory => do return { g with directory := some (← pathOf value) }

/-- Adds an input. -/
def addFile (file : Bytes) : Except Exit Given := do
  return { g with files := g.files ++ [← pathOf file] }

/-- Reads the arguments in order. -/
def read (g : Given) : List Bytes → Except Exit Given
  | [] => .ok g
  | arg :: rest =>
    match Argument.ofBytes arg with
    | .file path => do read (← g.addFile path.bytes) rest
    | .option parameter (some value) => do read (← g.set parameter value) rest
    | .option parameter none =>
      match rest with
      | [] => .error .usage
      | value :: rest =>
        if Argument.isValue value then do read (← g.set parameter value) rest
        else .error .usage
    | .endOfOptions => rest.foldlM addFile g
    | .version => .error .version
    | .help => .error .help
    | .unknown => .error .usage

/-- Takes the value of an option from the environment when no argument gave it. -/
def complete (environment : List (Text × Bytes)) (g : Given) (parameter : Parameter) :
    Except Exit Given :=
  match parameter.environmentName.bind fun name => environment.lookup name with
  | some value => if g.has parameter then .ok g else g.set parameter value
  | none => .ok g

end Given

/-- What the command is asked to do. -/
structure Request where
  /-- The settings, without the tool's own name. -/
  settings : Settings
  /-- The directory in which schemas are looked for when no input is named. -/
  directory : Path
  /-- The inputs. -/
  files : List Path
  deriving DecidableEq, Repr

/-- What is asked for when `g` is given. -/
def Given.request (g : Given) : Request :=
  let defaults : Settings := {}
  { settings :=
      { logLevel := g.logLevel.getD defaults.logLevel
        debugLog := g.debugLog.getD defaults.debugLog
        errorLog := g.errorLog.getD defaults.errorLog
        schemaPattern := g.pattern.getD defaults.schemaPattern }
    directory := g.directory.getD ⟨Path.here⟩
    files := g.files }

/-- What the arguments and the environment ask for. -/
def Request.ofArguments (arguments : List Bytes) (environment : List (Text × Bytes)) :
    Except Exit Request := do
  let given ← Given.read {} arguments
  let complete ← Parameter.all.foldlM (Given.complete environment) given
  return complete.request

end Command

end SchemaDoc
