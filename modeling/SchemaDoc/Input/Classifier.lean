import SchemaDoc.Glob.Parser
import SchemaDoc.Settings

/-!
# Kinds of input

What happens to an input is decided by its file name alone: the tool's own file is left out, a name
that the schema pattern describes is a schema, and everything else is copied.
-/

namespace SchemaDoc

/-- What an input is. -/
inductive InputKind where
  /-- A schema, which is recast. -/
  | schema
  /-- Something else, which is copied. -/
  | passthrough
  /-- The tool itself, which is left out. -/
  | selfIdentity
  deriving DecidableEq, Repr

/-- The name of a kind in the trace. -/
def InputKind.name : InputKind → Text
  | schema => "Schema".toList
  | passthrough => "Passthrough".toList
  | selfIdentity => "SelfIdentity".toList

/-- What decides the kind of an input. -/
structure Classifier where
  /-- The names of schemas. -/
  glob : Glob
  /-- The name of the tool's own file. -/
  selfName : Option Bytes
  deriving DecidableEq, Repr

namespace Classifier

/-- The classifier of the settings, or the mistake in their pattern. -/
def ofSettings (s : Settings) : Except Glob.Error Classifier := do
  return { glob := ← Glob.parse s.schemaPattern, selfName := s.selfName }

/-- The kind of the input at `path`. -/
def classify (c : Classifier) (path : Path) : InputKind :=
  match path.fileName? with
  | none => .passthrough
  | some name =>
    if c.selfName = some name then .selfIdentity
    else if c.glob.accepts name then .schema
    else .passthrough

end Classifier

end SchemaDoc
