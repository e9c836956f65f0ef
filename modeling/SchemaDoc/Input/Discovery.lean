import SchemaDoc.FileSystem.Access
import SchemaDoc.Input.Classifier

/-!
# Discovery

The schemas of a directory are the regular files in it whose names the classifier takes for those of
schemas, sorted by their paths. A file must be found under its path again, so one whose path is too
long is none of them.
-/

namespace SchemaDoc

namespace Classifier

/-- Whether a schema stands at `path`. -/
def selects (c : Classifier) (files : FileSystem) (path : Path) : Bool :=
  files.isFile path && decide (c.classify path = .schema)

/-- The paths of the schemas in `dir`. -/
def discover (c : Classifier) (files : FileSystem) (dir : Path) : Except Fault (List Path) := do
  let found := ((← files.list dir).map dir.join).filter (c.selects files)
  return found.mergeSort Path.precedes

end Classifier

end SchemaDoc
