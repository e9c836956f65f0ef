import SchemaDoc.Text.Utf8

/-!
# Paths

A path is a sequence of bytes in which `/` separates names. Read by its components, a doubled or
trailing `/` and a `.` behind another component do not count, while a leading `.` does. The last
component, when it is a name, is the file name of the path.
-/

namespace SchemaDoc

/-- The path of a file or a directory. -/
structure Path where
  /-- The path as it is written. -/
  bytes : Bytes
  deriving DecidableEq, Repr

namespace Path

/-- The byte that separates names. -/
def separator : UInt8 := 0x2F

/-- The name of the directory itself. -/
def here : Bytes := [0x2E]

/-- The name of the directory above. -/
def up : Bytes := [0x2E, 0x2E]

/-- The path with the bytes of `t`. -/
def ofText (t : Text) : Path := ⟨Utf8.encode t⟩

/-- The path as it is shown. -/
def display (p : Path) : Text := Utf8.decode p.bytes

/-- Splits `bs` at every separator; there is always one part more than there are separators. -/
def splitParts (bs : Bytes) : List Bytes :=
  bs.foldr (fun b parts =>
    if b = separator then [] :: parts
    else
      match parts with
      | [] => [[b]]
      | part :: parts => (b :: part) :: parts) [[]]

/-- The parts between separators that are not empty. -/
def names (p : Path) : List Bytes := (splitParts p.bytes).filter fun part => !part.isEmpty

/-- Whether the path starts at the root. -/
def isAbsolute (p : Path) : Bool := p.bytes.head? == some separator

/-- Whether the path ends in a separator. -/
def endsInSeparator (p : Path) : Bool := p.bytes.getLast? == some separator

/-- One component of a path. -/
inductive Component where
  /-- The root directory. -/
  | root
  /-- A leading `.`. -/
  | here
  /-- A `..`. -/
  | up
  /-- A name. -/
  | name (name : Bytes)
  deriving DecidableEq, Repr

/-- The component that a part between separators stands for. -/
def Component.ofPart (part : Bytes) : Component := if part = Path.up then up else name part

/-- The components of a path. A `.` counts only at the start of a path that is not absolute. -/
def components (p : Path) : List Component :=
  let rest := (p.names.filter fun part => part != here).map Component.ofPart
  if p.isAbsolute then .root :: rest
  else if p.names.head? = some here then .here :: rest
  else rest

/-- The last component when it is a name. -/
def fileName? (p : Path) : Option Bytes :=
  match p.components.getLast? with
  | some (.name name) => some name
  | _ => none

/-- Whether two paths have the same components. -/
def same (p q : Path) : Bool := decide (p.components = q.components)

/-- What a component is sorted by: the root comes first, then `.`, then `..`, then names by their
bytes. -/
def Component.key : Component → Bytes
  | root => [0]
  | here => [1]
  | up => [2]
  | name part => 3 :: part

/-- Whether a path may stand before another when paths are sorted, which is by their components. -/
def precedes (p q : Path) : Bool :=
  decide (p.components.map Component.key ≤ q.components.map Component.key)

/-- The path of `name` in the directory `dir`. -/
def join (dir : Path) (name : Bytes) : Path :=
  if dir.endsInSeparator then ⟨dir.bytes ++ name⟩ else ⟨dir.bytes ++ separator :: name⟩

end Path

end SchemaDoc
