import SchemaDoc.Glob.Basic
import SchemaDoc.Glob.Nesting

/-!
# Pieces of a pattern

A pattern is a sequence of pieces. Most of them mean the same wherever they stand; two stars beside
separators take the separators in and stand for directories.
-/

namespace SchemaDoc

namespace Glob

/-- One piece of a pattern. -/
inductive Piece where
  /-- A piece that means the same wherever it stands. -/
  | plain (g : Glob) (nesting : Nesting)
  /-- A `**` in front: any directories above. -/
  | leadingDirs
  /-- A `**` at the end: anything below. -/
  | trailingDirs
  /-- A `**` between separators: any directories in between. -/
  | innerDirs
  deriving DecidableEq, Repr

namespace Piece

/-- The separator of a path. -/
def separator : Glob := char '/'

/-- What a piece describes. -/
def glob : Piece → Glob
  | plain g _ => g
  | leadingDirs => either (either separator empty) (cat anything separator)
  | trailingDirs => cat separator anything
  | innerDirs => either separator (cat separator (cat anything separator))

/-- How deep a piece is nested. The directories in front and in between are groups of two
alternatives, one of which is a sequence with a star in it. -/
def nesting : Piece → Nesting
  | plain _ nesting => nesting
  | leadingDirs => .part 4
  | trailingDirs => (Nesting.char '/').append (.part 1)
  | innerDirs => .part 4

/-- The piece that `directories` makes of the separator before it; directories before it stay what
they are. -/
def joinDirs (directories : Piece) : Piece → Piece
  | leadingDirs => leadingDirs
  | trailingDirs => trailingDirs
  | _ => directories

end Piece

/-- What a sequence of pieces describes, the last piece first. -/
def ofPieces (pieces : List Piece) : Glob := pieces.foldl (fun g piece => append piece.glob g) empty

/-- How deep a sequence of pieces is nested, the last piece first. -/
def nestingOf (pieces : List Piece) : Nesting :=
  pieces.foldl (fun n piece => piece.nesting.append n) .nothing

end Glob

end SchemaDoc
