import SchemaDoc.Line.Markers

/-!
# Scope of a line

From one line to the next only one thing is remembered: whether the text stands in the body of an
enum. A line that opens an enum puts itself already inside; a closing brace ends the body.
-/

namespace SchemaDoc

/-- Where a line stands. -/
inductive Scope where
  /-- Not in the body of an enum. -/
  | outside
  /-- In the body of an enum. -/
  | enumBody
  deriving DecidableEq, Repr

namespace Scope

/-- Whether the scope is the body of an enum. -/
def isInside : Scope → Bool
  | outside => false
  | enumBody => true

/-- The scope in which a line with markers `m` is edited when the lines before it end in `s`. -/
def enter (s : Scope) (m : Markers) : Scope := if m.entersEnum then enumBody else s

/-- Whether a line with markers `m`, edited in scope `s`, ends the body of an enum. -/
def exits (s : Scope) (m : Markers) : Bool := s.isInside && m.blockClose.isSome

/-- The scope behind a line with markers `m` that was edited in scope `s`. -/
def leave (s : Scope) (m : Markers) : Scope := if s.exits m then outside else s

end Scope

end SchemaDoc
