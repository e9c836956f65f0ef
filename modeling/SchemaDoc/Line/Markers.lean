import SchemaDoc.Text.Search

/-!
# Markers of a line

Everything that is decided about a line of schema text is decided by where five markers first stand
in it: the comment `//`, the bare words `enum` and `message`, the terminator `;` and the closing
brace. The search is purely textual, so a marker inside a quoted string counts like any other.
-/

namespace SchemaDoc

/-- Byte offsets of the first occurrence of each marker in a line. -/
structure Markers where
  /-- Start of the comment. -/
  comment : Option Nat := none
  /-- Start of the bare word `enum`. -/
  enum : Option Nat := none
  /-- Start of the bare word `message`. -/
  message : Option Nat := none
  /-- The first `;`. -/
  terminator : Option Nat := none
  /-- The first closing brace. -/
  blockClose : Option Nat := none
  deriving DecidableEq, Repr

namespace Markers

/-- What opens a comment in a schema. -/
def commentOpen : Text := ['/', '/']

/-- What opens a documentation comment. -/
def docOpen : Text := ['/', '/', '/']

/-- The word that opens an enum. -/
def enumWord : Text := ['e', 'n', 'u', 'm']

/-- The word that opens a message. -/
def messageWord : Text := ['m', 'e', 's', 's', 'a', 'g', 'e']

/-- The word that takes the place of `message`. -/
def structWord : Text := ['s', 't', 'r', 'u', 'c', 't']

/-- The markers of `line`. -/
def ofLine (line : Text) : Markers where
  comment := Text.find? commentOpen line
  enum := Text.findBare? enumWord line
  message := Text.findBare? messageWord line
  terminator := Text.find? [';'] line
  blockClose := Text.find? ['}'] line

variable (m : Markers)

/-- Whether `offset` lies before the comment; without a comment every offset does. -/
def beforeComment (offset : Nat) : Bool := m.comment.all fun comment => decide (offset < comment)

/-- Whether the line opens an enum. -/
def entersEnum : Bool := m.enum.any m.beforeComment

/-- Whether the line opens a message. -/
def declaresMessage : Bool := m.message.any m.beforeComment

/-- Whether the line has a terminator and, behind it, a comment. -/
def terminatorPrecedesComment : Bool :=
  match m.terminator, m.comment with
  | some terminator, some comment => decide (terminator < comment)
  | _, _ => false

/-- Whether the line has none of the markers. -/
def isEmpty : Bool := decide (m = {})

end Markers

end SchemaDoc
