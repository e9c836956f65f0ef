import SchemaDoc.Glob.Basic
import SchemaDoc.Glob.Error

/-!
# Sets in patterns

A set in brackets describes one byte. It lists characters and ranges of characters; `!` or `^` at
its start negates it, a `]` or `-` at its start and a `-` at its end are ordinary members, and
nothing is escaped. A range may be given a new end by a further `-`.

A character of several bytes contributes each of its bytes.
-/

namespace SchemaDoc

namespace Glob

/-- The part of a set that is read so far. -/
structure SetReader where
  /-- Whether the opening bracket is the last character read. -/
  opening : Bool := true
  /-- Whether the set is negated. -/
  negated : Bool := false
  /-- The ranges, the last one first. -/
  ranges : List (Char × Char) := []
  /-- Whether a `-` awaits the end of the last range. -/
  inRange : Bool := false
  deriving DecidableEq, Repr

namespace SetReader

variable (r : SetReader)

/-- Whether `c` closes the set; the first member may be a `]`. -/
def closes (c : Char) : Bool := c == ']' && !r.ranges.isEmpty

/-- Reads a character that does not close the set. -/
def read (c : Char) : Except Error SetReader :=
  if r.opening && (c == '!' || c == '^') then
    .ok { r with opening := false, negated := true }
  else
    match r.ranges, r.inRange with
    | [], _ => .ok { r with opening := false, ranges := [(c, c)] }
    | (first, _) :: ranges, true =>
      if c < first then .error (.invalidRange first c)
      else .ok { r with ranges := (first, c) :: ranges, inRange := false }
    | ranges, false =>
      if c = '-' then .ok { r with inRange := true }
      else .ok { r with ranges := (c, c) :: ranges }

/-- The members that a range of characters gives to a set of bytes: every byte of its two ends and,
in between, the bytes from the last one of `first` to the first one of `last`. -/
def byteRanges (first last : Char) : List (UInt8 × UInt8) :=
  let lower := String.utf8EncodeChar first
  let upper := String.utf8EncodeChar last
  if first = last then lower.map fun b => (b, b)
  else
    lower.dropLast.map (fun b => (b, b)) ++
      [(lower.getLastD 0, upper.headD 0)] ++ upper.tail.map fun b => (b, b)

/-- The set when it is closed; a `-` that still awaits its end is a member. -/
def set : ByteSet where
  negated := r.negated
  ranges := (if r.inRange then [(0x2D, 0x2D)] else []) ++
    r.ranges.flatMap fun (first, last) => byteRanges first last

end SetReader

end Glob

end SchemaDoc
