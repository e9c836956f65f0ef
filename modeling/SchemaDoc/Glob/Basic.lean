import SchemaDoc.Text.Utf8

/-!
# Globs

A glob describes a set of names, a name being a sequence of bytes. It is put together from single
bytes out of a set, from "any bytes at all", and from sequences and choices of globs.

`Glob.accepts` decides membership by going through the glob once and carrying along the set of all
places of the name that can be reached, so its cost grows with the product of the two sizes.
-/

namespace SchemaDoc

/-- A set of bytes: the union of some ranges, or its complement. -/
structure ByteSet where
  /-- Whether the set is the complement of the union. -/
  negated : Bool := false
  /-- The ranges, both ends included. -/
  ranges : List (UInt8 × UInt8)
  deriving DecidableEq, Repr

namespace ByteSet

/-- The set of all bytes. -/
def all : ByteSet := { ranges := [(0x00, 0xFF)] }

/-- The set with the one element `b`. -/
def single (b : UInt8) : ByteSet := { ranges := [(b, b)] }

/-- Whether `b` is in the set. -/
def contains (s : ByteSet) (b : UInt8) : Bool :=
  s.negated != s.ranges.any fun (first, last) => decide (first ≤ b) && decide (b ≤ last)

end ByteSet

/-- A description of a set of names. -/
inductive Glob where
  /-- The empty name. -/
  | empty
  /-- One byte of the set. -/
  | byte (set : ByteSet)
  /-- Any bytes, also none. -/
  | anything
  /-- A name of `g` followed by one of `h`. -/
  | cat (g h : Glob)
  /-- A name of `g` or one of `h`. -/
  | either (g h : Glob)
  deriving DecidableEq, Repr

namespace Glob

/-- The sequence of two globs, in which an empty one leaves no trace. -/
def append : Glob → Glob → Glob
  | empty, h => h
  | g, empty => g
  | g, h => cat g h

/-- Exactly the bytes `bs`. -/
def literal (bs : Bytes) : Glob := bs.foldr (fun b g => append (byte (.single b)) g) empty

/-- Exactly the character `c`. -/
def char (c : Char) : Glob := literal (String.utf8EncodeChar c)

/-- The choice between those of the globs that are not empty; empty when there are none. -/
def choice (gs : List Glob) : Glob :=
  match gs.filter fun g => decide (g ≠ empty) with
  | [] => empty
  | g :: gs => gs.foldl either g

/-! ### Matching -/

/-- A set of places in a name: a flag for each place, from before the first byte to behind the
last. -/
abbrev Marks := List Bool

/-- Marks every place from the first marked one on, and all when `seen`. -/
def spread (seen : Bool) : Marks → Marks
  | [] => []
  | mark :: marks => (seen || mark) :: spread (seen || mark) marks

/-- The places of `name` that can be reached from the marked ones over a name of the glob. -/
def reach (name : Bytes) : Glob → Marks → Marks
  | empty, marks => marks
  | byte set, marks => false :: List.zipWith (fun b mark => set.contains b && mark) name marks
  | anything, marks => spread false marks
  | cat g h, marks => h.reach name (g.reach name marks)
  | either g h, marks => List.zipWith (· || ·) (g.reach name marks) (h.reach name marks)

/-- Whether the glob describes `name`. -/
def accepts (g : Glob) (name : Bytes) : Bool :=
  (g.reach name (true :: name.map fun _ => false)).getLast? == some true

end Glob

end SchemaDoc
