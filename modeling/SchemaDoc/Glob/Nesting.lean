import SchemaDoc.Text.Utf8

/-!
# Nesting of patterns

How deep the levels of a pattern are nested. A group is a level, and its choice another one if there
are several alternatives; a sequence is a level if it has several parts. A star is a level, and so
is a set, with another one if it has several members. The bytes of a character are parts of their
own.

Every pattern is a sequence between its two ends, which takes the first level. A pattern with more
levels than `Nesting.limit` is not taken.
-/

namespace SchemaDoc

namespace Glob

/-- How deep a sequence of parts is nested. -/
structure Nesting where
  /-- The number of the parts. -/
  parts : Nat
  /-- The number of levels in the deepest one of them. -/
  inner : Nat
  deriving DecidableEq, Repr

namespace Nesting

/-- The largest number of levels that a pattern may have. -/
def limit : Nat := 250

/-- A sequence without parts. -/
def nothing : Nesting := ⟨0, 0⟩

/-- A single part with so many levels. -/
def part (levels : Nat) : Nesting := ⟨1, levels⟩

/-- The parts of a character. -/
def char (c : Char) : Nesting := ⟨(String.utf8EncodeChar c).length, 0⟩

/-- Two sequences, one behind the other. -/
def append (m n : Nesting) : Nesting := ⟨m.parts + n.parts, max m.inner n.inner⟩

/-- The number of levels of a sequence. -/
def levels (n : Nesting) : Nat := if n.parts ≤ 1 then n.inner else n.inner + 1

/-- The group of those of the alternatives that have parts. -/
def group (alternatives : List Nesting) : Nesting :=
  match alternatives.filter fun n => decide (n.parts ≠ 0) with
  | [] => nothing
  | [n] => part (n.levels + 1)
  | ns => part (ns.foldl (fun deepest n => max deepest n.levels) 0 + 2)

/-- A set with so many members. -/
def set (members : Nat) : Nesting := part (if members ≤ 1 then 1 else 2)

/-- The number of levels of the sequence as a pattern. -/
def total (n : Nesting) : Nat := n.inner + 1

/-- Whether the sequence is a pattern with too many levels. -/
def isTooDeep (n : Nesting) : Bool := decide (limit < n.total)

end Nesting

end Glob

end SchemaDoc
