import SchemaDoc.Fault

/-!
# Sources

A source delivers bytes until it ends or breaks. It is read line by line, a line reaching up to and
including its line feed. The last line may lack one; when the source breaks instead of ending, such
a line is lost.

`flatten_splitLines` says that the lines are the content cut into pieces, and `splitLines_append`
that content behind the end of a line has lines of its own.
-/

namespace SchemaDoc

/-- The byte that ends a line. -/
def newline : UInt8 := 0x0A

/-- The byte that may stand before the end of a line without belonging to it. -/
def carriageReturn : UInt8 := 0x0D

/-- Cuts `bs` behind every line feed. -/
def splitLines (bs : Bytes) : List Bytes :=
  bs.foldr (fun b lines =>
    if b = newline then [b] :: lines
    else
      match lines with
      | [] => [[b]]
      | line :: lines => (b :: line) :: lines) []

theorem splitLines_cons (b : UInt8) (bs : Bytes) :
    splitLines (b :: bs) =
      if b = newline then [b] :: splitLines bs
      else
        match splitLines bs with
        | [] => [[b]]
        | line :: lines => (b :: line) :: lines := rfl

/-- The lines of `bs` are `bs` cut into pieces. -/
theorem flatten_splitLines (bs : Bytes) : (splitLines bs).flatten = bs := by
  induction bs with
  | nil => rfl
  | cons b bs ih =>
    rw [splitLines_cons]
    split
    · simp [ih]
    · split
      · next h => simp [h] at ih ⊢; exact ih
      · next h => simp [h] at ih ⊢; exact ih

/-- What stands behind the end of a line has lines of its own. -/
theorem splitLines_append (line rest : Bytes) :
    splitLines (line ++ newline :: rest) = splitLines (line ++ [newline]) ++ splitLines rest := by
  induction line with
  | nil => simp [splitLines]
  | cons b line ih =>
    have hne : splitLines (line ++ [newline]) ≠ [] := fun h => by
      simpa [h] using flatten_splitLines (line ++ [newline])
    obtain ⟨first, others, h⟩ := List.exists_cons_of_ne_nil hne
    rw [List.cons_append, List.cons_append, splitLines_cons, splitLines_cons, ih, h]
    split <;> rfl

/-- Something that bytes are read from. -/
structure Source where
  /-- The bytes that are delivered. -/
  content : Bytes
  /-- What is met behind them: a fault, or the end when there is none. -/
  fault : Option Fault := none
  deriving DecidableEq, Repr

namespace Source

/-- The source of `bs` that refuses to deliver the byte at offset `n` or the end found there. -/
def failingAt (bs : Bytes) (n : Nat) (fault : Fault) : Source :=
  if n ≤ bs.length then ⟨bs.take n, some fault⟩ else ⟨bs, none⟩

/-- The lines that can be read from the source. -/
def lines (s : Source) : List Bytes :=
  let lines := splitLines s.content
  if s.fault.isSome then lines.filter fun line => line.getLast? == some newline else lines

end Source

end SchemaDoc
