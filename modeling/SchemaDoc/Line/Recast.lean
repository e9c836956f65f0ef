import SchemaDoc.Line.Scope

/-!
# Recasting a line

One line of schema text becomes one or two lines of C-family text. The comment becomes a
documentation comment. A comment behind a terminator moves, with all that follows the first
terminator, to a line of its own above the code. In an enum body the first terminator becomes a
comma, elsewhere the first closing brace gets a terminator. The word `message` is taken out and
`struct` put at the start of the line.

Which of these edits happen is read off the markers of the line as it came in; where they happen is
searched in the text as edited so far.

`Line.recastWith` does the same under markers that may be any, and makes each edit at the byte
offset of what it is about. An edit at an offset inside a character or beyond the end has no
outcome.
-/

namespace SchemaDoc

/-- What becomes of one line. -/
structure Recast where
  /-- The comment moved above the line, if one was. -/
  hoisted : Option Text
  /-- The edited line. -/
  line : Text
  deriving DecidableEq, Repr

namespace Recast

variable (r : Recast)

/-- The lines in the order in which they are written. -/
def lines : List Text := r.hoisted.toList ++ [r.line]

/-- The number of lines written. -/
def lineCount : Nat := if r.hoisted.isSome then 2 else 1

@[simp]
theorem length_lines : r.lines.length = r.lineCount := by
  cases h : r.hoisted <;> simp [lines, lineCount, h]

/-- Whether the line comes out as `input` and nothing else does. -/
def isIdentity (input : Text) : Bool := r.hoisted.isNone && decide (r.line = input)

/-- The lines as one text, separated by line feeds. -/
def text : Text :=
  match r.hoisted with
  | some hoisted => hoisted ++ '\n' :: r.line
  | none => r.line

end Recast

namespace Line

/-- Turns the first comment of a line into a documentation comment. -/
def emphasise (line : Text) : Text :=
  match Text.cut? Markers.commentOpen line with
  | some (head, tail) => head ++ Markers.docOpen ++ tail
  | none => line

/-- Moves what follows the first terminator off the line when a comment stands there. -/
def hoist (m : Markers) (line : Text) : Recast :=
  match Text.cut? [';'] line with
  | some (head, tail) =>
    if m.terminatorPrecedesComment then ⟨some tail, head ++ [';']⟩ else ⟨none, line⟩
  | none => ⟨none, line⟩

/-- Turns the first terminator into a list separator in the body of an enum. -/
def separate (s : Scope) (line : Text) : Text :=
  match s, Text.cut? [';'] line with
  | .enumBody, some (head, tail) => head ++ ',' :: tail
  | _, _ => line

/-- Terminates the first closing brace outside the body of an enum. -/
def close (m : Markers) (s : Scope) (line : Text) : Text :=
  match s, m.blockClose, Text.cut? ['}'] line with
  | .outside, some _, some (head, tail) => head ++ '}' :: ';' :: tail
  | _, _, _ => line

/-- Takes the first bare `message` out of the line and puts `struct` at its start. -/
def declare (m : Markers) (line : Text) : Text :=
  match Text.cutBare? Markers.messageWord line with
  | some (head, tail) =>
    if m.declaresMessage then Markers.structWord ++ head ++ tail else line
  | none => line

/-- The edits behind the comment's, with the scope of the next line. -/
def edit (m : Markers) (s : Scope) (line : Text) : Recast × Scope :=
  let r := hoist m line
  (⟨r.hoisted, declare m (close m s (separate s r.line))⟩, s.leave m)

/-- Recasts a line when the lines before it end in scope `s`, and gives the scope behind it. -/
def recast (s : Scope) (line : Text) : Recast × Scope :=
  let m := Markers.ofLine line
  edit m (s.enter m) (emphasise line)

/-! ### Edits at byte offsets -/

/-- Puts the mark of a documentation comment in the place of the comment at the given offset. -/
def emphasiseAt? (comment : Option Nat) (line : Text) : Option Text :=
  match comment with
  | some offset => Text.replaceAt? offset Markers.commentOpen Markers.docOpen line
  | none => some line

/-- `separate` at the offset of the first terminator. -/
def separateAt? (s : Scope) (line : Text) : Option Text :=
  match s, Text.find? [';'] line with
  | .enumBody, some offset => Text.replaceAt? offset [';'] [','] line
  | _, _ => some line

/-- `close` at the offset behind the first closing brace. -/
def closeAt? (m : Markers) (s : Scope) (line : Text) : Option Text :=
  match s, m.blockClose, Text.find? ['}'] line with
  | .outside, some _, some offset => Text.replaceAt? (offset + Text.byteSize ['}']) [] [';'] line
  | _, _, _ => some line

/-- `declare` at the offset of the first bare `message`. -/
def declareAt? (m : Markers) (line : Text) : Option Text :=
  match Text.findBare? Markers.messageWord line with
  | some offset =>
    if m.declaresMessage then
      (Text.replaceAt? offset Markers.messageWord [] line).map (Markers.structWord ++ ·)
    else some line
  | none => some line

/-- All edits but the last. -/
def punctuateAt? (m : Markers) (s : Scope) (line : Text) : Option Recast := do
  let emphasised ← emphasiseAt? m.comment line
  let r := hoist m emphasised
  let separated ← separateAt? s r.line
  let closed ← closeAt? m s separated
  return ⟨r.hoisted, closed⟩

/-- Recasts a line in scope `s` by markers that may be any, and gives the scope behind it. The scope
is left between the last two edits, so an edit that has no outcome leaves it alone unless it is the
last. -/
def recastWith (m : Markers) (s : Scope) (line : Text) : Option Recast × Scope :=
  match punctuateAt? m s line with
  | none => (none, s)
  | some r => ((declareAt? m r.line).map fun line => ⟨r.hoisted, line⟩, s.leave m)

end Line

end SchemaDoc
