import SchemaDoc.Glob.Piece
import SchemaDoc.Glob.SetReader

/-!
# Patterns

A pattern is the written form of a glob. `?` is any one byte, `*` any bytes, `[...]` one byte of a
set, a group in braces a choice between the patterns in it that commas separate, and `\` takes the
character behind it as it is. `**` beside separators stands for any directories.

The pattern is read character by character with a look at the next one. `Glob.parse` gives the
glob, or the first mistake in the pattern; a group or a set that is never closed is a mistake found
at the end, and so is a nesting that is too deep.
-/

namespace SchemaDoc

namespace Glob

/-- A group that is not closed yet. -/
structure OpenGroup where
  /-- The pieces before the group, the last one first. -/
  outer : List Piece
  /-- The alternatives read to their end, the last one first, each with its last piece first. -/
  finished : List (List Piece) := []
  deriving DecidableEq, Repr

/-- What the reader expects. -/
inductive Mode where
  /-- A new piece. -/
  | piece
  /-- The character behind a `\`. -/
  | escaped
  /-- The second of two stars, the first of which follows `before`. -/
  | secondStar (before : Option Char)
  /-- The separator that belongs to two stars. -/
  | separator
  /-- The rest of a set. -/
  | inSet (reader : SetReader)
  deriving DecidableEq, Repr

/-- What the reader knows about the characters read so far. -/
structure Reader where
  /-- What is expected next. -/
  mode : Mode := .piece
  /-- The last character read. -/
  previous : Option Char := none
  /-- The pieces of the current alternative, the last one first. -/
  pieces : List Piece := []
  /-- The groups around it, the innermost first. -/
  groups : List OpenGroup := []
  deriving DecidableEq, Repr

namespace Reader

variable (r : Reader)

/-- Adds a piece. -/
def push (piece : Piece) : Reader := { r with mode := .piece, pieces := piece :: r.pieces }

/-- Adds the piece of an ordinary character. -/
def pushChar (c : Char) : Reader := r.push (.plain (char c) (.char c))

/-- Adds the piece of a star. -/
def pushStar : Reader := r.push (.plain anything (.part 1))

/-- Opens a group. -/
def openGroup : Reader := { r with pieces := [], groups := { outer := r.pieces } :: r.groups }

/-- Ends an alternative; a comma outside of every group is an ordinary character. -/
def comma : Reader :=
  match r.groups with
  | [] => r.pushChar ','
  | group :: groups =>
    { r with
      pieces := []
      groups := { group with finished := r.pieces :: group.finished } :: groups }

/-- Closes a group. -/
def closeGroup : Except Error Reader :=
  match r.groups with
  | [] => .error .unopenedGroup
  | group :: groups =>
    let alternatives := (r.pieces :: group.finished).reverse
    let piece := .plain (choice (alternatives.map ofPieces)) (.group (alternatives.map nestingOf))
    .ok { r with pieces := piece :: group.outer, groups }

/-- Reads the second of two stars, which stand behind `before` and in front of `next`. -/
def doubleStar (before next : Option Char) : Reader :=
  let twoStars := r.pushStar.pushStar
  let inGroup := !r.groups.isEmpty
  match r.pieces with
  | [] =>
    match next with
    | none => r.push .leadingDirs
    | some '/' => { r.push .leadingDirs with mode := .separator }
    | some _ => twoStars
  | last :: pieces =>
    let opens := before == some '/' || (inGroup && (before == some ',' || before == some '{'))
    let ends := next == none || (inGroup && (next == some ',' || next == some '}'))
    if !opens then twoStars
    else if ends then
      { r with mode := .piece, pieces := Piece.joinDirs .trailingDirs last :: pieces }
    else if next == some '/' then
      { r with mode := .separator, pieces := Piece.joinDirs .innerDirs last :: pieces }
    else twoStars

/-- Reads the first character of a piece. -/
def startPiece (c : Char) (next : Option Char) : Except Error Reader :=
  match c with
  | '?' => .ok (r.push (.plain (byte .all) (.part 0)))
  | '*' =>
    if next = some '*' then .ok { r with mode := .secondStar r.previous }
    else .ok r.pushStar
  | '[' => .ok { r with mode := .inSet {} }
  | '{' => .ok r.openGroup
  | '}' => r.closeGroup
  | ',' => .ok r.comma
  | '\\' => .ok { r with mode := .escaped }
  | c => .ok (r.pushChar c)

/-- Reads a character by what is expected. -/
def read (c : Char) (next : Option Char) : Except Error Reader :=
  match r.mode with
  | .piece => r.startPiece c next
  | .escaped => .ok (r.pushChar c)
  | .secondStar before => .ok (r.doubleStar before next)
  | .separator => .ok { r with mode := .piece }
  | .inSet reader =>
    if reader.closes c then
      .ok (r.push (.plain (byte reader.set) (.set reader.set.ranges.length)))
    else do return { r with mode := .inSet (← reader.read c) }

/-- Reads the character `c` in front of `next`. -/
def step (c : Char) (next : Option Char) : Except Error Reader := do
  return { (← r.read c next) with previous := some c }

/-- Reads a whole text. -/
def readAll (r : Reader) : Text → Except Error Reader
  | [] => .ok r
  | c :: t => do (← r.step c t.head?).readAll t

/-- The pieces of the pattern when it ends here, the last one first. -/
def finish : Except Error (List Piece) :=
  match r.mode, r.groups with
  | .escaped, _ => .error .danglingEscape
  | .inSet _, _ => .error .unclosedSet
  | _, _ :: _ => .error .unclosedGroup
  | _, [] => .ok r.pieces

end Reader

/-- The pieces of `pattern`, the last one first. -/
def readPieces (pattern : Text) : Except Error (List Piece) := do
  (← Reader.readAll {} pattern).finish

/-- The glob that `pattern` writes. A pattern that is `**` alone describes every name. -/
def parse (pattern : Text) : Except Error Glob := do
  let pieces ← readPieces pattern
  if pieces = [.leadingDirs] then .ok anything
  else if (nestingOf pieces).isTooDeep then .error .tooDeep
  else .ok (ofPieces pieces)

end Glob

end SchemaDoc
