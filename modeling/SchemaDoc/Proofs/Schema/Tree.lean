import SchemaDoc.Proofs.Line.Plain

/-!
# Canonical schemas

A canonical schema is a tree: messages hold fields, comments, blank lines, enums and further
messages in any order and to any depth; enums hold values, comments and blank lines. Names, numerals
and comments carry what is asked of their text, so every tree is one that can be written.

A tree is rendered line by line, once as schema text (`Item.source`) and once as C-family text
(`Item.target`).
-/

namespace SchemaDoc

namespace Schema

/-- A name or a type: a word that is no keyword. -/
structure Identifier where
  /-- The word. -/
  text : Text
  isWord : Text.IsWord text
  ne_enumWord : text ≠ Markers.enumWord
  ne_messageWord : text ≠ Markers.messageWord

/-- A decimal numeral. -/
structure Numeral where
  /-- The digits. -/
  text : Text
  ne_nil : text ≠ []
  isDigit_of_mem : ∀ c ∈ text, c.isDigit = true

/-- A comment: anything that stays on one line and closes no block. -/
structure Note where
  /-- What follows the two slashes. -/
  text : Text
  newline_notMem : '\n' ∉ text
  return_notMem : '\r' ∉ text
  brace_notMem : '}' ∉ text

/-- What stands in the body of an enum. -/
inductive Member where
  /-- A blank line. -/
  | blank (indent : Nat)
  /-- A comment on a line of its own; it has no terminator. -/
  | comment (indent : Nat) (note : Note) (h : ';' ∉ note.text)
  /-- A value with its number, and perhaps a comment behind it. -/
  | value (indent : Nat) (name : Identifier) (number : Numeral) (note : Option Note)

/-- What stands in a schema or in the body of a message. -/
inductive Item where
  /-- A blank line. -/
  | blank (indent : Nat)
  /-- A comment on a line of its own. -/
  | comment (indent : Nat) (note : Note)
  /-- A field with its type and number, and perhaps a comment behind it. -/
  | field (indent : Nat) (type name : Identifier) (number : Numeral) (note : Option Note)
  /-- A message; its closing brace has an indentation of its own. -/
  | message (indent : Nat) (name : Identifier) (body : List Item) (closing : Nat)
  /-- An enum; its closing brace has an indentation of its own. -/
  | enumeration (indent : Nat) (name : Identifier) (body : List Member) (closing : Nat)

open Line (blanks)

/-- The name and the number of a field or of a value. -/
def assignment (name : Identifier) (number : Numeral) : Text :=
  name.text ++ ' ' :: '=' :: ' ' :: number.text

/-- What follows the keyword on a line that opens a block. -/
def opening (name : Identifier) : Text := name.text ++ [' ', '{']

/-- A statement of a schema, with the comment behind it. -/
def statement (code : Text) : Option Note → Text
  | some note => code ++ ';' :: ' ' :: '/' :: '/' :: note.text
  | none => code ++ [';']

/-- A statement of C-family text that ends in `mark`, with the comment above it. -/
def documented (code : Text) (mark : Char) : Option Note → List Text
  | some note => [' ' :: '/' :: '/' :: '/' :: note.text, code ++ [mark]]
  | none => [code ++ [mark]]

namespace Member

/-- The line of schema text. -/
def source : Member → Text
  | blank indent => blanks indent
  | comment indent note _ => blanks indent ++ '/' :: '/' :: note.text
  | value indent name number note => statement (blanks indent ++ assignment name number) note

/-- The lines of C-family text: a value ends in a comma. -/
def target : Member → List Text
  | blank indent => [blanks indent]
  | comment indent note _ => [blanks indent ++ '/' :: '/' :: '/' :: note.text]
  | value indent name number note => documented (blanks indent ++ assignment name number) ',' note

end Member

mutual

/-- The lines of schema text. -/
def Item.source : Item → List Text
  | .blank indent => [blanks indent]
  | .comment indent note => [blanks indent ++ '/' :: '/' :: note.text]
  | .field indent type name number note =>
    [statement (blanks indent ++ (type.text ++ ' ' :: assignment name number)) note]
  | .message indent name body closing =>
    (blanks indent ++ Markers.messageWord ++ ' ' :: opening name) :: Item.sources body ++
      [blanks closing ++ ['}']]
  | .enumeration indent name body closing =>
    (blanks indent ++ Markers.enumWord ++ ' ' :: opening name) :: body.map Member.source ++
      [blanks closing ++ ['}']]

/-- The lines of schema text of items one after the other. -/
def Item.sources : List Item → List Text
  | [] => []
  | item :: items => item.source ++ Item.sources items

end

mutual

/-- The lines of C-family text: a field stays, a message becomes a terminated `struct`. -/
def Item.target : Item → List Text
  | .blank indent => [blanks indent]
  | .comment indent note => [blanks indent ++ '/' :: '/' :: '/' :: note.text]
  | .field indent type name number note =>
    documented (blanks indent ++ (type.text ++ ' ' :: assignment name number)) ';' note
  | .message indent name body closing =>
    (Markers.structWord ++ blanks indent ++ ' ' :: opening name) :: Item.targets body ++
      [blanks closing ++ ['}', ';']]
  | .enumeration indent name body closing =>
    (blanks indent ++ Markers.enumWord ++ ' ' :: opening name) :: body.flatMap Member.target ++
      [blanks closing ++ ['}']]

/-- The lines of C-family text of items one after the other. -/
def Item.targets : List Item → List Text
  | [] => []
  | item :: items => item.target ++ Item.targets items

end

/-! ### The parts are plain -/

section Plain

variable (name : Identifier) (number : Numeral)

theorem Identifier.plain : Line.Plain name.text :=
  .of_isWord name.isWord.isWordChar_of_mem name.ne_enumWord name.ne_messageWord

theorem Numeral.plain : Line.Plain number.text := by
  refine .of_isWord (fun c hc => ?_) ?_ ?_
  · have hdigit := number.isDigit_of_mem c hc
    simp [Text.isWordChar, Char.isAlphanum, hdigit]
  · intro heq
    exact absurd (number.isDigit_of_mem 'e' (by simp [heq, Markers.enumWord])) (by decide)
  · intro heq
    exact absurd (number.isDigit_of_mem 'e' (by simp [heq, Markers.messageWord])) (by decide)

theorem plain_assignment : Line.Plain (assignment name number) := by
  have hnumber : Line.Plain ('=' :: ' ' :: number.text) :=
    Line.plain_nil.append_cons (Line.plain_nil.append_cons number.plain (by decide) (by decide))
      (by decide) (by decide)
  exact name.plain.append_cons hnumber (by decide) (by decide)

theorem plain_opening : Line.Plain (opening name) := by
  have hbrace : Line.Plain ['{'] :=
    Line.plain_nil.append_cons Line.plain_nil (by decide) (by decide)
  exact name.plain.append_cons hbrace (by decide) (by decide)

end Plain

end Schema

end SchemaDoc
