import SchemaDoc.Text.Basic

/-!
# Mistakes in patterns
-/

namespace SchemaDoc

namespace Glob

/-- A mistake in a pattern. -/
inductive Error where
  /-- A set is not closed. -/
  | unclosedSet
  /-- A range ends before it starts. -/
  | invalidRange (first last : Char)
  /-- A group is closed that was not opened. -/
  | unopenedGroup
  /-- A group is not closed. -/
  | unclosedGroup
  /-- There is nothing behind the last `\`. -/
  | danglingEscape
  /-- The pattern has too many levels. -/
  | tooDeep
  deriving DecidableEq, Repr

/-- What is wrong with a pattern. -/
def Error.reason : Error → Text
  | unclosedSet => "unclosed character class; missing ']'".toList
  | invalidRange first last =>
    "invalid range; '".toList ++ [first] ++ "' > '".toList ++ [last] ++ "'".toList
  | unopenedGroup =>
    "unopened alternate group; missing '\x7b' (maybe escape '\x7d' with '[\x7d]'?)".toList
  | unclosedGroup =>
    "unclosed alternate group; missing '\x7d' (maybe escape '\x7b' with '[\x7b]'?)".toList
  | danglingEscape => "dangling '\\'".toList
  | tooDeep => "nested too deeply".toList

/-- The wording of a mistake in `pattern`. -/
def Error.message (e : Error) (pattern : Text) : Text :=
  "error parsing glob '".toList ++ pattern ++ "': ".toList ++ e.reason

end Glob

end SchemaDoc
