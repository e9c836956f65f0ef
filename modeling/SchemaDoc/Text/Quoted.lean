import SchemaDoc.Text.Printable

/-!
# Quoted text

Text as it is shown in the trace: between double quotes, with the double quote and the backslash
escaped by a backslash, the usual short escapes for tab, line feed, carriage return and NUL, and
every other character without a mark of its own by its number in hexadecimal.
-/

namespace SchemaDoc

namespace Text

/-- One character of a quoted text. -/
def quoteChar (c : Char) : Text :=
  if c = '\x00' then ['\\', '0']
  else if c = '\t' then ['\\', 't']
  else if c = '\n' then ['\\', 'n']
  else if c = '\r' then ['\\', 'r']
  else if c = '"' then ['\\', '"']
  else if c = '\\' then ['\\', '\\']
  else if isPrintable c then [c]
  else ['\\', 'u', '{'] ++ Nat.toDigits 16 c.toNat ++ ['}']

/-- The quoted form of `t`. -/
def quote (t : Text) : Text := '"' :: t.flatMap quoteChar ++ ['"']

end Text

end SchemaDoc
