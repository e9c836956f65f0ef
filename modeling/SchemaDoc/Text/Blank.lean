import SchemaDoc.Text.Basic

/-!
# Blank characters

A character is blank when Unicode gives it the property `White_Space`. `Text.trim` takes the blank
characters off both ends of a text.
-/

namespace SchemaDoc

namespace Text

/-- Whether `c` has the property `White_Space`. -/
def isBlank (c : Char) : Bool :=
  let n := c.toNat
  (0x9 ≤ n && n ≤ 0xD) || n == 0x20 || n == 0x85 || n == 0xA0 || n == 0x1680 ||
    (0x2000 ≤ n && n ≤ 0x200A) || n == 0x2028 || n == 0x2029 || n == 0x202F || n == 0x205F ||
    n == 0x3000

/-- `t` without the blank characters at its two ends. -/
def trim (t : Text) : Text := ((t.dropWhile isBlank).reverse.dropWhile isBlank).reverse

end Text

end SchemaDoc
