import SchemaDoc.Text.Basic

/-!
# Sample schemas

A synthetic schema of any size, made of a header and one block of a message and an enum after the
other, and single lines for each way in which a line can be recast.
-/

namespace SchemaDoc

namespace Sample

/-- The lines above the first block. -/
def header : List Text :=
  ["syntax = \"proto3\";".toList, [], "package bench;".toList, []]

/-- The lines of the block with number `i`. -/
def block (i : Nat) : List Text :=
  let n := Text.ofNat i
  ["// Message number ".toList ++ n ++ ['.'],
    "message Message".toList ++ n ++ [' ', '{'],
    "  int64 id = 1; // primary key".toList,
    "  string name = 2;".toList,
    "  repeated double values = 3; // samples".toList,
    "  State".toList ++ n ++ " state = 4;".toList,
    ['}'],
    [],
    "enum State".toList ++ n ++ [' ', '{'],
    "  STATE".toList ++ n ++ "_UNKNOWN = 0;".toList,
    "  STATE".toList ++ n ++ "_ACTIVE = 1; // in use".toList,
    "  STATE".toList ++ n ++ "_RETIRED = 2;".toList,
    ['}'],
    []]

/-- The synthetic schema with `messages` blocks. -/
def schema (messages : Nat) : Text :=
  (header ++ (List.range messages).flatMap block).flatMap fun line => line ++ ['\n']

/-- One line for each way of recasting. -/
def lines : List Text :=
  ["  optional int32 plain = 1".toList,
    "// leading comment".toList,
    "message Sample ".toList ++ ['{'],
    "  int64 id = 1; // primary key".toList,
    "  ACTIVE = 1;".toList,
    ['}']]

end Sample

end SchemaDoc
