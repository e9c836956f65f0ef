import SchemaDoc.Proofs.Schema.Translation
import SchemaDoc.Proofs.Stream.Shape
import SchemaDoc.Sample.Schema
import SchemaDoc.Stream.Driver

/-!
# Translation of the sample schemas

A sample schema of any size is recast block by block. Each block starts outside of any enum and
leaves the scope so, `becomes_block`, whatever its number: a numeral makes a name of any word that
it is put into, because no keyword has a digit (`Identifier.numbered`). The lines of a block are
those of a canonical schema but for one field with two words before its name.

`schema_recast` gives the output and the totals of a run over the whole schema. They are read off
the lines that go in and come out, `Line.Becomes.ofBytes_eq`.
-/

namespace SchemaDoc

instance (line : Text) : Decidable (Line.Printed line) :=
  decidable_of_iff ('\n' ∉ line ∧ line.getLast? ≠ some '\r')
    ⟨fun h => ⟨h.1, h.2⟩, fun h => ⟨h.newline_notMem, h.getLast?_ne⟩⟩

/-- **A run over lines** of which is known what they become: its output, and its totals. -/
theorem Line.Becomes.ofBytes_eq {source target : List Text} {next : Scope}
    (h : Becomes .outside source target next) :
    (Run.ofBytes (Utf8.encode (Text.unlines source))).written =
      Utf8.encode (Text.unlines target) ∧
    (Run.ofBytes (Utf8.encode (Text.unlines source))).result =
      .ok { linesRead := source.length
            linesWritten := target.length
            hoistedComments := target.length - source.length
            endedInsideEnum := next.isInside } := by
  have hlines := map_ofBytes_splitLines_unlines h.printed
  have hlength := Recast.length_output (recastAll .outside source)
  rw [h.output, length_recastAll] at hlength
  have hhoisted : (recastAll .outside source).countP (·.hoisted.isSome) =
      target.length - source.length := by omega
  refine ⟨by rw [Run.ofBytes_written, hlines, h.output], ?_⟩
  have hresult : (Run.ofBytes (Utf8.encode (Text.unlines source))).result = _ :=
    Run.ofLines_result rfl rfl (splitLines _)
  rw [hresult, hlines, Stats.total_eq, h.output, h.scope, length_recastAll, hhoisted]
  simp

/-! ### Names with a numeral -/

theorem Text.isDigit_of_mem_ofNat {i : Nat} {c : Char} (h : c ∈ Text.ofNat i) :
    c.isDigit = true :=
  Nat.isDigit_of_mem_toDigits (by decide) (by decide) h

theorem Text.notMem_ofNat (i : Nat) {c : Char} (hc : c.isDigit = false) : c ∉ Text.ofNat i := by
  intro hmem
  simp [Text.isDigit_of_mem_ofNat hmem] at hc

/-- A text with a numeral in it is none that has no digit. -/
theorem Text.append_ofNat_ne (stem tail : Text) (i : Nat) {key : Text}
    (hkey : key.any Char.isDigit = false) : stem ++ Text.ofNat i ++ tail ≠ key := by
  rintro rfl
  obtain ⟨c, hc⟩ := List.exists_mem_of_ne_nil (Text.ofNat i) Nat.toDigits_ne_nil
  have hnot := List.any_eq_false.mp hkey c (by simp [hc])
  exact hnot (Text.isDigit_of_mem_ofNat hc)

namespace Schema

/-- A name with a numeral in it. It is no keyword, because no keyword has a digit. -/
def Identifier.numbered (stem tail : Text) (i : Nat)
    (hstem : stem.all Text.isWordChar = true) (htail : tail.all Text.isWordChar = true) :
    Identifier where
  text := stem ++ Text.ofNat i ++ tail
  isWord :=
    { ne_nil := by simp [Text.ofNat, Nat.toDigits_ne_nil]
      isWordChar_of_mem := by
        intro c hc
        simp only [List.mem_append] at hc
        obtain (hc | hc) | hc := hc
        · exact List.all_eq_true.mp hstem c hc
        · simp [Text.isWordChar, Char.isAlphanum, Text.isDigit_of_mem_ofNat hc]
        · exact List.all_eq_true.mp htail c hc }
  ne_enumWord := Text.append_ofNat_ne stem tail i (by decide)
  ne_messageWord := Text.append_ofNat_ne stem tail i (by decide)

theorem Identifier.numbered_text_append {stem tail : Text} {i : Nat}
    {hstem : stem.all Text.isWordChar = true} {htail : tail.all Text.isWordChar = true}
    (rest : Text) :
    (numbered stem tail i hstem htail).text ++ rest =
      stem ++ (Text.ofNat i ++ (tail ++ rest)) := by
  rw [numbered, List.append_assoc, List.append_assoc]

end Schema

/-! ### The blocks of a sample schema -/

namespace Sample

open Line (Becomes)
open Schema (Identifier Item Member Note Numeral)

/-- The lines that come of the block with number `i`. -/
def recastBlock (i : Nat) : List Text :=
  let n := Text.ofNat i
  ["/// Message number ".toList ++ n ++ ['.'],
    "struct Message".toList ++ n ++ [' ', '{'],
    " /// primary key".toList,
    "  int64 id = 1;".toList,
    "  string name = 2;".toList,
    " /// samples".toList,
    "  repeated double values = 3;".toList,
    "  State".toList ++ n ++ " state = 4;".toList,
    ['}', ';'],
    [],
    "enum State".toList ++ n ++ [' ', '{'],
    "  STATE".toList ++ n ++ "_UNKNOWN = 0,".toList,
    " /// in use".toList,
    "  STATE".toList ++ n ++ "_ACTIVE = 1,".toList,
    "  STATE".toList ++ n ++ "_RETIRED = 2,".toList,
    ['}'],
    []]

/-- The lines above the first block stay as they are. -/
theorem becomes_header : Becomes .outside header header .outside :=
  ⟨by decide, by decide, by decide⟩

/-- The fields of a message that do not depend on its number. -/
theorem becomes_fields :
    Becomes .outside ["  int64 id = 1; // primary key".toList, "  string name = 2;".toList,
        "  repeated double values = 3; // samples".toList]
      [" /// primary key".toList, "  int64 id = 1;".toList, "  string name = 2;".toList,
        " /// samples".toList, "  repeated double values = 3;".toList] .outside :=
  ⟨by decide, by decide, by decide⟩

/-- The comment above the message with number `i`. -/
def comment (i : Nat) : Note where
  text := " Message number ".toList ++ Text.ofNat i ++ ['.']
  newline_notMem := by simpa using Text.notMem_ofNat i (by decide)
  return_notMem := by simpa using Text.notMem_ofNat i (by decide)
  brace_notMem := by simpa using Text.notMem_ofNat i (by decide)

/-- The name of the message with number `i`. -/
def messageName (i : Nat) : Identifier := .numbered "Message".toList [] i (by decide) (by decide)

/-- The name of the enum with number `i`. -/
def enumName (i : Nat) : Identifier := .numbered "State".toList [] i (by decide) (by decide)

/-- The name of a value of the enum with number `i`. -/
def valueName (i : Nat) (tail : Text) (h : tail.all Text.isWordChar = true) : Identifier :=
  .numbered "STATE".toList tail i (by decide) h

/-- The field of the message with number `i` that has the enum for its type. -/
def stateField (i : Nat) : Item :=
  .field 2 (enumName i) ⟨"state".toList, by decide, by decide, by decide⟩
    ⟨['4'], by decide, by simp⟩ none

/-- The enum with number `i`. -/
def enumeration (i : Nat) : Item :=
  .enumeration 0 (enumName i)
    [.value 2 (valueName i "_UNKNOWN".toList (by decide)) ⟨['0'], by decide, by simp⟩ none,
      .value 2 (valueName i "_ACTIVE".toList (by decide)) ⟨['1'], by decide, by simp⟩
        (some ⟨" in use".toList, by decide, by decide, by decide⟩),
      .value 2 (valueName i "_RETIRED".toList (by decide)) ⟨['2'], by decide, by simp⟩ none] 0

/-- **One block** is recast, and leaves the scope outside of any enum. -/
theorem becomes_block (i : Nat) : Becomes .outside (block i) (recastBlock i) .outside := by
  have hmessage := Becomes.block (Schema.becomes_message 0 (messageName i))
    (becomes_fields.append (stateField i).becomes) (Schema.becomes_brace_outside 0)
  have hblock := (Item.becomes (.comment 0 (comment i))).append
    (hmessage.append (Item.becomes_all [.blank 0, enumeration i, .blank 0]))
  -- the names come apart, so that the numeral stands in each line where it stands in the block
  simp only [Item.source, Item.target, Item.sources, Item.targets, Member.source, Member.target,
    stateField, enumeration, messageName, enumName, valueName, Schema.opening, Schema.assignment,
    Schema.statement, Schema.documented, Identifier.numbered_text_append, List.append_assoc,
    List.map_cons, List.map_nil, List.flatMap_cons, List.flatMap_nil] at hblock
  exact hblock

/-- **All blocks**, one after the other. -/
theorem becomes_blocks (n : Nat) :
    Becomes .outside ((List.range n).flatMap block) ((List.range n).flatMap recastBlock)
      .outside := by
  induction n with
  | zero => exact .nil .outside
  | succ n ih =>
    simp only [List.range_succ, List.flatMap_append, List.flatMap_singleton]
    exact ih.append (becomes_block n)

/-- Blocks of so many lines each. -/
theorem length_flatMap_range {k : Nat} {lines : Nat → List Text} (h : ∀ i, (lines i).length = k)
    (n : Nat) : ((List.range n).flatMap lines).length = k * n := by
  simp [List.length_flatMap, h, Nat.mul_comm]

/-- **Sample schemas of any size.** A run over the schema with `n` blocks leaves its header as it is
and recasts the blocks with the numbers below `n`, each to its lines. It reads 4 lines and 14 for
each block, writes 3 more for each, as many as it moves comments, and does not end in an enum. -/
theorem schema_recast {σ : Type} (d : Driver σ) (n : Nat) :
    let run := (d.run { content := Utf8.encode (schema n) } {}).1
    let output := Text.unlines (header ++ (List.range n).flatMap recastBlock)
    run.written = Utf8.encode output ∧
    run.result =
      .ok { linesRead := 4 + 14 * n
            linesWritten := 4 + 17 * n
            hoistedComments := 3 * n
            endedInsideEnum := false } ∧
    Run.transform (schema n) = output := by
  intro run output
  have hbecomes := becomes_header.append (becomes_blocks n)
  obtain ⟨hwritten, hresult⟩ := hbecomes.ofBytes_eq
  have hread : (header ++ (List.range n).flatMap block).length = 4 + 14 * n := by
    rw [List.length_append, length_flatMap_range (k := 14) fun _ => rfl]
    rfl
  have hlines : (header ++ (List.range n).flatMap recastBlock).length = 4 + 17 * n := by
    rw [List.length_append, length_flatMap_range (k := 17) fun _ => rfl]
    rfl
  have hmoved : 4 + 17 * n - (4 + 14 * n) = 3 * n := by omega
  rw [hread, hlines, hmoved] at hresult
  refine ⟨hwritten, hresult, ?_⟩
  exact (Run.transform_unlines hbecomes.printed).trans (by rw [hbecomes.output])

end Sample

end SchemaDoc
