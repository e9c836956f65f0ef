import SchemaDoc.Proofs.Stream.Run
import SchemaDoc.Proofs.Text.Utf8

/-!
# Lines of bytes and lines of text

A byte string is a sequence of lines, each ended by a line feed, and perhaps a last one that is not:
`Bytes.line_induction` reasons along it, and `splitLines` cuts at exactly these places. The text of
a line is `Line.body` of what stands before its line feed, whether or not it has one.

Text written out as lines and read again gives these lines back (`map_ofBytes_splitLines_unlines`),
so that a run from text to text is the recasting of its lines, `transform_unlines`.
-/

namespace SchemaDoc

theorem newline_lt : newline < 0x80 := by decide

theorem carriageReturn_lt : carriageReturn < 0x80 := by decide

/-! ### Cutting bytes into lines -/

theorem splitLines_of_notMem {l : Bytes} (h : newline ∉ l) (hne : l ≠ []) : splitLines l = [l] := by
  induction l with
  | nil => exact absurd rfl hne
  | cons b l ih =>
    simp only [List.mem_cons, not_or] at h
    rw [splitLines_cons, if_neg (Ne.symm h.1)]
    cases l with
    | nil => rfl
    | cons c l => rw [ih h.2 (by simp)]

theorem splitLines_append_newline {l : Bytes} (h : newline ∉ l) (rest : Bytes) :
    splitLines (l ++ newline :: rest) = (l ++ [newline]) :: splitLines rest := by
  induction l with
  | nil => rw [List.nil_append, splitLines_cons, if_pos rfl, List.nil_append]
  | cons b l ih =>
    simp only [List.mem_cons, not_or] at h
    rw [List.cons_append, splitLines_cons, if_neg (Ne.symm h.1), ih h.2]
    rfl

/-- Behind nothing, or behind the end of a line, lines start anew. -/
theorem splitLines_append_of_getLast? {front : Bytes}
    (hfront : front = [] ∨ front.getLast? = some newline) (rest : Bytes) :
    splitLines (front ++ rest) = splitLines front ++ splitLines rest := by
  obtain rfl | hnewline := hfront
  · rfl
  · obtain ⟨lines, rfl⟩ := List.getLast?_eq_some_iff.mp hnewline
    rw [List.append_assoc, List.singleton_append, splitLines_append]

/-- Induction along the lines of a byte string. -/
theorem Bytes.line_induction {P : Bytes → Prop} (nil : P [])
    (last : ∀ l, l ≠ [] → newline ∉ l → P l)
    (line : ∀ l rest, newline ∉ l → P rest → P (l ++ newline :: rest)) (bs : Bytes) : P bs := by
  induction hlen : bs.length using Nat.strongRecOn generalizing bs with
  | _ n ih =>
    subst hlen
    by_cases hmem : newline ∈ bs
    · obtain ⟨l, rest, rfl, hl⟩ := List.eq_append_cons_of_mem hmem
      exact line l rest hl (ih rest.length (by simp; omega) rest rfl)
    · rcases eq_or_ne bs [] with rfl | hne
      · exact nil
      · exact last bs hne hmem

/-! ### The text of a line -/

/-- The text of a line whose bytes before the line feed are `l`. -/
def Line.body (l : Bytes) : Text :=
  Utf8.decode (if l.getLast? = some carriageReturn then l.dropLast else l)

theorem Line.ofBytes_append_newline (l : Bytes) : Line.ofBytes (l ++ [newline]) = Line.body l := by
  simp [Line.ofBytes, Line.body]

theorem Line.ofBytes_of_notMem {l : Bytes} (h : newline ∉ l) : Line.ofBytes l = Line.body l := by
  have hlast : l.getLast? ≠ some newline := fun hlast => h (List.mem_of_getLast? hlast)
  simp [Line.ofBytes, Line.body, hlast]

/-- A carriage return before the line feed does not belong to the line. -/
theorem Line.body_append_carriageReturn (l : Bytes) :
    Line.body (l ++ [carriageReturn]) = Utf8.decode l := by
  simp [Line.body]

theorem Line.body_of_getLast?_ne {l : Bytes} (h : l.getLast? ≠ some carriageReturn) :
    Line.body l = Utf8.decode l := by
  rw [Line.body, if_neg h]

/-! ### Text written out as lines -/

/-- The text of `lines`, each ended by a line feed. -/
def Text.unlines (lines : List Text) : Text := lines.flatMap fun line => line ++ ['\n']

@[simp]
theorem Text.unlines_nil : Text.unlines [] = [] := rfl

@[simp]
theorem Text.unlines_cons (line : Text) (lines : List Text) :
    Text.unlines (line :: lines) = line ++ '\n' :: Text.unlines lines := by
  simp [Text.unlines]

@[simp]
theorem Text.unlines_append (lines others : List Text) :
    Text.unlines (lines ++ others) = Text.unlines lines ++ Text.unlines others := by
  simp [Text.unlines]

theorem Utf8.encode_newline_cons (t : Text) :
    Utf8.encode ('\n' :: t) = newline :: Utf8.encode t := rfl

/-- The lines of a text: some that a line feed ends, and what stands behind the last of these. -/
theorem Text.exists_unlines (t : Text) :
    ∃ lines last, t = Text.unlines lines ++ last ∧ (∀ l ∈ lines, '\n' ∉ l) ∧ '\n' ∉ last := by
  induction t with
  | nil => exact ⟨[], [], rfl, by simp, by simp⟩
  | cons c t ih =>
    obtain ⟨lines, last, rfl, hlines, hlast⟩ := ih
    by_cases hc : c = '\n'
    · exact ⟨[] :: lines, last, by simp [hc], by simpa using hlines, hlast⟩
    · cases lines with
      | nil => exact ⟨[], c :: last, rfl, by simp, by simpa [Ne.symm hc] using hlast⟩
      | cons line lines =>
        refine ⟨(c :: line) :: lines, last, by simp, ?_, hlast⟩
        simp_all [Ne.symm hc]

theorem Text.splitOn_unlines_append {lines : List Text} {last : Text}
    (h : ∀ l ∈ lines, '\n' ∉ l) (hlast : '\n' ∉ last) :
    (Text.unlines lines ++ last).splitOn '\n' = lines ++ [last] := by
  induction lines with
  | nil => exact List.splitOn_eq_singleton hlast
  | cons line lines ih =>
    simp only [List.mem_cons, forall_eq_or_imp] at h
    rw [Text.unlines_cons, List.append_assoc, List.cons_append,
      List.splitOn_append_cons_self_of_not_mem h.1, ih h.2, List.cons_append]

/-- A line without the carriage return that may stand at its end. -/
def Line.chomp (line : Text) : Text := if line.getLast? = some '\r' then line.dropLast else line

/-- The text of a line that was written as `line`. -/
theorem Line.body_encode (line : Text) : Line.body (Utf8.encode line) = Line.chomp line := by
  have hreturn := Utf8.getLast?_encode_eq_some_ascii_iff carriageReturn_lt (t := line)
  by_cases h : line.getLast? = some '\r'
  · obtain ⟨front, rfl⟩ := List.getLast?_eq_some_iff.mp h
    have hencode : Utf8.encode (front ++ ['\r']) = Utf8.encode front ++ [carriageReturn] := by
      rw [Utf8.encode_append]
      rfl
    rw [hencode, Line.body_append_carriageReturn, Utf8.decode_encode]
    simp [Line.chomp]
  · rw [Line.chomp, if_neg h, Line.body_of_getLast?_ne fun hlast => h (hreturn.mp hlast),
      Utf8.decode_encode]

/-- **The lines that are read from a text**, the last of them only if there is something in it. -/
theorem map_ofBytes_splitLines_unlines_append {lines : List Text} {last : Text}
    (h : ∀ l ∈ lines, '\n' ∉ l) (hlast : '\n' ∉ last) :
    (splitLines (Utf8.encode (Text.unlines lines ++ last))).map Line.ofBytes =
      lines.map Line.chomp ++ if last = [] then [] else [Line.chomp last] := by
  have hnewline {line : Text} (hline : '\n' ∉ line) : newline ∉ Utf8.encode line := fun hmem =>
    hline ((Utf8.mem_encode_ascii_iff newline_lt).mp hmem)
  induction lines with
  | nil =>
    split
    · next hnil => simp [hnil, splitLines]
    · next hne =>
      have hne' : Utf8.encode last ≠ [] := by
        intro hnil
        exact hne (by simpa [Utf8.decode_encode] using congrArg Utf8.decode hnil)
      rw [Text.unlines_nil, List.nil_append, splitLines_of_notMem (hnewline hlast) hne',
        List.map_singleton, Line.ofBytes_of_notMem (hnewline hlast), Line.body_encode]
      rfl
  | cons line lines ih =>
    simp only [List.mem_cons, forall_eq_or_imp] at h
    rw [Text.unlines_cons, List.append_assoc, List.cons_append, Utf8.encode_append,
      Utf8.encode_newline_cons, splitLines_append_newline (hnewline h.1), List.map_cons,
      Line.ofBytes_append_newline, Line.body_encode, ih h.2, List.map_cons, List.cons_append]

/-- A text that can be written as a line and read again. -/
structure Line.Printed (line : Text) : Prop where
  /-- It has no line feed. -/
  newline_notMem : '\n' ∉ line
  /-- It does not end in a carriage return. -/
  getLast?_ne : line.getLast? ≠ some '\r'

theorem Line.Printed.chomp_eq {line : Text} (h : Line.Printed line) : Line.chomp line = line := by
  rw [Line.chomp, if_neg h.getLast?_ne]

theorem map_ofBytes_splitLines_unlines {lines : List Text} (h : ∀ l ∈ lines, Line.Printed l) :
    (splitLines (Utf8.encode (Text.unlines lines))).map Line.ofBytes = lines := by
  have hchomp : lines.map Line.chomp = lines.map id :=
    List.map_congr_left fun l hl => (h l hl).chomp_eq
  have hlines := map_ofBytes_splitLines_unlines_append (fun l hl => (h l hl).newline_notMem)
    (List.not_mem_nil (a := '\n'))
  simpa [hchomp] using hlines

/-! ### Runs from text to text -/

/-- The lines that a run writes for the outcomes `rs`. -/
def Recast.output (rs : List Recast) : List Text := rs.flatMap Recast.lines

@[simp]
theorem Recast.output_nil : Recast.output [] = [] := rfl

@[simp]
theorem Recast.output_cons (r : Recast) (rs : List Recast) :
    Recast.output (r :: rs) = r.lines ++ Recast.output rs := by
  simp [Recast.output]

@[simp]
theorem Recast.output_append (rs qs : List Recast) :
    Recast.output (rs ++ qs) = Recast.output rs ++ Recast.output qs := by
  simp [Recast.output]

theorem Recast.bytes_eq_encode (r : Recast) : r.bytes = Utf8.encode (Text.unlines r.lines) := by
  rw [Recast.bytes]
  induction r.lines with
  | nil => rfl
  | cons line lines ih =>
    rw [List.flatMap_cons, ih, Text.unlines_cons, Utf8.encode_append, Utf8.encode_newline_cons,
      List.append_assoc, List.singleton_append]

/-- What outcomes are written as is the encoding of their lines. -/
theorem Recast.flatMap_bytes (rs : List Recast) :
    rs.flatMap Recast.bytes = Utf8.encode (Text.unlines (Recast.output rs)) := by
  induction rs with
  | nil => rfl
  | cons r rs ih =>
    rw [List.flatMap_cons, Recast.output_cons, Text.unlines_append, Utf8.encode_append,
      Recast.bytes_eq_encode, ih]

namespace Run

/-- **What a run writes is encoded text**: the output lines of its input's lines. -/
theorem ofBytes_written (bs : Bytes) :
    (ofBytes bs).written = Utf8.encode (Text.unlines (Recast.output
      (Line.recastAll .outside ((splitLines bs).map Line.ofBytes)))) := by
  rw [← Recast.flatMap_bytes]
  exact ofLines_written rfl _

/-- Decoding what a run has written loses nothing. -/
theorem encode_decode_written (bs : Bytes) :
    Utf8.encode (Utf8.decode (ofBytes bs).written) = (ofBytes bs).written := by
  rw [ofBytes_written, Utf8.decode_encode]

/-- **A run from text to text** recasts the lines of the text, each without a carriage return at its
end, and the last only if there is something in it. -/
theorem transform_eq (t : Text) :
    ∃ lines last, t.splitOn '\n' = lines ++ [last] ∧
      transform t = Text.unlines (Recast.output (Line.recastAll .outside
        (lines.map Line.chomp ++ if last = [] then [] else [Line.chomp last]))) ∧
      ∀ l ∈ lines ++ [last], '\n' ∉ l := by
  obtain ⟨lines, last, rfl, hlines, hlast⟩ := Text.exists_unlines t
  refine ⟨lines, last, Text.splitOn_unlines_append hlines hlast, ?_, ?_⟩
  · rw [transform, ofBytes_written, Utf8.decode_encode,
      map_ofBytes_splitLines_unlines_append hlines hlast]
  · simpa [or_imp, forall_and] using ⟨hlines, hlast⟩

/-- **A run from text to text** recasts the lines one after the other. -/
theorem transform_unlines {lines : List Text} (h : ∀ l ∈ lines, Line.Printed l) :
    transform (Text.unlines lines) =
      Text.unlines (Recast.output (Line.recastAll .outside lines)) := by
  rw [transform, ofBytes_written, Utf8.decode_encode, map_ofBytes_splitLines_unlines h]

end Run

end SchemaDoc
