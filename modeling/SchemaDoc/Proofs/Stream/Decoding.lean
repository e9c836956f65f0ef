import SchemaDoc.Proofs.Stream.Lines

/-!
# Decoding line by line and all at once

A run decodes its input line by line. Whether the input is decoded before, as a whole, makes no
difference to anything that a run does, also where the input is no UTF-8: replacement characters
never reach across a line feed, and no carriage return before a line feed comes or goes. This is
`ofSource_encode_decode`.
-/

namespace SchemaDoc

/-- The text of a line does not change when its bytes are replaced by those of their decoding. -/
theorem Line.body_encode_decode (l : Bytes) :
    Line.body (Utf8.encode (Utf8.decode l)) = Line.body l := by
  by_cases h : l.getLast? = some carriageReturn
  · obtain ⟨front, rfl⟩ := List.getLast?_eq_some_iff.mp h
    have hencode : Utf8.encode (Utf8.decode (front ++ [carriageReturn])) =
        Utf8.encode (Utf8.decode front) ++ [carriageReturn] := by
      rw [Utf8.decode_append_ascii carriageReturn_lt, Utf8.encode_append, Utf8.decode_nil]
      rfl
    rw [hencode, Line.body_append_carriageReturn, Line.body_append_carriageReturn,
      Utf8.decode_encode]
  · have h' : (Utf8.encode (Utf8.decode l)).getLast? ≠ some carriageReturn := by
      rw [Ne, Utf8.getLast?_encode_eq_some_ascii_iff carriageReturn_lt,
        Utf8.getLast?_decode_eq_some_ascii_iff carriageReturn_lt]
      exact h
    rw [Line.body_of_getLast?_ne h, Line.body_of_getLast?_ne h', Utf8.decode_encode]

/-- A line feed comes out of decoding where one went in. -/
theorem newline_mem_encode_decode_iff {bs : Bytes} :
    newline ∈ Utf8.encode (Utf8.decode bs) ↔ newline ∈ bs := by
  rw [Utf8.mem_encode_ascii_iff newline_lt, Utf8.mem_decode_ascii_iff newline_lt]

/-- **Decoding commutes with cutting into lines.** -/
theorem map_ofBytes_splitLines_encode_decode (bs : Bytes) :
    (splitLines (Utf8.encode (Utf8.decode bs))).map Line.ofBytes =
      (splitLines bs).map Line.ofBytes := by
  induction bs using Bytes.line_induction with
  | nil => rfl
  | last l hne hl =>
    have hl' : newline ∉ Utf8.encode (Utf8.decode l) := by rwa [newline_mem_encode_decode_iff]
    -- a last line without line feed is one only if it has bytes
    have hne' : Utf8.encode (Utf8.decode l) ≠ [] := by
      intro hnil
      have hdecode := congrArg Utf8.decode hnil
      rw [Utf8.decode_encode, Utf8.decode_nil, Utf8.decode_eq_nil_iff] at hdecode
      exact hne hdecode
    rw [splitLines_of_notMem hl hne, splitLines_of_notMem hl' hne', List.map_singleton,
      List.map_singleton, Line.ofBytes_of_notMem hl, Line.ofBytes_of_notMem hl',
      Line.body_encode_decode]
  | line l rest hl ih =>
    have hl' : newline ∉ Utf8.encode (Utf8.decode l) := by rwa [newline_mem_encode_decode_iff]
    have hencode : Utf8.encode (Utf8.decode (l ++ newline :: rest)) =
        Utf8.encode (Utf8.decode l) ++ newline :: Utf8.encode (Utf8.decode rest) := by
      rw [Utf8.decode_append_ascii newline_lt, Utf8.encode_append]
      rfl
    rw [hencode, splitLines_append_newline hl', splitLines_append_newline hl, List.map_cons,
      List.map_cons, Line.ofBytes_append_newline, Line.ofBytes_append_newline,
      Line.body_encode_decode, ih]

namespace Run

/-- **Decoding line by line agrees with decoding the whole input.** A run over any bytes and a run
over the encoding of their decoding are the same in every respect, whatever the sink: what is
written, what the observer is told of each line, the sink afterwards and the totals. Where the sink
does not fail there are totals, and what is written is the encoding of the text that the decoded
input is transformed to. -/
theorem ofSource_encode_decode (bs : Bytes) :
    (∀ sink : Sink, ofSource { content := Utf8.encode (Utf8.decode bs) } sink =
      ofSource { content := bs } sink) ∧
    (∃ stats, (ofBytes bs).result = .ok stats) ∧
    (ofBytes bs).written = Utf8.encode (transform (Utf8.decode bs)) := by
  have hrun (sink : Sink) : ofSource { content := Utf8.encode (Utf8.decode bs) } sink =
      ofSource { content := bs } sink := by
    have hlines : ofLines sink .outside {} none (splitLines (Utf8.encode (Utf8.decode bs))) =
        ofLines sink .outside {} none (splitLines bs) :=
      ofLines_congr (map_ofBytes_splitLines_encode_decode bs)
    exact congrArg (fun run => { run with events := .started :: run.events }) hlines
  have hbytes : ofBytes (Utf8.encode (Utf8.decode bs)) = ofBytes bs := hrun {}
  refine ⟨hrun, ⟨_, ofLines_result rfl rfl _⟩, ?_⟩
  rw [transform, hbytes, encode_decode_written]

end Run

end SchemaDoc
