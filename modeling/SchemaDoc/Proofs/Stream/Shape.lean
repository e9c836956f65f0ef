import SchemaDoc.Proofs.Line.Braces

/-!
# The shape of an output

Whatever bytes a run reads, what it writes is well-formed UTF-8 in complete lines, and its totals
count what was read and written. There is one line for each line of the input, and one more for each
line with a comment behind a terminator (`Line.Annotated`), whatever the scope in which the line
stands: `Line.isSome_hoisted_recast`. `Run.ofSource_shape` says this of every run that comes to its
end.
-/

namespace SchemaDoc

/-! ### Lines that become two -/

namespace Line

variable {line : Text}

/-- The first terminator of the line stands before its first comment, and there are both. -/
def Annotated (line : Text) : Prop :=
  ∃ u v, line = u ++ ';' :: v ∧ ';' ∉ u ∧ ¬ Markers.commentOpen <:+: u ∧ Markers.commentOpen <:+: v

/-- Such a line has a comment, and a terminator in its code. -/
theorem annotated_iff : Annotated line ↔ Markers.commentOpen <:+: line ∧ ';' ∈ code line := by
  constructor
  · rintro ⟨u, v, rfl, -, hu, hv⟩
    refine ⟨hv.trans ⟨u ++ [';'], [], by simp⟩, ?_⟩
    rw [code_append_cons hu (by decide)]
    simp
  · rintro ⟨hopens, hmem⟩
    obtain ⟨-, -, hnot⟩ | ⟨head, tail, -, hcode, rfl, hhead⟩ := code_cases line
    · exact absurd hopens hnot
    · rw [hcode] at hmem
      obtain ⟨u, gap, rfl, hu⟩ := List.eq_append_cons_of_mem hmem
      have hu' : ¬ Markers.commentOpen <:+: u := fun hopen =>
        hhead (hopen.trans (List.prefix_append _ _).isInfix)
      exact ⟨u, gap ++ '/' :: '/' :: tail, by simp, hu, hu', gap, tail,
        by simp [Markers.commentOpen]⟩

instance (line : Text) : Decidable (Annotated line) := decidable_of_iff' _ annotated_iff

/-- **One line**: its comment moves to a line of its own if a terminator stands before it. -/
theorem isSome_hoisted_recast (s : Scope) (line : Text) :
    (recast s line).1.hoisted.isSome = decide (Annotated line) := by
  obtain h | ⟨u, note, h, hu⟩ | ⟨u, gap, note, h, hu⟩ := parts_cases line
  · rw [recast_of_uncommented s h]
    simp [annotated_iff, h]
  · rw [recast_of_terminator_notMem s h hu]
    simp [annotated_iff, code_of_cut? h, hu]
  · have hopens : Markers.commentOpen <:+: line := by
      rw [Text.eq_append_of_cut? h]
      exact ⟨_, note, rfl⟩
    rw [recast_of_terminator_mem s h hu]
    simp [annotated_iff, code_of_cut? h, hopens]

/-- **All lines**: as many comments are moved as there are such lines. -/
theorem countP_hoisted_recastAll (s : Scope) (lines : List Text) :
    (recastAll s lines).countP (·.hoisted.isSome) = lines.countP fun line => Annotated line := by
  induction lines generalizing s with
  | nil => rfl
  | cons line lines ih =>
    rw [recastAll_cons, List.countP_cons, List.countP_cons, ih, isSome_hoisted_recast]

end Line

/-- One line goes out for each line, and one more for each comment that is moved. -/
theorem Recast.length_output (rs : List Recast) :
    (Recast.output rs).length = rs.length + rs.countP (·.hoisted.isSome) := by
  induction rs with
  | nil => rfl
  | cons r rs ih =>
    rw [Recast.output_cons, List.length_append, Recast.length_lines, Recast.lineCount, ih,
      List.length_cons, List.countP_cons]
    split <;> omega

/-! ### Complete lines -/

theorem Text.getLast?_unlines {lines : List Text} (h : lines ≠ []) :
    (Text.unlines lines).getLast? = some '\n' := by
  obtain ⟨front, last, rfl⟩ := (List.eq_nil_or_concat lines).resolve_left h
  simp [Text.unlines_append, Text.unlines_cons]

theorem Bytes.unterminated_iff {bs : Bytes} :
    Bytes.unterminated bs = true ↔ bs ≠ [] ∧ bs.getLast? ≠ some newline := by
  cases bs using List.reverseRecOn with
  | nil => simp [Bytes.unterminated]
  | append_singleton front b => simp [Bytes.unterminated]

namespace Run

/-- What comes of an input that has bytes ends in a line feed. -/
theorem getLast?_written {bs : Bytes} (h : bs ≠ []) :
    (ofBytes bs).written.getLast? = some newline := by
  rw [ofBytes_written, Utf8.getLast?_encode_eq_some_ascii_iff newline_lt]
  refine Text.getLast?_unlines fun hnil => h ?_
  have hlength := congrArg List.length hnil
  rw [Recast.length_output, Line.length_recastAll, List.length_map, List.length_nil] at hlength
  have hlines : splitLines bs = [] := List.eq_nil_of_length_eq_zero (by omega)
  rw [← flatten_splitLines bs, hlines, List.flatten_nil]

/-- What holds of the bytes `written` and the totals `stats` of a run over `bs`. -/
structure Shape (bs written : Bytes) (stats : Stats) : Prop where
  /-- The output is the UTF-8 form of a text. -/
  isText : ∃ t, written = Utf8.encode t
  /-- There is an output where there is an input. -/
  eq_nil_iff : written = [] ↔ bs = []
  /-- The last line of the output is complete. -/
  isTerminated : bs ≠ [] → written.getLast? = some newline
  /-- The lines read are as many as the line feeds of the input, and one more if it ends without
  one. -/
  linesRead_eq : stats.linesRead =
    bs.count newline + if bs ≠ [] ∧ bs.getLast? ≠ some newline then 1 else 0
  /-- The lines written are as many as the line feeds of the output. -/
  linesWritten_eq : stats.linesWritten = written.count newline
  /-- They are those that were read and the comments that were moved. -/
  linesWritten_eq_add : stats.linesWritten = stats.linesRead + stats.hoistedComments
  /-- The comments that were moved are those behind a terminator. -/
  hoistedComments_eq : stats.hoistedComments =
    ((splitLines bs).map Line.ofBytes).countP fun line => Line.Annotated line
  /-- A run from text to text comes out with these bytes. -/
  encode_transform : ∀ t, Utf8.encode t = bs → Utf8.encode (transform t) = written

/-- **The shape of an output.** Where the sink never refuses anything, a run over any bytes comes to
its end. Whatever the sink, a run that comes to its end has written well-formed UTF-8 in complete
lines, and its totals are what can be counted in its input and output. -/
theorem ofSource_shape (bs : Bytes) :
    (∀ sink : Sink, sink.limit = none → sink.flushing = .succeeds →
      ∃ stats, (ofSource { content := bs } sink).result = .ok stats) ∧
    ∀ (sink : Sink) (stats : Stats), (ofSource { content := bs } sink).result = .ok stats →
      Shape bs (ofSource { content := bs } sink).written stats := by
  refine ⟨fun sink hlimit hflush => ⟨_, ofLines_result hlimit hflush _⟩, fun sink stats h => ?_⟩
  have hwritten : (ofSource { content := bs } sink).written = (ofBytes bs).written :=
    (ofLines_written_eq h).trans (ofLines_written rfl _).symm
  have hstats : stats = Stats.total {} (Line.recastAll .outside ((splitLines bs).map Line.ofBytes))
      (Scope.outside.after ((splitLines bs).map Line.ofBytes)) := ofLines_result_eq h
  rw [Stats.total_eq] at hstats
  have hread : stats.linesRead = (splitLines bs).length := by simp [hstats, Line.length_recastAll]
  have hlines : stats.linesWritten = (outputLines bs).length := by simp [hstats, outputLines]
  have hhoisted : stats.hoistedComments =
      ((splitLines bs).map Line.ofBytes).countP fun line => Line.Annotated line := by
    simp [hstats, Line.countP_hoisted_recastAll]
  rw [hwritten]
  exact
    { isText := ⟨_, ofBytes_written bs⟩
      eq_nil_iff := by
        refine ⟨fun hnil => ?_, fun hnil => by rw [hnil]; rfl⟩
        by_contra hne
        simpa [hnil] using getLast?_written hne
      isTerminated := getLast?_written
      linesRead_eq := by
        simp only [hread, length_splitLines, Bytes.unterminated_iff]
      linesWritten_eq := by
        rw [hlines, count_newline_written]
      linesWritten_eq_add := by
        rw [hlines, hread, hhoisted, outputLines, Recast.length_output,
          Line.countP_hoisted_recastAll, Line.length_recastAll, List.length_map]
      hoistedComments_eq := hhoisted
      encode_transform := by
        rintro t rfl
        exact encode_decode_written _ }

/-- Bytes that are no UTF-8, a comment behind a terminator, one before it, an empty line, and a last
line that no line feed ends. -/
theorem ofSource_shape_of_four_lines :
    let bs := 0xC3 :: Utf8.encode "A; // x\n// y; // z\n\nB".toList
    ∃ stats, (ofBytes bs).result = .ok stats ∧ Shape bs (ofBytes bs).written stats ∧
      stats.linesRead = 4 ∧ stats.hoistedComments = 1 ∧ stats.linesWritten = 5 := by
  intro bs
  obtain ⟨hends, hshape⟩ := ofSource_shape bs
  obtain ⟨stats, hstats⟩ := hends {} rfl rfl
  have hbs := hshape {} stats hstats
  have hread : stats.linesRead = 4 := hbs.linesRead_eq.trans (by decide)
  have hhoisted : stats.hoistedComments = 1 := hbs.hoistedComments_eq.trans (by decide)
  have hlines : stats.linesWritten = 5 := by rw [hbs.linesWritten_eq_add, hread, hhoisted]
  exact ⟨stats, hstats, hbs, hread, hhoisted, hlines⟩

end Run

end SchemaDoc
