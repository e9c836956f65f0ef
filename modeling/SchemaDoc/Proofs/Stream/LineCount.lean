import SchemaDoc.Proofs.Line.Code
import SchemaDoc.Proofs.Stream.Lines

/-!
# How many lines there are

Neither a line that is read nor one that is written holds a line feed inside. So the lines of an
output are as many as its line feeds, `Run.count_newline_written`, and the lines of an input as many
as its line feeds, with one more if bytes stand behind the last of them: `length_splitLines`. The
totals of a run count the lines, and the comments that are moved, of what becomes of its input:
`Stats.total_eq`.
-/

namespace SchemaDoc

/-! ### Lines without a line feed inside -/

namespace Line

variable {s : Scope}

/-- Lines come out as lines. -/
theorem newline_notMem_recastAll (s : Scope) {lines : List Text}
    (h : ∀ line ∈ lines, '\n' ∉ line) : ∀ l ∈ Recast.output (recastAll s lines), '\n' ∉ l := by
  induction lines generalizing s with
  | nil => simp
  | cons line lines ih =>
    simp only [List.mem_cons, forall_eq_or_imp] at h
    simp only [recastAll_cons, Recast.output_cons, List.mem_append]
    rintro l (hl | hl) hnewline
    · exact h.1 (by simpa [Markers.structWord] using recast_subset s hl hnewline)
    · exact ih _ h.2 l hl hnewline

/-- A line that is read has no line feed. -/
theorem newline_notMem_ofBytes {bs raw : Bytes} (h : raw ∈ splitLines bs) :
    '\n' ∉ ofBytes raw := by
  have hbody {l : Bytes} (hl : newline ∉ l) : '\n' ∉ body l := by
    intro hmem
    refine hl ?_
    have hdecode := (Utf8.mem_decode_ascii_iff newline_lt).mp hmem
    split at hdecode
    · exact List.mem_of_mem_dropLast hdecode
    · exact hdecode
  induction bs using Bytes.line_induction with
  | nil => cases h
  | last l hne hl =>
    rw [splitLines_of_notMem hl hne, List.mem_singleton] at h
    rw [h, ofBytes_of_notMem hl]
    exact hbody hl
  | line l rest hl ih =>
    rw [splitLines_append_newline hl, List.mem_cons] at h
    rcases h with rfl | h
    · rw [ofBytes_append_newline]
      exact hbody hl
    · exact ih h

end Line

/-! ### Counting line feeds -/

theorem count_newline_encode_unlines {lines : List Text} (h : ∀ line ∈ lines, '\n' ∉ line) :
    (Utf8.encode (Text.unlines lines)).count newline = lines.length := by
  induction lines with
  | nil => rfl
  | cons line lines ih =>
    obtain ⟨hline, hlines⟩ := List.forall_mem_cons.mp h
    have hnone : (Utf8.encode line).count newline = 0 :=
      List.count_eq_zero.mpr fun hmem => hline ((Utf8.mem_encode_ascii_iff newline_lt).mp hmem)
    rw [Text.unlines_cons, Utf8.encode_append, Utf8.encode_newline_cons, List.count_append,
      List.count_cons_self, hnone, ih hlines, Nat.zero_add, List.length_cons]

/-- Whether there are bytes behind the last line feed. -/
def Bytes.unterminated (bs : Bytes) : Bool := bs.getLast?.any (· != newline)

/-- **The lines that are read** are as many as the line feeds, and one more if bytes stand behind
the last of these. -/
theorem length_splitLines (bs : Bytes) :
    (splitLines bs).length = bs.count newline + if Bytes.unterminated bs then 1 else 0 := by
  induction bs using Bytes.line_induction with
  | nil => rfl
  | last l hne hl =>
    have hlast : Bytes.unterminated l = true := by
      have hne' : l.getLast hne ≠ newline := fun heq => hl (heq ▸ List.getLast_mem hne)
      simpa [Bytes.unterminated, List.getLast?_eq_some_getLast hne] using hne'
    rw [splitLines_of_notMem hl hne, List.count_eq_zero.mpr hl, if_pos hlast, List.length_singleton]
  | line l rest hl ih =>
    have hlast : Bytes.unterminated (l ++ newline :: rest) = Bytes.unterminated rest := by
      cases rest with
      | nil => simp [Bytes.unterminated]
      | cons b rest =>
        rw [Bytes.unterminated, List.getLast?_append_cons, List.getLast?_cons_cons,
          Bytes.unterminated]
    rw [splitLines_append_newline hl, List.length_cons, ih, hlast, List.count_append,
      List.count_cons_self, List.count_eq_zero.mpr hl]
    omega

/-- The totals count the lines, the lines that come of them and the comments that are moved. -/
theorem Stats.total_eq (stats : Stats) (rs : List Recast) (s : Scope) :
    stats.total rs s =
      { linesRead := stats.linesRead + rs.length
        linesWritten := stats.linesWritten + (Recast.output rs).length
        hoistedComments := stats.hoistedComments + rs.countP (·.hoisted.isSome)
        endedInsideEnum := s.isInside } := by
  induction rs generalizing stats with
  | nil => rfl
  | cons r rs ih =>
    have hcons : stats.total (r :: rs) s = (stats.addLine r).total rs s := rfl
    rw [hcons, ih, Recast.output_cons, List.length_append, Recast.length_lines, List.length_cons,
      List.countP_cons]
    simp only [addLine, mk.injEq, and_true]
    omega

namespace Run

/-- The lines that come out of a run over `content`. -/
def outputLines (content : Bytes) : List Text :=
  Recast.output (Line.recastAll .outside ((splitLines content).map Line.ofBytes))

/-- **The lines that are written** are as many as the line feeds written. -/
theorem count_newline_written (content : Bytes) :
    (ofBytes content).written.count newline = (outputLines content).length := by
  rw [ofBytes_written]
  refine count_newline_encode_unlines (Line.newline_notMem_recastAll .outside fun line hline => ?_)
  obtain ⟨raw, hraw, rfl⟩ := List.mem_map.mp hline
  exact Line.newline_notMem_ofBytes hraw

end Run

end SchemaDoc
