import SchemaDoc.Proofs.Line.Simultaneous
import SchemaDoc.Proofs.Stream.Run
import Mathlib.Tactic.Tauto

/-!
# When the text stands in the body of an enum

One line takes the scope from `s` to the body of an enum exactly when it mentions `enum`, or `s` is
already the body of one, and it has no closing brace: `isInside_recast`. Over a sequence of lines
this adds up to a condition on the lines alone, `EnumOpen`: one of them mentions `enum` and no
closing brace stands in it or behind it. `isInside_after_iff_enumOpen` states it for the scope
behind the lines, for the scope in which the last of them is edited, with what this makes of its
punctuation, and for the totals of a run.
-/

namespace SchemaDoc

namespace Line

/-- A line **opens an enum** when it mentions the word. -/
def OpensEnum (line : Text) : Prop := Mentions Markers.enumWord line

theorem entersEnum_ofLine_iff {line : Text} :
    (Markers.ofLine line).entersEnum = true ↔ OpensEnum line :=
  any_beforeComment_iff Markers.isWord_enumWord

/-- The scope in which a line is edited. -/
theorem isInside_enter {s : Scope} {line : Text} :
    (s.enter (Markers.ofLine line)).isInside = true ↔ OpensEnum line ∨ s.isInside = true := by
  rw [← entersEnum_ofLine_iff, Scope.enter]
  split
  · next h => simp [h, Scope.isInside]
  · next h => simp [h]

/-- **One line**: it opens an enum or stands in one already, and does not close it. -/
theorem isInside_recast {s : Scope} {line : Text} :
    (recast s line).2.isInside = true ↔ (OpensEnum line ∨ s.isInside = true) ∧ '}' ∉ line := by
  rw [← isInside_enter, ← blockClose_ofLine_eq_none_iff]
  exact Scope.isInside_leave_iff

end Line

/-- One of the lines opens an enum, and no closing brace stands in it or behind it. -/
def EnumOpen (lines : List Text) : Prop :=
  ∃ earlier line later, lines = earlier ++ line :: later ∧ Line.OpensEnum line ∧
    ∀ l ∈ line :: later, '}' ∉ l

theorem not_enumOpen_nil : ¬ EnumOpen [] := by
  rintro ⟨earlier, line, later, h, -⟩
  simp at h

theorem enumOpen_cons_iff {line : Text} {lines : List Text} :
    EnumOpen (line :: lines) ↔
      (Line.OpensEnum line ∧ ∀ l ∈ line :: lines, '}' ∉ l) ∨ EnumOpen lines := by
  constructor
  · rintro ⟨earlier, opener, later, h, hopens, hclose⟩
    rcases List.cons_eq_append_iff.mp h with ⟨-, h⟩ | ⟨rest, -, h⟩
    · obtain ⟨rfl, rfl⟩ : opener = line ∧ later = lines := by simpa using h
      exact Or.inl ⟨hopens, hclose⟩
    · exact Or.inr ⟨rest, opener, later, h, hopens, hclose⟩
  · rintro (⟨hopens, hclose⟩ | ⟨earlier, opener, later, h, hopens, hclose⟩)
    · exact ⟨[], line, lines, rfl, hopens, hclose⟩
    · exact ⟨line :: earlier, opener, later, by rw [h, List.cons_append], hopens, hclose⟩

/-- **A run of lines**: an enum is opened in it and stays open, or was open and is not closed. -/
theorem Scope.isInside_after_iff {s : Scope} {lines : List Text} :
    (s.after lines).isInside = true ↔
      EnumOpen lines ∨ s.isInside = true ∧ ∀ l ∈ lines, '}' ∉ l := by
  induction lines generalizing s with
  | nil => simp [not_enumOpen_nil]
  | cons line lines ih =>
    rw [Scope.after_cons, ih, Line.isInside_recast, enumOpen_cons_iff, List.forall_mem_cons]
    tauto

/-- One of the lines opens an enum, and no closing brace stands in it or behind it before the last
line. -/
def EnumOpenAtLast (lines : List Text) : Prop :=
  ∃ earlier line later, lines = earlier ++ line :: later ∧ Line.OpensEnum line ∧
    ∀ l ∈ (line :: later).dropLast, '}' ∉ l

theorem enumOpenAtLast_append_singleton_iff {lines : List Text} {last : Text} :
    EnumOpenAtLast (lines ++ [last]) ↔ Line.OpensEnum last ∨ EnumOpen lines := by
  constructor
  · rintro ⟨earlier, line, later, h, hopens, hclose⟩
    -- the line that opens the enum is the last one, or stands before it
    rcases List.eq_nil_or_concat later with rfl | ⟨later, final, rfl⟩
    · obtain ⟨-, rfl⟩ : lines = earlier ∧ last = line := by simpa using h
      exact Or.inl hopens
    · have hsplit : earlier ++ line :: later.concat final =
          (earlier ++ line :: later) ++ [final] := by simp
      obtain ⟨rfl, -⟩ := List.append_inj' (h.trans hsplit) rfl
      refine Or.inr ⟨earlier, line, later, rfl, hopens, ?_⟩
      rwa [List.concat_eq_append, ← List.cons_append, List.dropLast_concat] at hclose
  · rintro (hopens | ⟨earlier, line, later, rfl, hopens, hclose⟩)
    · exact ⟨lines, last, [], rfl, hopens, by simp⟩
    · refine ⟨earlier, line, later ++ [last], by simp, hopens, ?_⟩
      rwa [← List.cons_append, List.dropLast_concat]

theorem Run.fault_eq_none_of_ofLines {sink : Sink} {s : Scope} {stats total : Stats}
    {fault : Option Fault} {raws : List Bytes}
    (h : (Run.ofLines sink s stats fault raws).result = .ok total) : fault = none := by
  induction raws generalizing sink s stats with
  | nil =>
    cases fault with
    | none => rfl
    | some fault => cases h
  | cons raw raws ih =>
    simp only [Run.ofLines, Run.ofLine] at h
    split at h
    · cases h
    · exact ih h

/-- **When the text stands in the body of an enum.** Behind any lines that are recast from the start
of a text, exactly when one of them opens an enum and no closing brace stands in it or behind it;
the last of them is edited as in the body of an enum exactly when one of them opens an enum and no
closing brace stands between that and the last line. Then its first terminator becomes a comma and
nothing is done about its closing brace; otherwise the first closing brace that stays on it is
terminated and its terminator is left alone. A run that comes to its end says the former of the
lines of its input, and of no lines it says no. -/
theorem isInside_after_iff_enumOpen :
    (∀ lines, (Scope.outside.after lines).isInside = true ↔ EnumOpen lines) ∧
    (∀ lines last,
      let m := Markers.ofLine last
      let kept := Line.kept m last
      let others := Line.Edits.ofMarkers m .outside (Text.byteSize kept)
      let brace := m.blockClose.filter fun b => decide (b < Text.byteSize kept)
      Line.recast (Scope.outside.after lines) last =
        Line.edit m ((Scope.outside.after lines).enter m) (Line.emphasise last) ∧
      (((Scope.outside.after lines).enter m).isInside = true ↔
        EnumOpenAtLast (lines ++ [last])) ∧
      (EnumOpenAtLast (lines ++ [last]) →
        (Line.recast (Scope.outside.after lines) last).1.line =
          { others with comma := m.terminator, semicolon := none }.apply kept) ∧
      (¬ EnumOpenAtLast (lines ++ [last]) →
        (Line.recast (Scope.outside.after lines) last).1.line =
          { others with comma := none, semicolon := brace }.apply kept)) ∧
    (∀ source sink stats, (Run.ofSource source sink).result = .ok stats →
      (stats.endedInsideEnum = true ↔
        EnumOpen ((splitLines source.content).map Line.ofBytes)) ∧
      (source.content = [] → stats.endedInsideEnum = false)) := by
  have hafter (lines : List Text) :
      (Scope.outside.after lines).isInside = true ↔ EnumOpen lines := by
    rw [Scope.isInside_after_iff]
    simp [Scope.isInside]
  refine ⟨hafter, ?_, ?_⟩
  · intro lines last m kept others brace
    have hlast : ((Scope.outside.after lines).enter m).isInside = true ↔
        EnumOpenAtLast (lines ++ [last]) := by
      rw [Line.isInside_enter, hafter, enumOpenAtLast_append_singleton_iff]
    refine ⟨rfl, hlast, fun hopen => ?_, fun hopen => ?_⟩
    · rw [Line.line_recast, Line.Edits.ofMarkers, if_pos (hlast.mpr hopen),
        if_pos (hlast.mpr hopen)]
      rfl
    · rw [Line.line_recast, Line.Edits.ofMarkers, if_neg (mt hlast.mp hopen),
        if_neg (mt hlast.mp hopen)]
      rfl
  · intro source sink stats h
    -- a source that breaks leaves no totals, so all its lines were read
    have hfault : source.fault = none := Run.fault_eq_none_of_ofLines h
    have hlines : source.lines = splitLines source.content := by simp [Source.lines, hfault]
    have hstats : stats.endedInsideEnum = true ↔
        EnumOpen ((splitLines source.content).map Line.ofBytes) := by
      rw [Run.ofLines_result_eq h, hlines]
      exact hafter _
    refine ⟨hstats, fun hempty => ?_⟩
    rw [hempty] at hstats
    exact Bool.eq_false_iff.mpr fun htrue => not_enumOpen_nil (hstats.mp htrue)

theorem endedInsideEnum_after_reopening :
    (Run.ofBytes (Utf8.encode "enum A \x7b \x7d\nenum B \x7b // x\n".toList)).result =
      .ok { linesRead := 2, linesWritten := 2, endedInsideEnum := true } ∧
    EnumOpen ((splitLines (Utf8.encode "enum A \x7b \x7d\nenum B \x7b // x\n".toList)).map
      Line.ofBytes) := by
  have hrun : (Run.ofBytes (Utf8.encode "enum A \x7b \x7d\nenum B \x7b // x\n".toList)).result =
      .ok { linesRead := 2, linesWritten := 2, endedInsideEnum := true } := by rfl
  exact ⟨hrun, (isInside_after_iff_enumOpen.2.2 _ _ _ hrun).1.mp rfl⟩

end SchemaDoc
