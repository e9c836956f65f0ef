import SchemaDoc.Proofs.Line.Code
import SchemaDoc.Proofs.Text.Boundary

/-!
# Edits at byte offsets

`Line.recastWith` makes its edits one after the other at byte offsets of a text that changes under
it. An edit whose offset is searched in the text as it then is always has an outcome, because what a
search finds stands between two boundaries: `separateAt?_eq`, `closeAt?_eq` and `declareAt?_eq`.
Only the offset of the comment is taken from the markers as it is given, so the line is recast
unless that offset, or the end of the comment there, is no boundary of it. This is `recastWith_eq`,
and `recastWith_fails_iff` says it in terms of bytes.
-/

namespace SchemaDoc

namespace Line

variable (m : Markers) (s : Scope) (line : Text)

/-! ### Offsets that are searched -/

theorem separateAt?_eq : separateAt? s line = some (separate s line) := by
  unfold separateAt? separate Text.find?
  cases hcut : Text.cut? [';'] line with
  | none => cases s <;> rfl
  | some parts =>
    obtain ⟨head, tail⟩ := parts
    cases s with
    | outside => rfl
    | enumBody =>
      obtain rfl := Text.eq_append_of_cut? hcut
      exact (Text.replaceAt?_append head [';'] [','] tail).trans (by simp)

theorem closeAt?_eq : closeAt? m s line = some (close m s line) := by
  unfold closeAt? close Text.find?
  cases hcut : Text.cut? ['}'] line with
  | none => cases s <;> cases m.blockClose <;> rfl
  | some parts =>
    obtain ⟨head, tail⟩ := parts
    cases s with
    | enumBody => rfl
    | outside =>
      cases m.blockClose with
      | none => rfl
      | some _ =>
        obtain rfl := Text.eq_append_of_cut? hcut
        -- the terminator is put in at the end of the brace
        have hinsert := Text.replaceAt?_append (head ++ ['}']) [] [';'] tail
        rw [Text.byteSize_append, List.append_nil] at hinsert
        exact hinsert.trans (by simp)

theorem declareAt?_eq : declareAt? m line = some (declare m line) := by
  unfold declareAt? declare Text.findBare?
  cases hcut : Text.cutBare? Markers.messageWord line with
  | none => rfl
  | some parts =>
    obtain ⟨head, tail⟩ := parts
    obtain ⟨rfl, -⟩ := Text.eq_append_of_cutBare? Markers.isWord_messageWord hcut
    have hremove := Text.replaceAt?_append head Markers.messageWord [] tail
    rw [List.append_nil] at hremove
    rw [Option.map_some]
    dsimp only
    rw [hremove]
    cases m.declaresMessage with
    | false => rfl
    | true => exact congrArg some (List.append_assoc _ _ _).symm

/-! ### The offset of the comment -/

/-- **Recasting by any markers**: the comment's offset aside, no edit can fail. -/
theorem recastWith_eq :
    recastWith m s line =
      match emphasiseAt? m.comment line with
      | none => (none, s)
      | some emphasised => (some (edit m s emphasised).1, (edit m s emphasised).2) := by
  unfold recastWith punctuateAt?
  cases emphasiseAt? m.comment line with
  | none => rfl
  | some emphasised =>
    simp only [Option.bind_eq_bind, Option.bind_some, separateAt?_eq, closeAt?_eq, declareAt?_eq]
    rfl

/-- The comment of the line itself is found between boundaries. -/
theorem emphasiseAt?_ofLine :
    emphasiseAt? (Markers.ofLine line).comment line = some (emphasise line) := by
  have hcomment : (Markers.ofLine line).comment = Text.find? Markers.commentOpen line := rfl
  rw [hcomment, Text.find?, emphasise]
  cases hcut : Text.cut? Markers.commentOpen line with
  | none => rfl
  | some parts =>
    obtain ⟨head, tail⟩ := parts
    obtain rfl := Text.eq_append_of_cut? hcut
    exact Text.replaceAt?_append head Markers.commentOpen Markers.docOpen tail

/-- Recasting by the markers of the line itself is recasting the line. -/
theorem recastWith_ofLine :
    recastWith (Markers.ofLine line) (s.enter (Markers.ofLine line)) line =
      (some (recast s line).1, (recast s line).2) := by
  rw [recastWith_eq, emphasiseAt?_ofLine]
  rfl

/-- The mark of a documentation comment is put in between boundaries and nowhere else. -/
theorem emphasiseAt?_eq_none_iff (comment : Option Nat) :
    emphasiseAt? comment line = none ↔
      ∃ c, comment = some c ∧ ¬ (Text.IsBoundary line c ∧ Text.IsBoundary line (c + 2)) := by
  cases comment with
  | none => simp [emphasiseAt?]
  | some c =>
    have hreplace : (Text.replaceAt? c Markers.commentOpen Markers.docOpen line).isSome = true ↔
        Text.IsBoundary line c ∧ Text.IsBoundary line (c + 2) := Text.isSome_replaceAt?_iff
    rw [emphasiseAt?, ← Option.not_isSome_iff_eq_none, hreplace]
    simp

/-- **When recasting fails.** Let a line be recast by markers that may be any. There is no outcome
exactly when a comment is marked at an offset that is no boundary of the line, or whose end is none,
and then the scope stays as it is. Otherwise there is one, whatever the other markers and the scope
are, and the scope is left as they say. The markers of the line itself always have an outcome, in
every scope, and in the scope that they enter it is what becomes of the line. -/
theorem recastWith_fails_iff :
    (recastWith m s line = (none, s) ↔
      ∃ c, m.comment = some c ∧ ¬ (Text.IsBoundary line c ∧ Text.IsBoundary line (c + 2))) ∧
    ((∃ r, recastWith m s line = (some r, s.leave m)) ↔
      ∀ c, m.comment = some c → Text.IsBoundary line c ∧ Text.IsBoundary line (c + 2)) ∧
    (∃ r, recastWith (Markers.ofLine line) s line = (some r, s.leave (Markers.ofLine line))) ∧
    recastWith (Markers.ofLine line) (s.enter (Markers.ofLine line)) line =
      (some (recast s line).1, (recast s line).2) := by
  have hfails := emphasiseAt?_eq_none_iff line m.comment
  have hnot : (∀ c, m.comment = some c → Text.IsBoundary line c ∧ Text.IsBoundary line (c + 2)) ↔
      emphasiseAt? m.comment line ≠ none := by
    rw [Ne, hfails]
    push Not
    rfl
  have hself : recastWith (Markers.ofLine line) s line =
      (some (edit (Markers.ofLine line) s (emphasise line)).1, s.leave (Markers.ofLine line)) := by
    rw [recastWith_eq, emphasiseAt?_ofLine]
    rfl
  refine ⟨?_, ?_, ⟨_, hself⟩, recastWith_ofLine s line⟩
  · rw [← hfails, recastWith_eq]
    cases emphasiseAt? m.comment line <;> simp
  · rw [hnot, recastWith_eq]
    cases emphasiseAt? m.comment line <;> simp [edit]

-- the first character takes two bytes, and the comment of the line is at offset 2
example : recastWith { comment := some 1, blockClose := some 9 } .enumBody "é// x".toList =
    (none, .enumBody) := by decide

end Line

end SchemaDoc
