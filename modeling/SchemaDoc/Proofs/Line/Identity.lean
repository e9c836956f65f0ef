import SchemaDoc.Proofs.Line.Braces

/-!
# Lines that come out as they are

A line comes out as it is exactly when none of the rules applies to it, `isIdentity_recast_iff`. The
edits of a line never make up for one another, although some of them lengthen it and one shortens
it: a line that loses `message` and gains `struct`, and a slash or a terminator besides, may keep
its length. But then `struct` stands before a text that is unchanged up to the first edit, and if
that were still the line, `struct` would repeat all the way up to the edited character, which is
none of its letters: `Text.append_append_ne`.
-/

namespace SchemaDoc

/-- A text that goes on like itself behind a word repeats the word, so the character behind the text
is one of the word's. -/
theorem Text.append_append_ne {word : Text} {c : Char} (hne : word ≠ []) (hc : c ∉ word)
    (u v w : Text) : word ++ u ++ v ≠ u ++ c :: w := by
  intro heq
  induction hlen : u.length using Nat.strongRecOn generalizing u with
  | _ n ih =>
    subst hlen
    rw [List.append_assoc] at heq
    obtain ⟨rest, rfl, hrest⟩ | ⟨back, hword, hback⟩ := List.append_eq_append_iff.mp heq
    · -- the text begins with the word, and what follows goes on like itself behind it
      refine ih rest.length ?_ rest hrest rfl
      have := List.length_pos_iff.mpr hne
      rw [List.length_append]
      omega
    · -- the word reaches up to the end of the text or beyond it
      refine hc ?_
      cases back with
      | nil =>
        obtain ⟨x, xs, rfl⟩ := List.exists_cons_of_ne_nil hne
        obtain rfl : u = x :: xs := by simpa using hword.symm
        simp [(List.cons.inj hback).1]
      | cons x back => simp [hword, (List.cons.inj hback).1]

namespace Line

variable {s : Scope} {line t t' : Text}

/-! ### Punctuation -/

theorem Punctuated.length_le (h : Punctuated t t') : t.length ≤ t'.length := by
  cases h with
  | same => exact le_rfl
  | comma u v => simp
  | brace u v => simp

/-- Behind `struct`, what stood before `message` is not followed by `message` again. -/
theorem Punctuated.structWord_append_ne (h : Punctuated t t') (u v : Text) :
    Markers.structWord ++ t' ++ u ≠ t ++ Markers.messageWord ++ v := by
  have hne : Markers.structWord ≠ [] := by decide
  -- the first edited character is a terminator, a brace or the first letter of `message`
  cases h with
  | same => simpa [Markers.messageWord] using Text.append_append_ne hne (c := 'm') (by decide) t u _
  | comma x y => simpa using Text.append_append_ne hne (c := ';') (by decide) x (',' :: y ++ u) _
  | brace x y =>
    simpa using Text.append_append_ne hne (c := '}') (by decide) x ('}' :: ';' :: y ++ u) _

theorem separate_enumBody_eq_self_iff : separate .enumBody t = t ↔ ';' ∉ t := by
  refine ⟨fun heq hmem => ?_, fun h => separate_eq_self .enumBody h⟩
  obtain ⟨head, tail, rfl, hhead⟩ := List.eq_append_cons_of_mem hmem
  unfold separate at heq
  rw [Text.cut?_singleton_eq_some_iff.mpr ⟨rfl, hhead⟩] at heq
  simp at heq

theorem close_outside_eq_self_iff :
    close (Markers.ofLine line) .outside line = line ↔ '}' ∉ line := by
  refine ⟨fun heq hmem => ?_, fun h => close_of_notMem _ .outside h⟩
  have hsome : (Markers.ofLine line).blockClose.isSome = true := by
    rw [Markers.isSome_blockClose_ofLine, decide_eq_true hmem]
  obtain ⟨b, hb⟩ := Option.isSome_iff_exists.mp hsome
  obtain ⟨head, tail, hline, hhead⟩ := List.eq_append_cons_of_mem hmem
  unfold close at heq
  rw [hb, Text.cut?_singleton_eq_some_iff.mpr ⟨hline, hhead⟩] at heq
  have hlength := congrArg List.length (heq.trans hline)
  simp at hlength

theorem punctuated_recastNote (s : Scope) (u note : Text) :
    Punctuated note (recastNote s u note) := by
  rw [recastNote]
  split
  · simpa [close_eq_self] using punctuated_close_separate {} s note
  · exact punctuated_close_separate _ s note

/-! ### One line -/

/-- Code with a bare `message` never comes out as the beginning of what it was. -/
theorem recast_line_append_ne (s : Scope) (ht : ¬ Markers.commentOpen <:+: t)
    (h : Text.HasBare Markers.messageWord t) (u v : Text) :
    (recast s t).1.line ++ u ≠ t ++ v := by
  obtain ⟨hnone, -⟩ | ⟨head, tail, head', tail', hcut, hhead, -, hline⟩ := recast_punctuated s ht
  · exact absurd h ((Text.cutBare?_eq_none_iff_not_hasBare Markers.isWord_messageWord).mp hnone)
  · obtain ⟨rfl, -⟩ := Text.eq_append_of_cutBare? Markers.isWord_messageWord hcut
    rw [hline, List.append_assoc, List.append_assoc (head ++ _)]
    exact hhead.structWord_append_ne (tail' ++ u) (tail ++ v)

/-- Code without one does not get shorter. -/
theorem length_le_recast_line (s : Scope) (ht : ¬ Markers.commentOpen <:+: t)
    (h : ¬ Text.HasBare Markers.messageWord t) : t.length ≤ (recast s t).1.line.length := by
  rw [← Text.cutBare?_eq_none_iff_not_hasBare Markers.isWord_messageWord] at h
  obtain ⟨-, hline⟩ | ⟨head, tail, -, -, hcut, -, -, -⟩ := recast_punctuated s ht
  · exact hline.length_le
  · simp [h] at hcut

/-- A line with a comment comes out as another, or as two. -/
theorem isIdentity_recast_of_commented (s : Scope) (h : Markers.commentOpen <:+: line) :
    (recast s line).1.isIdentity line = false := by
  obtain hline | ⟨u, note, hcut, hu⟩ | ⟨u, gap, note, hcut, hu⟩ := parts_cases line
  · exact absurd h hline
  · have hopens := Text.not_infix_of_cut? (by decide) hcut
    rw [recast_of_terminator_notMem s hcut hu]
    refine decide_eq_false fun heq => ?_
    have hline := heq.trans (Text.eq_append_of_cut? hcut)
    by_cases hbare : Text.HasBare Markers.messageWord u
    · rw [List.append_assoc, List.append_assoc] at hline
      exact recast_line_append_ne s hopens hbare _ _ hline
    · -- no edit of the code or of the comment takes back the slash
      have hcode := length_le_recast_line s hopens hbare
      have hnote := (punctuated_recastNote (s.enter (Markers.ofLine u)) u note).length_le
      have hlength := congrArg List.length hline
      simp only [List.length_append, Markers.docOpen, Markers.commentOpen, List.length_cons,
        List.length_nil] at hlength
      omega
  · rw [recast_of_terminator_mem s hcut hu]
    rfl

/-- **A line comes out as it is** exactly when no rule applies to it: it has no comment and no bare
`message`, no terminator if it stands in the body of an enum, and no closing brace if it does
not. -/
theorem isIdentity_recast_iff (s : Scope) (line : Text) :
    (recast s line).1.isIdentity line = true ↔
      ¬ Markers.commentOpen <:+: line ∧ ¬ Text.HasBare Markers.messageWord line ∧
      if (s.enter (Markers.ofLine line)).isInside then ';' ∉ line else '}' ∉ line := by
  by_cases hopens : Markers.commentOpen <:+: line
  · simp [isIdentity_recast_of_commented s hopens, hopens]
  have hidentity : (recast s line).1.isIdentity line = true ↔ (recast s line).1.line = line := by
    rw [recast_of_uncommented s hopens]
    simp [Recast.isIdentity]
  rw [hidentity]
  by_cases hbare : Text.HasBare Markers.messageWord line
  · have hne : (recast s line).1.line ≠ line := by
      simpa using recast_line_append_ne s hopens hbare [] []
    simp [hne, hbare]
  have hdeclares : (Markers.ofLine line).declaresMessage = false := by
    rw [declaresMessage_ofLine, code_eq_self hopens,
      (Text.cutBare?_eq_none_iff_not_hasBare Markers.isWord_messageWord).mpr hbare]
    rfl
  rw [recast_of_uncommented s hopens, retouch, declare_eq_self hdeclares]
  -- what is left to edit is a terminator in one scope and a closing brace in the other
  cases s.enter (Markers.ofLine line) with
  | enumBody =>
    have hclose (t : Text) : close (Markers.ofLine line) .enumBody t = t := rfl
    simp [hopens, hbare, hclose, separate_enumBody_eq_self_iff, Scope.isInside]
  | outside =>
    have hseparate (t : Text) : separate .outside t = t := rfl
    simp [hopens, hbare, hseparate, close_outside_eq_self_iff, Scope.isInside]

end Line

end SchemaDoc
