import SchemaDoc.Proofs.Line.Code
import SchemaDoc.Proofs.Line.Sequence
import Mathlib.Data.List.Forall2

/-!
# Comment text does not influence code

What becomes of a line with a comment is put together from two parts that do not know of each other.
If a terminator stands in the code, all that follows it goes to the line above and the rest comes
out as it would alone: `recast_of_terminator_mem`. If not, the code comes out as it would alone and
the comment stays behind it: `recast_of_terminator_notMem`. The comment is edited too, by
`recastNote`, which looks at the code only for a closing brace.

The one thing that a comment tells the lines below it is whether it has a closing brace. So two
sequences of lines that differ in their comments only, and not in that, come out with the same code
and go through the same scopes: `recastAll_sameCode`.
-/

namespace SchemaDoc

/-- The scope behind a line knows of its closing braces only whether there are any. -/
theorem Scope.leave_congr {s : Scope} {m m' : Markers}
    (h : m.blockClose.isSome = m'.blockClose.isSome) : s.leave m = s.leave m' := by
  rw [leave, leave, exits, exits, h]

theorem Markers.isSome_blockClose_ofLine (line : Text) :
    (Markers.ofLine line).blockClose.isSome = decide ('}' ∈ line) := by
  by_cases h : '}' ∈ line
  · rw [decide_eq_true h, Option.isSome_iff_ne_none, Ne, Line.blockClose_ofLine_eq_none_iff]
    exact not_not_intro h
  · rw [decide_eq_false h, Line.blockClose_ofLine_eq_none_iff.mpr h]
    rfl

namespace Line

/-- What the steps behind the hoist make of a text: its first terminator, its first closing brace
and its first bare `message` are edited. -/
def retouch (m : Markers) (s : Scope) (t : Text) : Text := declare m (close m s (separate s t))

theorem edit_eq_retouch (m : Markers) (s : Scope) (t : Text) :
    edit m s t = (⟨(hoist m t).hoisted, retouch m s (hoist m t).line⟩, s.leave m) := rfl

/-! ### What the steps find -/

section Steps

variable {m m' : Markers} {s : Scope} {t u note : Text}

theorem separate_append (s : Scope) (h : ';' ∉ u) (v : Text) :
    separate s (u ++ v) = u ++ separate s v := by
  unfold separate
  rw [Text.cut?_singleton_append h]
  cases s with
  | outside => rfl
  | enumBody => cases Text.cut? [';'] v <;> simp

theorem close_append_of_notMem (m : Markers) (s : Scope) (h : '}' ∉ u) (v : Text) :
    close m s (u ++ v) = u ++ close m s v := by
  unfold close
  rw [Text.cut?_singleton_append h]
  cases s with
  | enumBody => rfl
  | outside => cases m.blockClose <;> cases Text.cut? ['}'] v <;> simp

theorem close_append_of_mem (m : Markers) (s : Scope) (h : '}' ∈ u) (v : Text) :
    close m s (u ++ v) = close m s u ++ v := by
  unfold close
  rw [Text.cut?_singleton_append_of_mem h]
  cases s with
  | enumBody => rfl
  | outside => cases m.blockClose <;> cases Text.cut? ['}'] u <;> simp

theorem close_of_notMem (m : Markers) (s : Scope) (h : '}' ∉ t) : close m s t = t := by
  unfold close
  rw [Text.cut?_singleton_eq_none_iff.mpr h]
  cases s <;> cases m.blockClose <;> rfl

/-- Of the closing braces of the line it matters only whether there are any. -/
theorem close_congr (s : Scope) (h : '}' ∈ t → m.blockClose.isSome = m'.blockClose.isSome) :
    close m s t = close m' s t := by
  by_cases hmem : '}' ∈ t
  · have hsome := h hmem
    unfold close
    cases s with
    | enumBody => rfl
    | outside =>
      cases hm : m.blockClose <;> cases hm' : m'.blockClose <;> cases Text.cut? ['}'] t <;> simp_all
  · rw [close_of_notMem m s hmem, close_of_notMem m' s hmem]

/-- A terminator is no brace, and no comma is. -/
theorem brace_mem_separate_iff : '}' ∈ separate s t ↔ '}' ∈ t := by
  unfold separate
  split
  · next hcut =>
    obtain ⟨rfl, -⟩ := Text.cut?_singleton_eq_some_iff.mp hcut
    simp
  · rfl

section Words

variable {word : Text} (hw : Text.IsWord word)

include hw

/-- Turning the terminator into a comma takes no bare word away and brings none in. -/
theorem cutBare?_separate_eq_none_iff (s : Scope) (t : Text) :
    Text.cutBare? word (separate s t) = none ↔ Text.cutBare? word t = none := by
  have hcomma : Text.isWordChar ',' = false := by decide
  have hterminator : Text.isWordChar ';' = false := by decide
  unfold separate
  split
  · next hcut =>
    obtain ⟨rfl, -⟩ := Text.cut?_singleton_eq_some_iff.mp hcut
    rw [Text.cutBare?_append_cons_eq_none_iff hw hcomma,
      Text.cutBare?_append_cons_eq_none_iff hw hterminator]
  · rfl

/-- Nor does the terminator behind a closing brace. -/
theorem cutBare?_close_eq_none_iff (m : Markers) (s : Scope) (t : Text) :
    Text.cutBare? word (close m s t) = none ↔ Text.cutBare? word t = none := by
  have hbrace : Text.isWordChar '}' = false := by decide
  have hterminator : Text.isWordChar ';' = false := by decide
  unfold close
  split
  · next hcut =>
    obtain ⟨rfl, -⟩ := Text.cut?_singleton_eq_some_iff.mp hcut
    rw [Text.cutBare?_append_cons_eq_none_iff hw hbrace,
      Text.cutBare?_append_cons_eq_none_iff hw hbrace,
      Text.cutBare?_cons_eq_none_iff hw hterminator]
  · rfl

end Words

/-- Whether the line declares a message matters only where there is the word. -/
theorem declare_congr (h : Text.cutBare? Markers.messageWord t ≠ none →
    m.declaresMessage = m'.declaresMessage) : declare m t = declare m' t := by
  unfold declare
  cases hcut : Text.cutBare? Markers.messageWord t with
  | none => rfl
  | some parts => rw [h (by simp [hcut])]

/-- A message declared in `u` is declared there, whatever follows. -/
theorem declare_append_slash
    (h : m.declaresMessage = true → Text.cutBare? Markers.messageWord u ≠ none) (v : Text) :
    declare m (u ++ '/' :: v) = declare m u ++ '/' :: v := by
  cases hm : m.declaresMessage with
  | false => rw [declare_eq_self hm, declare_eq_self hm]
  | true =>
    obtain ⟨⟨head, tail⟩, hcut⟩ := Option.ne_none_iff_exists'.mp (h hm)
    rw [declare, declare, Text.cutBare?_append_cons Markers.isWord_messageWord isWordChar_slash,
      hcut, hm]
    simp

/-- **A text is retouched by what it holds**: of the markers of its line only those matter for which
it has something to edit. -/
theorem retouch_congr (s : Scope) (hclose : '}' ∈ t → m.blockClose.isSome = m'.blockClose.isSome)
    (hdeclare : Text.cutBare? Markers.messageWord t ≠ none →
      m.declaresMessage = m'.declaresMessage) : retouch m s t = retouch m' s t := by
  have hw := Markers.isWord_messageWord
  have hclose' : close m s (separate s t) = close m' s (separate s t) :=
    close_congr s fun hmem => hclose (brace_mem_separate_iff.mp hmem)
  rw [retouch, retouch, hclose']
  refine declare_congr fun hne => hdeclare ?_
  rwa [Ne, cutBare?_close_eq_none_iff hw, cutBare?_separate_eq_none_iff hw] at hne

/-- What becomes of the comment `note` behind the code `u` when it stays there: a terminator in it
may be turned into a comma, or a closing brace get one, like those of the code. -/
def recastNote (s : Scope) (u note : Text) : Text :=
  if '}' ∈ u then separate s note else close (Markers.ofLine note) s (separate s note)

/-- **Code and comment are retouched apart** where no terminator stands in the code. -/
theorem retouch_append_docOpen (s : Scope) (hu : ';' ∉ u)
    (hclose : m.blockClose.isSome = (decide ('}' ∈ u) || decide ('}' ∈ note)))
    (hdeclare : m.declaresMessage = true → Text.cutBare? Markers.messageWord u ≠ none) :
    retouch m s (u ++ Markers.docOpen ++ note) =
      retouch m s u ++ Markers.docOpen ++ recastNote s u note := by
  -- the slashes between the two are no terminators, braces or words
  have hseparate : separate s (u ++ Markers.docOpen ++ note) =
      u ++ Markers.docOpen ++ separate s note :=
    separate_append s (by simp [hu, Markers.docOpen]) note
  have hclose' : close m s (u ++ Markers.docOpen ++ separate s note) =
      close m s u ++ Markers.docOpen ++ recastNote s u note := by
    rw [recastNote]
    split
    · next hmem => simp only [List.append_assoc, close_append_of_mem m s hmem]
    · next hmem =>
      have hnote : close m s (separate s note) =
          close (Markers.ofLine note) s (separate s note) := by
        refine close_congr s fun _ => ?_
        rw [hclose, Markers.isSome_blockClose_ofLine, decide_eq_false hmem, Bool.false_or]
      rw [close_append_of_notMem m s (by simp [hmem, Markers.docOpen]), hnote,
        close_of_notMem m s hmem]
  have hdeclare' := declare_append_slash (m := m) (u := close m s u) (fun htrue => by
    rw [Ne, cutBare?_close_eq_none_iff Markers.isWord_messageWord]
    exact hdeclare htrue) ('/' :: '/' :: recastNote s u note)
  rw [retouch, hseparate, hclose', retouch, separate_eq_self s hu]
  simpa [Markers.docOpen] using hdeclare'

end Steps

/-! ### Lines with a comment and lines without -/

section Parts

variable {line u gap note : Text}

/-- The line up to its comment, and the comment. -/
theorem cut?_commentOpen_eq_some_iff :
    Text.cut? Markers.commentOpen line = some (u, note) ↔
      line = u ++ Markers.commentOpen ++ note ∧ ¬ Markers.commentOpen <:+: u ++ ['/'] :=
  Text.cut?_eq_some_iff (by decide)

/-- A hoisted comment begins behind the same text as before. -/
theorem cut?_docOpen_append (h : ¬ Markers.commentOpen <:+: u ++ ['/']) (note : Text) :
    Text.cut? Markers.docOpen (u ++ Markers.docOpen ++ note) = some (u, note) := by
  rw [Text.cut?_eq_some_iff (by decide)]
  refine ⟨rfl, ?_⟩
  -- an earlier occurrence has its first two slashes in `u` and the slash behind it
  rintro ⟨front, back, heq⟩
  have hinit : (front ++ Markers.docOpen ++ back).dropLast = u ++ ['/'] := by
    rw [heq]
    simp [Markers.docOpen]
  refine h ⟨front, ('/' :: back).dropLast, ?_⟩
  rw [← hinit]
  simp [Markers.docOpen, Markers.commentOpen, List.dropLast_append_of_ne_nil]

/-- A terminator stands before the comment exactly when it stands in the code. -/
theorem terminatorPrecedesComment_of_cut?
    (h : Text.cut? Markers.commentOpen line = some (u, note)) :
    (Markers.ofLine line).terminatorPrecedesComment = decide (';' ∈ u) := by
  have hline := Text.eq_append_of_cut? h
  have hcomment : (Markers.ofLine line).comment = some (Text.byteSize u) :=
    congrArg (Option.map _) h
  have hterminator : (Markers.ofLine line).terminator =
      (Text.cut? [';'] (u ++ (Markers.commentOpen ++ note))).map
        fun pieces => Text.byteSize pieces.1 := by
    rw [← List.append_assoc, ← hline]
    rfl
  rw [Markers.terminatorPrecedesComment, hcomment, hterminator]
  by_cases hmem : ';' ∈ u
  · obtain ⟨head, tail, rfl, hhead⟩ := List.eq_append_cons_of_mem hmem
    have hpos := Char.utf8Size_pos ';'
    rw [Text.cut?_singleton_append_of_mem hmem,
      Text.cut?_singleton_eq_some_iff.mpr ⟨rfl, hhead⟩]
    simp only [Option.map_some, Text.byteSize_append, Text.byteSize_cons, hmem, decide_true,
      decide_eq_true_eq]
    omega
  · rw [Text.cut?_singleton_append hmem]
    cases Text.cut? [';'] (Markers.commentOpen ++ note) <;> simp [hmem]

/-- Whether a line opens an enum is seen in its code alone. -/
theorem entersEnum_of_cut? (h : Text.cut? Markers.commentOpen line = some (u, note)) :
    (Markers.ofLine line).entersEnum = (Text.cutBare? Markers.enumWord u).isSome := by
  rw [entersEnum_ofLine, code_of_cut? h]

/-- And so is whether it declares a message. -/
theorem declaresMessage_of_cut? (h : Text.cut? Markers.commentOpen line = some (u, note)) :
    (Markers.ofLine line).declaresMessage = (Text.cutBare? Markers.messageWord u).isSome := by
  rw [declaresMessage_ofLine, code_of_cut? h]

/-- A closing brace is seen in the comment too. -/
theorem isSome_blockClose_of_cut? (h : Text.cut? Markers.commentOpen line = some (u, note)) :
    (Markers.ofLine line).blockClose.isSome = (decide ('}' ∈ u) || decide ('}' ∈ note)) := by
  rw [Text.eq_append_of_cut? h, Markers.isSome_blockClose_ofLine, ← Bool.decide_or]
  simp [Markers.commentOpen]

/-- **A line without a comment** is retouched, and nothing is hoisted. -/
theorem recast_of_uncommented (s : Scope) (h : ¬ Markers.commentOpen <:+: line) :
    (recast s line).1 =
      ⟨none, retouch (Markers.ofLine line) (s.enter (Markers.ofLine line)) line⟩ := by
  have hcut := Text.cut?_eq_none_iff.mpr h
  have hcomment : (Markers.ofLine line).comment = none := congrArg (Option.map _) hcut
  have hfalse : (Markers.ofLine line).terminatorPrecedesComment = false := by
    rw [Markers.terminatorPrecedesComment, hcomment]
    split <;> simp_all
  rw [recast, emphasise, hcut, edit_eq_retouch, hoist_eq_self hfalse]

/-- **A comment behind code without a terminator** stays there, and the code comes out as it would
alone. -/
theorem recast_of_terminator_notMem (s : Scope)
    (h : Text.cut? Markers.commentOpen line = some (u, note)) (hu : ';' ∉ u) :
    (recast s line).1 = ⟨none, (recast s u).1.line ++ Markers.docOpen ++
      recastNote (s.enter (Markers.ofLine u)) u note⟩ := by
  have hopens := Text.not_infix_of_cut? (by decide) h
  have hfalse : (Markers.ofLine line).terminatorPrecedesComment = false := by
    rw [terminatorPrecedesComment_of_cut? h, decide_eq_false hu]
  have hclose := isSome_blockClose_of_cut? h
  have hdeclare := declaresMessage_of_cut? h
  have henter : s.enter (Markers.ofLine line) = s.enter (Markers.ofLine u) := by
    rw [Scope.enter, Scope.enter, entersEnum_of_cut? h, entersEnum_ofLine, code_eq_self hopens]
  have hcode : retouch (Markers.ofLine line) (s.enter (Markers.ofLine u)) u =
      (recast s u).1.line := by
    rw [recast_of_uncommented s hopens]
    refine retouch_congr _ (fun hmem => ?_) fun _ => ?_
    · rw [hclose, Markers.isSome_blockClose_ofLine, decide_eq_true hmem, Bool.true_or]
    · rw [hdeclare, declaresMessage_ofLine, code_eq_self hopens]
  rw [← hcode, recast, emphasise, h, henter, edit_eq_retouch, hoist_eq_self hfalse]
  dsimp only
  rw [retouch_append_docOpen _ hu hclose fun htrue => by
    rwa [hdeclare, Option.isSome_iff_ne_none] at htrue]

/-- **A comment behind a terminator** goes to the line above with all that stands behind the first
terminator. What stands before it comes out as it would alone in the scope of the line. -/
theorem recast_of_terminator_mem (s : Scope)
    (h : Text.cut? Markers.commentOpen line = some (u ++ ';' :: gap, note)) (hu : ';' ∉ u) :
    (recast s line).1 = ⟨some (gap ++ Markers.docOpen ++ note),
      (recast (s.enter (Markers.ofLine line)) (u ++ [';'])).1.line⟩ := by
  have hopens := Text.not_infix_of_cut? (by decide) h
  have hstays : ¬ Markers.commentOpen <:+: u ++ [';'] := fun hopen =>
    hopens (hopen.trans (by simpa using (List.prefix_append (u ++ [';']) gap).isInfix))
  have htrue : (Markers.ofLine line).terminatorPrecedesComment = true := by
    rw [terminatorPrecedesComment_of_cut? h]
    simp
  have hhoist : hoist (Markers.ofLine line) (u ++ ';' :: gap ++ Markers.docOpen ++ note) =
      ⟨some (gap ++ Markers.docOpen ++ note), u ++ [';']⟩ := by
    have hcut : Text.cut? [';'] (u ++ ';' :: gap ++ Markers.docOpen ++ note) =
        some (u, gap ++ Markers.docOpen ++ note) :=
      Text.cut?_singleton_eq_some_iff.mpr ⟨by simp, hu⟩
    rw [hoist, hcut, htrue]
    rfl
  -- the words of what stays are words of the code
  have hword {word : Text} (hw : Text.IsWord word)
      (hne : Text.cutBare? word (u ++ [';']) ≠ none) :
      (Text.cutBare? word (u ++ ';' :: gap)).isSome = true := by
    have hterminator : Text.isWordChar ';' = false := by decide
    have hnil : Text.cutBare? word [] = none := Text.cutBareFrom?_nil hw none 0
    rw [Ne, Text.cutBare?_append_cons_eq_none_iff hw hterminator] at hne
    rw [Option.isSome_iff_ne_none, Ne, Text.cutBare?_append_cons_eq_none_iff hw hterminator]
    exact fun hnone => hne ⟨hnone.1, hnil⟩
  have henter : (s.enter (Markers.ofLine line)).enter (Markers.ofLine (u ++ [';'])) =
      s.enter (Markers.ofLine line) := by
    rw [Scope.enter, entersEnum_ofLine, code_eq_self hstays]
    split
    · next hsome =>
      have hne := Option.isSome_iff_ne_none.mp hsome
      rw [Scope.enter, entersEnum_of_cut? h, hword Markers.isWord_enumWord hne]
      rfl
    · rfl
  rw [recast_of_uncommented _ hstays, henter, recast, emphasise, h, edit_eq_retouch, hhoist]
  dsimp only
  congr 1
  refine retouch_congr _ (fun hmem => ?_) fun hne => ?_
  · rw [isSome_blockClose_of_cut? h, Markers.isSome_blockClose_ofLine]
    simp_all
  · rw [declaresMessage_of_cut? h, declaresMessage_ofLine, code_eq_self hstays,
      hword Markers.isWord_messageWord hne, Option.isSome_iff_ne_none.mpr hne]

end Parts

/-! ### Two sequences of lines -/

/-- Two lines **have the same code** when they differ in their comments only, and not in whether
these have a closing brace. -/
inductive SameCode : Text → Text → Prop where
  /-- A line without a comment has the same code as itself. -/
  | plain {line : Text} (h : ¬ Markers.commentOpen <:+: line) : SameCode line line
  /-- Lines with a comment have the same text before it. -/
  | comment {line line' u note note' : Text}
    (h : Text.cut? Markers.commentOpen line = some (u, note))
    (h' : Text.cut? Markers.commentOpen line' = some (u, note'))
    (hclose : '}' ∈ note ↔ '}' ∈ note') : SameCode line line'

/-- What the outcomes `r` and `r'` of two lines in scope `s` share when these have the same code. -/
structure SharedCode (s : Scope) (line line' : Text) (r r' : Recast) : Prop where
  /-- A comment is hoisted from both lines or from neither. -/
  isSome_hoisted : r.hoisted.isSome = r'.hoisted.isSome
  /-- Lines without a comment come out the same. -/
  plain : ¬ Markers.commentOpen <:+: line → r = r'
  /-- Lines from which a comment is hoisted come out the same, and the comments begin behind the
  same text. -/
  above : ∀ {u note note'}, Text.cut? Markers.commentOpen line = some (u, note) →
    Text.cut? Markers.commentOpen line' = some (u, note') → r.hoisted.isSome = true →
    r.line = r'.line ∧ ∃ gap, r.hoisted.bind (Text.cut? Markers.docOpen) = some (gap, note) ∧
      r'.hoisted.bind (Text.cut? Markers.docOpen) = some (gap, note')
  /-- Where a comment stays, the code comes out as it would alone, and each line has its own
  comment behind it. -/
  beside : ∀ {u note note'}, Text.cut? Markers.commentOpen line = some (u, note) →
    Text.cut? Markers.commentOpen line' = some (u, note') → r.hoisted = none →
    r.line = (recast s u).1.line ++ Markers.docOpen ++
        recastNote (s.enter (Markers.ofLine u)) u note ∧
      r'.line = (recast s u).1.line ++ Markers.docOpen ++
        recastNote (s.enter (Markers.ofLine u)) u note'

section SameCode

variable {line line' u note note' : Text} {lines lines' : List Text}

/-- Lines with the same code are edited in the same scope. -/
private theorem enter_of_cut? (s : Scope)
    (h : Text.cut? Markers.commentOpen line = some (u, note))
    (h' : Text.cut? Markers.commentOpen line' = some (u, note')) :
    s.enter (Markers.ofLine line) = s.enter (Markers.ofLine line') := by
  rw [Scope.enter, Scope.enter, entersEnum_of_cut? h, entersEnum_of_cut? h']

/-- And they leave the same scope. -/
theorem SameCode.recast_snd (h : SameCode line line') (s : Scope) :
    (recast s line).2 = (recast s line').2 := by
  cases h with
  | plain => rfl
  | comment h h' hclose =>
    have hsome : (Markers.ofLine line).blockClose.isSome =
        (Markers.ofLine line').blockClose.isSome := by
      rw [isSome_blockClose_of_cut? h, isSome_blockClose_of_cut? h', decide_eq_decide.mpr hclose]
    calc (recast s line).2 = (s.enter (Markers.ofLine line)).leave (Markers.ofLine line) := rfl
      _ = (s.enter (Markers.ofLine line')).leave (Markers.ofLine line') := by
        rw [enter_of_cut? s h h', Scope.leave_congr hsome]

/-- **One line**: what becomes of its code does not depend on its comment. -/
theorem SameCode.recast_fst (h : SameCode line line') (s : Scope) :
    SharedCode s line line' (recast s line).1 (recast s line').1 := by
  cases h with
  | plain h =>
    have hnone := Text.cut?_eq_none_iff.mpr h
    exact ⟨rfl, fun _ => rfl, by simp [hnone], by simp [hnone]⟩
  | @comment _ u note note' h h' hclose =>
    have hopen : ¬ ¬ Markers.commentOpen <:+: line := by
      rw [← Text.cut?_eq_none_iff, h]
      simp
    by_cases hu : ';' ∈ u
    · obtain ⟨v, gap, rfl, hv⟩ := List.eq_append_cons_of_mem hu
      have hgap : ¬ Markers.commentOpen <:+: gap ++ ['/'] := fun hopens =>
        (cut?_commentOpen_eq_some_iff.mp h).2 (hopens.trans ⟨v ++ [';'], [], by simp⟩)
      rw [recast_of_terminator_mem s h hv, recast_of_terminator_mem s h' hv, enter_of_cut? s h h']
      refine ⟨rfl, fun hplain => absurd hplain hopen, fun hcut hcut' _ => ⟨rfl, gap, ?_⟩, by simp⟩
      obtain ⟨-, rfl⟩ : v ++ ';' :: gap = _ ∧ note = _ := by simpa [h] using hcut
      obtain ⟨-, rfl⟩ : v ++ ';' :: gap = _ ∧ note' = _ := by simpa [h'] using hcut'
      exact ⟨cut?_docOpen_append hgap note, cut?_docOpen_append hgap note'⟩
    · rw [recast_of_terminator_notMem s h hu, recast_of_terminator_notMem s h' hu]
      refine ⟨rfl, fun hplain => absurd hplain hopen, by simp, fun hcut hcut' _ => ?_⟩
      obtain ⟨rfl, rfl⟩ : u = _ ∧ note = _ := by simpa [h] using hcut
      obtain rfl : note' = _ := by simpa [h'] using hcut'
      exact ⟨rfl, rfl⟩

/-- **A run of lines** leaves the same scope whatever stands in the comments. -/
theorem after_eq_of_sameCode (h : List.Forall₂ SameCode lines lines') (s : Scope) :
    s.after lines = s.after lines' := by
  induction h generalizing s with
  | nil => rfl
  | cons hline _ ih => rw [Scope.after_cons, Scope.after_cons, hline.recast_snd, ih]

/-- **Comment text does not influence code.** Let two sequences of lines have the same code, line by
line. Then every line of the one leaves the same scope as its counterpart, and their outcomes share
all that comes from the code: what is hoisted or not, the line from which a comment is hoisted and
the text before that comment, and the code before a comment that stays. -/
theorem recastAll_sameCode (h : List.Forall₂ SameCode lines lines') {i : Nat}
    (hline : lines[i]? = some line) (hline' : lines'[i]? = some line') :
    ∃ r r', (recastAll .outside lines)[i]? = some r ∧ (recastAll .outside lines')[i]? = some r' ∧
      Scope.outside.after (lines.take (i + 1)) = Scope.outside.after (lines'.take (i + 1)) ∧
      SharedCode (Scope.outside.after (lines.take i)) line line' r r' := by
  have hscope (n : Nat) :
      Scope.outside.after (lines.take n) = Scope.outside.after (lines'.take n) :=
    after_eq_of_sameCode (List.forall₂_take n h) .outside
  have hsame : SameCode line line' := by
    obtain ⟨hi, rfl⟩ := List.getElem?_eq_some_iff.mp hline
    obtain ⟨hi', rfl⟩ := List.getElem?_eq_some_iff.mp hline'
    exact h.get hi hi'
  have hshared := hsame.recast_fst (Scope.outside.after (lines.take i))
  refine ⟨_, _, ?_, ?_, hscope (i + 1), hshared⟩
  · rw [getElem?_recastAll, hline]
    rfl
  · rw [getElem?_recastAll, hline', hscope i]
    rfl

theorem recastAll_sameCode_enum_member :
    List.Forall₂ SameCode
      ["enum E \x7b // one".toList, "  A = 0; // \x7d".toList]
      ["enum E \x7b // a; message".toList, "  A = 0; // b \x7d // c;".toList] ∧
    ∃ r r',
      (recastAll .outside ["enum E \x7b // one".toList, "  A = 0; // \x7d".toList])[1]? = some r ∧
      (recastAll .outside
        ["enum E \x7b // a; message".toList, "  A = 0; // b \x7d // c;".toList])[1]? = some r' ∧
      Scope.outside.after ["enum E \x7b // one".toList, "  A = 0; // \x7d".toList] =
        Scope.outside.after
          ["enum E \x7b // a; message".toList, "  A = 0; // b \x7d // c;".toList] ∧
      SharedCode (Scope.outside.after ["enum E \x7b // one".toList]) "  A = 0; // \x7d".toList
        "  A = 0; // b \x7d // c;".toList r r' := by
  have hfirst : SameCode "enum E \x7b // one".toList "enum E \x7b // a; message".toList :=
    .comment (u := "enum E \x7b ".toList) rfl rfl (by decide)
  have hsecond : SameCode "  A = 0; // \x7d".toList "  A = 0; // b \x7d // c;".toList :=
    .comment (u := "  A = 0; ".toList) rfl rfl (by decide)
  have hlines := List.Forall₂.cons hfirst (.cons hsecond .nil)
  exact ⟨hlines, recastAll_sameCode (i := 1) hlines rfl rfl⟩

end SameCode

end Line

end SchemaDoc
