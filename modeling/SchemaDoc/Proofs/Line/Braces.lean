import SchemaDoc.Proofs.Line.Comment
import SchemaDoc.Proofs.Stream.LineCount
import Mathlib.Data.List.Perm.Basic

/-!
# Block structure

The braces of the code of a document, read from its first line to its last, say which block stands
in which. The edits of a line leave them alone, with two exceptions. A comment behind a terminator
takes the code between the two with it to the line above, and with that code its braces: what closes
on a line may come out before what opens on it. And where `message` stands between two slashes,
taking it out makes a comment of what follows.

`codeBraces_transform` says what becomes of the braces of every document without the second, and
that they stay as they are in one without either.
-/

namespace SchemaDoc

/-- The braces of a text, in their order. -/
def Text.braces (t : Text) : Text := t.filter fun c => c == '{' || c == '}'

/-- The braces that stand in the code of a document, from its first line to its last. -/
def Text.codeBraces (t : Text) : Text :=
  (t.splitOn '\n').flatMap fun line => Text.braces (Line.code line)

@[simp]
theorem Text.braces_append (t u : Text) : Text.braces (t ++ u) = Text.braces t ++ Text.braces u :=
  List.filter_append _ _

theorem Text.codeBraces_unlines {lines : List Text} (h : ∀ l ∈ lines, '\n' ∉ l) :
    Text.codeBraces (Text.unlines lines) = lines.flatMap fun l => Text.braces (Line.code l) := by
  have hsplit := Text.splitOn_unlines_append h (List.not_mem_nil (a := '\n'))
  rw [List.append_nil] at hsplit
  rw [Text.codeBraces, hsplit, List.flatMap_append]
  exact List.append_nil _

namespace Line

/-- The code of a line that stays on it, and the code that goes to the line above with the comment:
what stands between the first terminator and the comment. -/
def parts (line : Text) : Text × Text :=
  match Text.cut? Markers.commentOpen line with
  | none => (line, [])
  | some (u, _) =>
    match Text.cut? [';'] u with
    | none => (u, [])
    | some (head, gap) => (head ++ [';'], gap)

section Parts

variable {line u gap note : Text}

theorem parts_of_uncommented (h : ¬ Markers.commentOpen <:+: line) : parts line = (line, []) := by
  rw [parts, Text.cut?_eq_none_iff.mpr h]

theorem parts_of_terminator_notMem (h : Text.cut? Markers.commentOpen line = some (u, note))
    (hu : ';' ∉ u) : parts line = (u, []) := by
  rw [parts, h]
  dsimp only
  rw [Text.cut?_singleton_eq_none_iff.mpr hu]

theorem parts_of_terminator_mem
    (h : Text.cut? Markers.commentOpen line = some (u ++ ';' :: gap, note)) (hu : ';' ∉ u) :
    parts line = (u ++ [';'], gap) := by
  rw [parts, h]
  dsimp only
  rw [Text.cut?_singleton_eq_some_iff.mpr ⟨rfl, hu⟩]

/-- The ways in which a line may have a comment, a terminator in front of it or neither. -/
theorem parts_cases (line : Text) :
    ¬ Markers.commentOpen <:+: line ∨
    (∃ u note, Text.cut? Markers.commentOpen line = some (u, note) ∧ ';' ∉ u) ∨
    ∃ u gap note, Text.cut? Markers.commentOpen line = some (u ++ ';' :: gap, note) ∧ ';' ∉ u := by
  obtain ⟨-, -, h⟩ | ⟨u, note, h, -, -, -⟩ := code_cases line
  · exact Or.inl h
  · by_cases hu : ';' ∈ u
    · obtain ⟨head, gap, rfl, hhead⟩ := List.eq_append_cons_of_mem hu
      exact Or.inr (Or.inr ⟨head, gap, note, h, hhead⟩)
    · exact Or.inr (Or.inl ⟨u, note, h, hu⟩)

/-- The two parts are the code. -/
theorem parts_append (line : Text) : (parts line).1 ++ (parts line).2 = code line := by
  obtain h | ⟨u, note, h, hu⟩ | ⟨u, gap, note, h, hu⟩ := parts_cases line
  · rw [parts_of_uncommented h, code_eq_self h, List.append_nil]
  · rw [parts_of_terminator_notMem h hu, code_of_cut? h, List.append_nil]
  · rw [parts_of_terminator_mem h hu, code_of_cut? h]
    simp

end Parts

/-- Whether two slashes come together in front of a brace when `message` is taken out of the code
that stays. -/
def joinsSlashes (line : Text) : Bool :=
  (Text.cutBare? Markers.messageWord (parts line).1).any fun (head, tail) =>
    head.getLast? == some '/' && tail.head? == some '/' && Text.braces tail != []

/-! ### Comments that come about -/

section Joints

variable {t u v : Text} {y : Char}

theorem not_infix_append_cons (hy : y ≠ '/') (hu : ¬ Markers.commentOpen <:+: u)
    (hv : ¬ Markers.commentOpen <:+: v) : ¬ Markers.commentOpen <:+: u ++ y :: v := by
  have hy' : y ∉ Markers.commentOpen := by simpa [Markers.commentOpen] using hy
  rw [← Text.cut?_eq_none_iff] at hu hv ⊢
  rw [Text.cut?_append_cons (by decide) hy', hu, hv]
  rfl

/-- A comment comes about between two texts only where slashes meet. -/
theorem slashes_meet (h : Markers.commentOpen <:+: u ++ v) (hu : ¬ Markers.commentOpen <:+: u)
    (hv : ¬ Markers.commentOpen <:+: v) : u.getLast? = some '/' ∧ v.head? = some '/' := by
  obtain h | h | ⟨front, back, heq, hfront, hback⟩ := List.infix_append_iff.mp h
  · exact absurd h hu
  · exact absurd h hv
  · -- the two slashes stand in one text, or one in each
    rcases front with _ | ⟨a, _ | ⟨b, front⟩⟩
    · exact absurd (heq ▸ hback.isInfix) hv
    · obtain ⟨rfl, rfl⟩ : '/' = a ∧ ['/'] = back := by simpa [Markers.commentOpen] using heq
      obtain ⟨u, rfl⟩ := hfront
      obtain ⟨v, rfl⟩ := hback
      simp
    · obtain ⟨rfl, rfl, rfl, rfl⟩ : '/' = a ∧ '/' = b ∧ [] = front ∧ [] = back := by
        simpa [Markers.commentOpen] using heq
      exact absurd hfront.isInfix hu

/-- The braces of two texts one behind the other, where no brace stands behind slashes that meet. -/
theorem braces_code_append (hu : ¬ Markers.commentOpen <:+: u)
    (hv : ¬ Markers.commentOpen <:+: v)
    (h : u.getLast? = some '/' → v.head? = some '/' → Text.braces v = []) :
    Text.braces (code (u ++ v)) = Text.braces u ++ Text.braces v := by
  by_cases hmeet : u.getLast? = some '/' ∧ v.head? = some '/'
  · obtain ⟨hlast, hhead⟩ := hmeet
    rw [h hlast hhead]
    obtain ⟨u, rfl⟩ := List.getLast?_eq_some_iff.mp hlast
    obtain ⟨v, rfl⟩ := List.head?_eq_some_iff.mp hhead
    have hcut : Text.cut? Markers.commentOpen (u ++ ['/'] ++ '/' :: v) = some (u, v) :=
      cut?_commentOpen_eq_some_iff.mpr ⟨by simp [Markers.commentOpen], hu⟩
    rw [code_of_cut? hcut]
    simp [Text.braces]
  · have hnot : ¬ Markers.commentOpen <:+: u ++ v := fun hopens =>
      hmeet (slashes_meet hopens hu hv)
    rw [code_eq_self hnot, Text.braces_append]

/-- A comment behind a text takes no brace of its code away. -/
theorem braces_code_append_docOpen (t note : Text) :
    Text.braces (code (t ++ Markers.docOpen ++ note)) = Text.braces (code t) := by
  have hassoc : t ++ Markers.docOpen ++ note = t ++ Markers.commentOpen ++ '/' :: note := by
    simp [Markers.docOpen, Markers.commentOpen]
  rw [hassoc]
  obtain ⟨-, hcode, ht⟩ | ⟨head, tail, hcut, hcode, -, -⟩ := code_cases t
  · rw [hcode]
    by_cases hlast : t.getLast? = some '/'
    -- the last slash of the text is then the first of the comment
    · obtain ⟨t, rfl⟩ := List.getLast?_eq_some_iff.mp hlast
      have hcut : Text.cut? Markers.commentOpen (t ++ ['/'] ++ Markers.commentOpen ++ '/' :: note) =
          some (t, '/' :: '/' :: note) :=
        cut?_commentOpen_eq_some_iff.mpr ⟨by simp [Markers.commentOpen], ht⟩
      rw [code_of_cut? hcut]
      simp [Text.braces]
    · have hslash : ¬ Markers.commentOpen <:+: t ++ ['/'] := fun hopens =>
        hlast (slashes_meet hopens ht (by decide)).1
      rw [code_of_cut? (cut?_commentOpen_eq_some_iff.mpr ⟨rfl, hslash⟩)]
  · obtain ⟨rfl, hhead⟩ := cut?_commentOpen_eq_some_iff.mp hcut
    have hcut' : Text.cut? Markers.commentOpen
        (head ++ Markers.commentOpen ++ tail ++ Markers.commentOpen ++ '/' :: note) =
        some (head, tail ++ Markers.commentOpen ++ '/' :: note) :=
      cut?_commentOpen_eq_some_iff.mpr ⟨by simp, hhead⟩
    rw [code_of_cut? hcut', hcode]

end Joints

/-! ### Punctuation -/

/-- `t'` is `t`, or has another terminator than `t` in one place: a comma for it, or one more behind
a closing brace. -/
inductive Punctuated : Text → Text → Prop where
  | same (t : Text) : Punctuated t t
  | comma (u v : Text) : Punctuated (u ++ ';' :: v) (u ++ ',' :: v)
  | brace (u v : Text) : Punctuated (u ++ '}' :: v) (u ++ '}' :: ';' :: v)

section Punctuated

variable {t t' : Text}

theorem punctuated_close_separate (m : Markers) (s : Scope) (t : Text) :
    Punctuated t (close m s (separate s t)) := by
  cases s with
  | enumBody =>
    have hclose : close m .enumBody (separate .enumBody t) = separate .enumBody t := rfl
    rw [hclose]
    unfold separate
    split
    · next hcut =>
      obtain ⟨rfl, -⟩ := Text.cut?_singleton_eq_some_iff.mp hcut
      exact .comma _ _
    · exact .same t
  | outside =>
    have hseparate : separate .outside t = t := rfl
    rw [hseparate]
    unfold close
    split
    · next hcut =>
      obtain ⟨rfl, -⟩ := Text.cut?_singleton_eq_some_iff.mp hcut
      exact .brace _ _
    · exact .same t

theorem Punctuated.braces_eq (h : Punctuated t t') : Text.braces t' = Text.braces t := by
  cases h with
  | same => rfl
  | comma u v => simp [Text.braces]
  | brace u v => simp [Text.braces]

theorem Punctuated.uncommented (h : Punctuated t t') (ht : ¬ Markers.commentOpen <:+: t) :
    ¬ Markers.commentOpen <:+: t' := by
  have hsides {u v : Text} {y : Char} (h : ¬ Markers.commentOpen <:+: u ++ y :: v) :
      ¬ Markers.commentOpen <:+: u ∧ ¬ Markers.commentOpen <:+: v :=
    ⟨fun hu => h (hu.trans (List.prefix_append _ _).isInfix),
      fun hv => h (hv.trans ⟨u ++ [y], [], by simp⟩)⟩
  cases h with
  | same => exact ht
  | comma u v =>
    obtain ⟨hu, hv⟩ := hsides ht
    exact not_infix_append_cons (by decide) hu hv
  | brace u v =>
    obtain ⟨hu, hv⟩ := hsides ht
    exact not_infix_append_cons (by decide) hu
      (not_infix_append_cons (u := []) (by decide) (by decide) hv)

theorem Punctuated.getLast? (h : Punctuated t t') (ht : t'.getLast? = some '/') :
    t.getLast? = some '/' := by
  cases h with
  | same => exact ht
  | comma u v => cases v <;> simp_all [List.getLast?_append, List.getLast?_cons]
  | brace u v => cases v <;> simp_all [List.getLast?_append, List.getLast?_cons]

theorem Punctuated.head? (h : Punctuated t t') (ht : t'.head? = some '/') :
    t.head? = some '/' := by
  cases h with
  | same => exact ht
  | comma u v => cases u <;> simp_all
  | brace u v => cases u <;> simp_all

/-- Punctuation has no part in a bare word. -/
theorem Punctuated.cutBare? {word head tail : Text} (hw : Text.IsWord word)
    (h : Punctuated t t') (ht : Text.cutBare? word t = some (head, tail)) :
    ∃ head' tail', Text.cutBare? word t' = some (head', tail') ∧ Punctuated head head' ∧
      Punctuated tail tail' := by
  have hcomma : Text.isWordChar ',' = false := by decide
  have hterminator : Text.isWordChar ';' = false := by decide
  have hbrace : Text.isWordChar '}' = false := by decide
  cases h with
  | same => exact ⟨head, tail, ht, .same _, .same _⟩
  | comma u v =>
    obtain ⟨back, hu, rfl⟩ | ⟨front, hu, hv, rfl⟩ :=
      Text.cutBare?_append_cons_eq_some hw hterminator ht
    · exact ⟨head, back ++ ',' :: v, by rw [Text.cutBare?_append_cons hw hcomma, hu], .same _,
        .comma _ _⟩
    · refine ⟨u ++ ',' :: front, tail, ?_, .comma _ _, .same _⟩
      rw [Text.cutBare?_append_cons hw hcomma, hu, hv]
      rfl
  | brace u v =>
    obtain ⟨back, hu, rfl⟩ | ⟨front, hu, hv, rfl⟩ :=
      Text.cutBare?_append_cons_eq_some hw hbrace ht
    · exact ⟨head, back ++ '}' :: ';' :: v, by rw [Text.cutBare?_append_cons hw hbrace, hu],
        .same _, .brace _ _⟩
    · have hcons : Text.cutBare? word (';' :: v) = some (';' :: front, tail) := by
        rw [Text.cutBare?, Text.cutBareFrom?_separator hw hterminator, hv]
        rfl
      refine ⟨u ++ '}' :: ';' :: front, tail, ?_, .brace _ _, .same _⟩
      rw [Text.cutBare?_append_cons hw hbrace, hu, hcons]
      rfl

end Punctuated

/-! ### The braces of a line -/

section Recast

variable {line t : Text}

/-- What is left and right of `message` keeps its braces behind `struct`. -/
theorem braces_code_structWord {head tail : Text} (hhead : ¬ Markers.commentOpen <:+: head)
    (htail : ¬ Markers.commentOpen <:+: tail)
    (h : head.getLast? = some '/' → tail.head? = some '/' → Text.braces tail = []) :
    Text.braces (code (Markers.structWord ++ head ++ tail)) =
      Text.braces head ++ Text.braces tail := by
  have hfront : ¬ Markers.commentOpen <:+: Markers.structWord ++ head := fun hopens =>
    absurd (slashes_meet hopens (by decide) hhead).1 (by decide)
  have hstruct : Text.braces Markers.structWord = [] := rfl
  rw [braces_code_append hfront htail, Text.braces_append, hstruct, List.nil_append]
  intro hlast hfirst
  refine h ?_ hfirst
  -- the slash before the place of the word is not the last letter of `struct`
  cases head with
  | nil => exact absurd hlast (by decide)
  | cons c head => simpa [List.getLast?_append] using hlast

/-- **What becomes of a text without a comment**: its punctuation changes, and if there is a bare
`message` in it, what stands on either side of it is put behind `struct`. -/
theorem recast_punctuated (s : Scope) (ht : ¬ Markers.commentOpen <:+: t) :
    (Text.cutBare? Markers.messageWord t = none ∧ Punctuated t (recast s t).1.line) ∨
    ∃ head tail head' tail', Text.cutBare? Markers.messageWord t = some (head, tail) ∧
      Punctuated head head' ∧ Punctuated tail tail' ∧
      (recast s t).1.line = Markers.structWord ++ head' ++ tail' := by
  have hdeclares : (Markers.ofLine t).declaresMessage =
      (Text.cutBare? Markers.messageWord t).isSome := by
    rw [declaresMessage_ofLine, code_eq_self ht]
  have hpunctuated := punctuated_close_separate (Markers.ofLine t) (s.enter (Markers.ofLine t)) t
  rw [recast_of_uncommented s ht, retouch]
  dsimp only
  generalize close _ _ _ = t' at hpunctuated ⊢
  cases hcut : Text.cutBare? Markers.messageWord t with
  | none =>
    have hfalse : (Markers.ofLine t).declaresMessage = false := by rw [hdeclares, hcut]; rfl
    rw [declare_eq_self hfalse]
    exact Or.inl ⟨rfl, hpunctuated⟩
  | some pieces =>
    obtain ⟨head, tail⟩ := pieces
    obtain ⟨head', tail', hcut', hhead, htail⟩ :=
      hpunctuated.cutBare? Markers.isWord_messageWord hcut
    refine Or.inr ⟨head, tail, head', tail', rfl, hhead, htail, ?_⟩
    rw [declare, hcut', hdeclares, hcut]
    rfl

/-- **Text without a comment** keeps its braces, and they stay code. -/
theorem braces_code_recast (s : Scope) (ht : ¬ Markers.commentOpen <:+: t)
    (h : ∀ head tail, Text.cutBare? Markers.messageWord t = some (head, tail) →
      head.getLast? = some '/' → tail.head? = some '/' → Text.braces tail = []) :
    Text.braces (code (recast s t).1.line) = Text.braces t := by
  obtain ⟨-, hpunctuated⟩ | ⟨head, tail, head', tail', hcut, hhead, htail, hline⟩ :=
    recast_punctuated s ht
  · rw [code_eq_self (hpunctuated.uncommented ht), hpunctuated.braces_eq]
  · have htext := (Text.eq_append_of_cutBare? Markers.isWord_messageWord hcut).1
    have hfront : ¬ Markers.commentOpen <:+: head := fun hopens =>
      ht (hopens.trans ⟨[], Markers.messageWord ++ tail, by simp [htext]⟩)
    have hback : ¬ Markers.commentOpen <:+: tail := fun hopens =>
      ht (hopens.trans ⟨head ++ Markers.messageWord, [], by simp [htext]⟩)
    have hmessage : Text.braces Markers.messageWord = [] := rfl
    rw [hline, braces_code_structWord (hhead.uncommented hfront) (htail.uncommented hback),
      hhead.braces_eq, htail.braces_eq, htext, Text.braces_append, Text.braces_append, hmessage,
      List.append_nil]
    intro hlast hfirst
    rw [htail.braces_eq]
    exact h head tail hcut (hhead.getLast? hlast) (htail.head? hfirst)

/-- **One line**: the braces of the code that goes above come before those of the code that
stays. -/
theorem braces_recast (s : Scope) (h : joinsSlashes line = false) :
    ((recast s line).1.lines.flatMap fun l => Text.braces (code l)) =
      Text.braces (parts line).2 ++ Text.braces (parts line).1 := by
  have hjoin (head tail : Text)
      (hcut : Text.cutBare? Markers.messageWord (parts line).1 = some (head, tail))
      (hlast : head.getLast? = some '/') (hfirst : tail.head? = some '/') :
      Text.braces tail = [] := by
    simpa [joinsSlashes, hcut, hlast, hfirst] using h
  obtain hline | ⟨u, note, hcut, hu⟩ | ⟨u, gap, note, hcut, hu⟩ := parts_cases line
  · rw [parts_of_uncommented hline] at hjoin ⊢
    have hlines : (recast s line).1.lines = [(recast s line).1.line] := by
      rw [recast_of_uncommented s hline]
      rfl
    rw [hlines, List.flatMap_singleton, braces_code_recast s hline hjoin]
    rfl
  · rw [parts_of_terminator_notMem hcut hu] at hjoin ⊢
    have hopens := Text.not_infix_of_cut? (by decide) hcut
    rw [recast_of_terminator_notMem s hcut hu]
    simp only [Recast.lines, Option.toList_none, List.nil_append, List.flatMap_singleton]
    rw [braces_code_append_docOpen, braces_code_recast s hopens hjoin]
    rfl
  · rw [parts_of_terminator_mem hcut hu] at hjoin ⊢
    have hopens := Text.not_infix_of_cut? (by decide) hcut
    have hgap : ¬ Markers.commentOpen <:+: gap := fun h =>
      hopens (h.trans ⟨u ++ [';'], [], by simp⟩)
    have hstays : ¬ Markers.commentOpen <:+: u ++ [';'] := fun h =>
      hopens (h.trans ⟨[], gap, by simp⟩)
    rw [recast_of_terminator_mem s hcut hu]
    simp only [Recast.lines, Option.toList_some, List.singleton_append, List.flatMap_cons,
      List.flatMap_nil, List.append_nil]
    rw [braces_code_append_docOpen, code_eq_self hgap, braces_code_recast _ hstays hjoin]

/-- **A run of lines**, line by line. -/
theorem braces_recastAll (s : Scope) {lines : List Text}
    (h : ∀ line ∈ lines, joinsSlashes line = false) :
    ((Recast.output (recastAll s lines)).flatMap fun l => Text.braces (code l)) =
      lines.flatMap fun line => Text.braces (parts line).2 ++ Text.braces (parts line).1 := by
  induction lines generalizing s with
  | nil => rfl
  | cons line lines ih =>
    simp only [List.mem_cons, forall_eq_or_imp] at h
    rw [recastAll_cons, Recast.output_cons, List.flatMap_append, braces_recast s h.1, ih _ h.2,
      List.flatMap_cons]

end Recast

/-! ### Line endings -/

section Chomp

/-- A carriage return at the end is code only where there is no comment. -/
theorem parts_append_return (line : Text) :
    parts (line ++ ['\r']) = parts line ∨
      parts line = (line, []) ∧ parts (line ++ ['\r']) = (line ++ ['\r'], []) := by
  have hcut := Text.cut?_append_cons (show Markers.commentOpen ≠ [] by decide)
    (show '\r' ∉ Markers.commentOpen by decide) line []
  cases hline : Text.cut? Markers.commentOpen line with
  | none =>
    rw [hline] at hcut
    refine Or.inr ⟨by rw [parts, hline], ?_⟩
    rw [parts, hcut]
    rfl
  | some pieces =>
    rw [hline] at hcut
    left
    rw [parts, parts, hline, hcut]

theorem chomp_cases (line : Text) : chomp line = line ∨ line = chomp line ++ ['\r'] := by
  rw [chomp]
  split
  · next h =>
    obtain ⟨front, rfl⟩ := List.getLast?_eq_some_iff.mp h
    simp
  · exact Or.inl rfl

theorem chomp_subset (line : Text) : chomp line ⊆ line := by
  obtain h | h := chomp_cases line
  · rw [h]
    exact List.Subset.refl _
  · nth_rewrite 2 [h]
    exact List.subset_append_left _ _

theorem braces_parts_chomp (line : Text) :
    Text.braces (parts (chomp line)).2 ++ Text.braces (parts (chomp line)).1 =
      Text.braces (parts line).2 ++ Text.braces (parts line).1 := by
  obtain h | h := chomp_cases line
  · rw [h]
  · generalize chomp line = front at h ⊢
    obtain hsame | ⟨hfront, hline⟩ := parts_append_return front
    · rw [h, hsame]
    · rw [h, hfront, hline]
      simp [Text.braces]

theorem joinsSlashes_chomp (line : Text) : joinsSlashes (chomp line) = joinsSlashes line := by
  obtain h | h := chomp_cases line
  · rw [h]
  · generalize chomp line = front at h ⊢
    obtain hsame | ⟨hfront, hline⟩ := parts_append_return front
    · rw [h, joinsSlashes, joinsSlashes, hsame]
    · have hreturn : Text.isWordChar '\r' = false := by decide
      rw [h, joinsSlashes, joinsSlashes, hfront, hline,
        Text.cutBare?_append_cons Markers.isWord_messageWord hreturn]
      cases Text.cutBare? Markers.messageWord front with
      | none => rfl
      | some pieces =>
        obtain ⟨head, tail⟩ := pieces
        have hbraces : Text.braces (tail ++ ['\r']) = Text.braces tail := by simp [Text.braces]
        have hfirst : ((tail ++ ['\r']).head? == some '/') = (tail.head? == some '/') := by
          cases tail <;> simp
        simp only [Option.any_some, hbraces, hfirst]

end Chomp

end Line

namespace Run

/-- **A document**, line by line. -/
theorem codeBraces_transform_eq {t : Text}
    (h : ∀ line ∈ t.splitOn '\n', Line.joinsSlashes line = false) :
    Text.codeBraces (transform t) = (t.splitOn '\n').flatMap fun line =>
      Text.braces (Line.parts line).2 ++ Text.braces (Line.parts line).1 := by
  obtain ⟨lines, last, hsplit, htransform, hnewline⟩ := transform_eq t
  rw [hsplit] at h ⊢
  -- a last line with nothing in it is not read, and has no brace
  have hread : (lines.map Line.chomp ++ if last = [] then [] else [Line.chomp last]) =
      ((lines ++ if last = [] then [] else [last]).map Line.chomp) := by
    split <;> simp
  have hlast : ((lines ++ if last = [] then [] else [last]).flatMap fun line =>
      Text.braces (Line.parts line).2 ++ Text.braces (Line.parts line).1) =
      (lines ++ [last]).flatMap fun line =>
        Text.braces (Line.parts line).2 ++ Text.braces (Line.parts line).1 := by
    split
    · next hnil =>
      rw [hnil, List.append_nil, List.flatMap_append]
      exact (List.append_nil _).symm
    · rfl
  have hsubset : (lines ++ if last = [] then [] else [last]) ⊆ lines ++ [last] := by
    split <;> simp
  rw [htransform, hread, Text.codeBraces_unlines, Line.braces_recastAll, List.flatMap_map]
  · simp only [Line.braces_parts_chomp, hlast]
  · intro line hline
    obtain ⟨whole, hwhole, rfl⟩ := List.mem_map.mp hline
    rw [Line.joinsSlashes_chomp, h whole (hsubset hwhole)]
  · refine Line.newline_notMem_recastAll .outside fun line hline => ?_
    obtain ⟨whole, hwhole, rfl⟩ := List.mem_map.mp hline
    exact fun hmem => hnewline whole (hsubset hwhole) (Line.chomp_subset whole hmem)

/-- **Block structure.** Take a document in which no two slashes come together in front of a brace
when `message` is taken out from between them. The braces of its code come out line by line, those
of the code that goes to the line above with a comment before those of the code that stays. So none
is lost or made, and where no code with a brace in it goes above, all are in their order. -/
theorem codeBraces_transform {t : Text}
    (h : ∀ line ∈ t.splitOn '\n', Line.joinsSlashes line = false) :
    Text.codeBraces (transform t) = ((t.splitOn '\n').flatMap fun line =>
      Text.braces (Line.parts line).2 ++ Text.braces (Line.parts line).1) ∧
    (Text.codeBraces (transform t)).Perm (Text.codeBraces t) ∧
    ((∀ line ∈ t.splitOn '\n', Text.braces (Line.parts line).2 = []) →
      Text.codeBraces (transform t) = Text.codeBraces t) := by
  have hparts (line : Text) :
      (Text.braces (Line.parts line).2 ++ Text.braces (Line.parts line).1).Perm
        (Text.braces (Line.code line)) := by
    rw [← Line.parts_append line, Text.braces_append]
    exact List.perm_append_comm
  have heq := codeBraces_transform_eq h
  refine ⟨heq, ?_, fun hstay => ?_⟩
  · rw [heq]
    exact List.Perm.flatMap_left _ fun line _ => hparts line
  · rw [heq, Text.codeBraces]
    refine List.flatMap_congr fun line hline => ?_
    rw [← Line.parts_append line, Text.braces_append, hstay line hline, List.nil_append,
      List.append_nil]

/-- An enum that is closed in front of its comment comes out with its closing brace first. -/
theorem codeBraces_transform_of_closed_enum :
    (∀ line ∈ "enum E \x7b A = 0; \x7d // c\nmessage M \x7b // m\n\x7d\n".toList.splitOn '\n',
      Line.joinsSlashes line = false) ∧
    Text.codeBraces (transform "enum E \x7b A = 0; \x7d // c\nmessage M \x7b // m\n\x7d\n".toList) =
      "\x7d\x7b\x7b\x7d".toList ∧
    (∀ line ∈ "message M \x7b // \x7d\n  A a = 1; // \x7b\n\x7d\n".toList.splitOn '\n',
      Line.joinsSlashes line = false ∧ Text.braces (Line.parts line).2 = []) ∧
    Text.codeBraces (transform "message M \x7b // \x7d\n  A a = 1; // \x7b\n\x7d\n".toList) =
      Text.codeBraces "message M \x7b // \x7d\n  A a = 1; // \x7b\n\x7d\n".toList :=
  ⟨by decide, (codeBraces_transform (by decide)).1.trans (by decide), by decide,
    (codeBraces_transform (by decide)).2.2 (by decide)⟩

/-- Neither exception can be left out: the braces of an enum that is closed in front of its comment
change places, and a brace behind `/message/` is lost. -/
theorem codeBraces_transform_ne :
    Text.codeBraces (transform "enum E \x7b A = 0; \x7d // c\n".toList) ≠
      Text.codeBraces "enum E \x7b A = 0; \x7d // c\n".toList ∧
    Text.codeBraces (transform "/message/\x7b\n".toList) ≠
      Text.codeBraces "/message/\x7b\n".toList := by
  decide

end Run

end SchemaDoc
